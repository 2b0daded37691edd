import VfsRedirector.Path.Convert

/-!
# Two files with one backing file

The name of a backing file is the path of the shadow file with `/` replaced by
`$`. A `$` that was in the path already is not escaped, so different paths can
have one name: `/a/b/c` and `/a$b/c`, or `/a/b$.QS_c` and `/a/.QS_b/c`.
`Collide` says of two canonical paths that they do, and is exact
(`backing_names_differ_iff`); without a `$` in the paths it does not happen
(`backing_names_differ`).

## Results

* `backing_names_differ_iff` — two files share a backing file just if their paths
  collide.
-/

namespace VfsRedirector

open Library

variable {path path' dir name : List UInt8} {p q : CanonicalPath} {redirectTo : RedirectTo}

/-- The name that the conversion gives `path` in the protected storage, whatever
its allocations find in memory and whatever follows the strings. -/
def BackingName (redirectTo : RedirectTo) (path name : List UInt8) : Prop :=
  ∀ rest rest' foundShadow found, (qvrConvertToShadowAndThenRedirectedPath (path ++ 0 :: rest)
    (redirectTo.bytes ++ 0 :: rest') (some foundShadow) (some found)).string = some name

/-- The directory of `path'`, with `$` for `/`, goes on after that of `path` with
the shadow prefix, and the rest of it is read in the last component of `path`. -/
def Absorbs (path path' : List UInt8) : Prop :=
  ∃ w, flatten (directoryPart path') = flatten (directoryPart path) ++ (shadowPrefix ++ w) ∧
    lastComponent path = w ++ (shadowPrefix ++ lastComponent path')

/-- Two paths that get one name: their directories differ in `/` and `$` at most
and the last components are the same, or one absorbs the other. -/
def Collide (path path' : List UInt8) : Prop :=
  (flatten (directoryPart path) = flatten (directoryPart path') ∧
    lastComponent path = lastComponent path') ∨ Absorbs path path' ∨ Absorbs path' path

-- ---------------------------------------------------------------------------
-- Cutting a name at the prefix
-- ---------------------------------------------------------------------------

section Cut

variable {α : Type} {A B S x y z : List α} {d : α}

/-- What `B` has more than `A` begins with the whole of `S`, since it ends with
a separator that does not occur in `S`. -/
theorem cut_of_append (hB : B.getLast? = some d) (hS : d ∉ S) (hz : z ≠ []) (h : B = A ++ z)
    (heq : S ++ x = z ++ (S ++ y)) : ∃ w, B = A ++ (S ++ w) ∧ x = w ++ (S ++ y) := by
  have hlast : d ∈ z := by
    rw [h, List.getLast?_append_of_ne_nil _ hz] at hB
    exact List.mem_of_getLast? hB
  obtain ⟨w, hw, hx⟩ | ⟨w, hw, -⟩ := List.append_eq_append_iff.mp heq
  · exact ⟨w, by rw [h, hw], hx⟩
  · exact absurd (hw ▸ List.mem_append_left w hlast) hS

/-- Two names with one separator in each are equal if their parts are, or if one of them has the
separator again further on. -/
theorem append_separated_iff (hA : A.getLast? = some d) (hB : B.getLast? = some d) (hS : d ∉ S) :
    A ++ (S ++ x) = B ++ (S ++ y) ↔ (A = B ∧ x = y) ∨
      (∃ w, B = A ++ (S ++ w) ∧ x = w ++ (S ++ y)) ∨
      (∃ w, A = B ++ (S ++ w) ∧ y = w ++ (S ++ x)) := by
  constructor
  · intro h
    obtain ⟨z, hz, heq⟩ | ⟨z, hz, heq⟩ := List.append_eq_append_iff.mp h
    · by_cases hnil : z = []
      · subst hnil
        exact .inl ⟨by simpa using hz.symm, List.append_cancel_left heq⟩
      · exact .inr (.inl (cut_of_append hB hS hnil hz heq))
    · by_cases hnil : z = []
      · subst hnil
        exact .inl ⟨by simpa using hz, (List.append_cancel_left heq).symm⟩
      · exact .inr (.inr (cut_of_append hA hS hnil hz heq))
  · rintro (⟨rfl, rfl⟩ | ⟨w, rfl, rfl⟩ | ⟨w, rfl, rfl⟩)
    · rfl
    · simp only [List.append_assoc]
    · simp only [List.append_assoc]

end Cut

-- ---------------------------------------------------------------------------
-- The name of a canonical path
-- ---------------------------------------------------------------------------

/-- A name is flattened part by part. -/
theorem flatten_append (a b : List UInt8) : flatten (a ++ b) = flatten a ++ flatten b :=
  List.map_append

/-- Without a slash nothing is replaced. -/
theorem flatten_of_notMem (h : slash ∉ path) : flatten path = path := by
  have hmap : path.map (fun c => if c = slash then dollar else c) = path.map id := by
    apply List.map_congr_left
    intro c hc
    have hne : c ≠ slash := fun heq => h (heq ▸ hc)
    simp [hne]
  rw [flatten, hmap, List.map_id]

/-- A name that begins with no slash is flattened from its first letter on. -/
theorem flattenName_of_head (h : path.head? ≠ some slash) : flattenName path = flatten path := by
  cases path with
  | nil => rfl
  | cons c path =>
    have hc : c ≠ slash := by simpa using h
    rw [flattenName, withoutSlashes, List.takeWhile_cons_of_neg (by simpa using hc),
      List.dropWhile_cons_of_neg (by simpa using hc), List.nil_append]

/-- A slash in front stays. -/
theorem flattenName_slash_cons : flattenName (slash :: path) = slash :: flattenName path := by
  rw [flattenName, withoutSlashes, List.takeWhile_cons_of_pos (by simp),
    List.dropWhile_cons_of_pos (by simp)]
  rfl

/-- Behind a single leading `/` everything is flattened. -/
theorem redirected_of_slash {t : List UInt8} (hdir : dir ≠ []) (ht : t.head? ≠ some slash) :
    redirected dir (slash :: t) = dir ++ slash :: flatten t := by
  rw [redirected, if_neg hdir, slashBetween, if_pos (.inr rfl), flattenName_slash_cons,
    flattenName_of_head ht]
  rfl

/-- The directory of an absolute path begins with its `/`. -/
theorem directoryPart_of_slash {t : List UInt8} :
    ∃ d, directoryPart (slash :: t) = slash :: d ∧ t = d ++ lastComponent (slash :: t) := by
  have hparts := directoryPart_append_lastComponent (slash :: t)
  rcases hd : directoryPart (slash :: t) with - | ⟨c, d⟩
  · have hmem := slash_notMem_lastComponent (slash :: t)
    rw [hd, List.nil_append] at hparts
    rw [hparts] at hmem
    exact absurd List.mem_cons_self hmem
  · rw [hd, List.cons_append, List.cons.injEq] at hparts
    exact ⟨d, by rw [hparts.1], hparts.2.symm⟩

/-- A shadow path with `$` for every `/`. -/
def flatShadow (path : List UInt8) : List UInt8 :=
  flatten (directoryPart path) ++ (shadowPrefix ++ lastComponent path)

/-- The name in the protected storage is the directory and the flat shadow path without its first
letter. -/
theorem redirectedShadow_eq (hp : ¬IsShadowName (lastComponent p.string)) :
    ∃ t, flatShadow p.string = dollar :: t ∧
      redirectedShadow redirectTo.bytes p.string = redirectTo.bytes ++ slash :: t := by
  obtain ⟨t, hstring, ht⟩ := p.string_eq_slash_cons
  obtain ⟨d, hdir, hparts⟩ := directoryPart_of_slash (t := t)
  rw [hstring] at hp ⊢
  have hhead : (d ++ (shadowPrefix ++ lastComponent (slash :: t))).head? ≠ some slash := by
    cases d with
    | nil => simp [shadowPrefix, slash]
    | cons c d =>
      rw [hparts] at ht
      exact ht
  have hname : flatten (shadowPrefix ++ lastComponent (slash :: t)) =
      shadowPrefix ++ lastComponent (slash :: t) := by
    apply flatten_of_notMem
    rw [List.mem_append, not_or]
    exact ⟨by decide, slash_notMem_lastComponent _⟩
  refine ⟨flatten d ++ (shadowPrefix ++ lastComponent (slash :: t)), ?_, ?_⟩
  · rw [flatShadow, hdir]
    rfl
  · rw [redirectedShadow, shadowCopy, if_neg hp, hdir, List.cons_append,
      redirected_of_slash redirectTo.ne_nil hhead, flatten_append, hname]

/-- A flattened directory ends with `$`. -/
theorem flatten_directoryPart_getLast (p : CanonicalPath) :
    (flatten (directoryPart p.string)).getLast? = some dollar := by
  obtain ⟨t, hstring, -⟩ := p.string_eq_slash_cons
  obtain ⟨d, hdir, -⟩ := directoryPart_of_slash (t := t)
  obtain hnil | ⟨d', hend⟩ := endsWithSlash_directoryPart p.string
  · rw [hstring, hdir] at hnil
    cases hnil
  · rw [hend, flatten_append]
    simp [flatten]

/-- Two flat shadow paths are equal just if the paths collide. -/
theorem flatShadow_eq_iff (p q : CanonicalPath) :
    flatShadow p.string = flatShadow q.string ↔ Collide p.string q.string :=
  append_separated_iff (flatten_directoryPart_getLast p) (flatten_directoryPart_getLast q)
    (by decide)

/-- The conversion merges two canonical paths exactly when they collide. -/
theorem redirectedShadow_eq_iff (hp : ¬IsShadowName (lastComponent p.string))
    (hq : ¬IsShadowName (lastComponent q.string)) :
    redirectedShadow redirectTo.bytes p.string = redirectedShadow redirectTo.bytes q.string ↔
      Collide p.string q.string := by
  obtain ⟨t, ht, hname⟩ := @redirectedShadow_eq _ redirectTo hp
  obtain ⟨u, hu, hname'⟩ := @redirectedShadow_eq _ redirectTo hq
  rw [← flatShadow_eq_iff, ht, hu, hname, hname', List.append_cancel_left_eq]
  simp

/-- The source computes this name. -/
theorem backingName_redirectedShadow (redirectTo : RedirectTo) (hlen : p.string.length < 2 ^ 31) :
    BackingName redirectTo p.string (redirectedShadow redirectTo.bytes p.string) := by
  intro rest rest' foundShadow found
  exact qvrConvertToShadowAndThenRedirectedPath_string p.zero_notMem_string hlen redirectTo.noNul
    foundShadow found

/-- The names differ exactly when the paths do not collide. -/
theorem backing_names_differ_iff (redirectTo : RedirectTo) (p q : CanonicalPath)
    (hp : ¬IsShadowName (lastComponent p.string)) (hq : ¬IsShadowName (lastComponent q.string))
    (hplen : p.string.length < 2 ^ 31) (hqlen : q.string.length < 2 ^ 31) :
    ∃ a b, BackingName redirectTo p.string a ∧ BackingName redirectTo q.string b ∧
      (a ≠ b ↔ ¬Collide p.string q.string) := by
  refine ⟨redirectedShadow redirectTo.bytes p.string, redirectedShadow redirectTo.bytes q.string,
    backingName_redirectedShadow redirectTo hplen,
    backingName_redirectedShadow redirectTo hqlen, ?_⟩
  rw [ne_eq, redirectedShadow_eq_iff hp hq]

-- ---------------------------------------------------------------------------
-- Paths with and without `$`
-- ---------------------------------------------------------------------------

/-- "/w" -/
def workDirectory : RedirectTo := ⟨[47, 119], by decide, by decide, by decide⟩

/-- "/a/b/c" -/
def pathABC : CanonicalPath := ⟨[[97], [98], [99]], by decide⟩

/-- "/a$b/c" -/
def pathDollar : CanonicalPath := ⟨[[97, 36, 98], [99]], by decide⟩

/-- Two different files of one name in the protected storage. -/
theorem backing_names_shared : ¬∀ (redirectTo : RedirectTo) (p q : CanonicalPath), p ≠ q →
    ¬IsShadowName (lastComponent p.string) → ¬IsShadowName (lastComponent q.string) →
    p.string.length < 2 ^ 31 → q.string.length < 2 ^ 31 →
    ∀ a b, BackingName redirectTo p.string a → BackingName redirectTo q.string b → a ≠ b := by
  intro h
  have hplen : pathABC.string.length < 2 ^ 31 := by decide
  have hqlen : pathDollar.string.length < 2 ^ 31 := by decide
  exact h workDirectory pathABC pathDollar (by decide) (by decide) (by decide) hplen hqlen _ _
    (backingName_redirectedShadow workDirectory hplen)
    (backingName_redirectedShadow workDirectory hqlen) (by decide)

/-- The paths `/a/b/c` and `/a$b/c`, which collide. -/
theorem backing_names_differ_iff_dollar : ∃ a b, BackingName workDirectory pathABC.string a ∧
    BackingName workDirectory pathDollar.string b ∧
    (a ≠ b ↔ ¬Collide pathABC.string pathDollar.string) :=
  backing_names_differ_iff workDirectory pathABC pathDollar (by decide) (by decide) (by decide)
    (by decide)

/-- Where no `$` is, nothing is lost. -/
theorem flatten_injective (hpath : dollar ∉ path) (hpath' : dollar ∉ path')
    (h : flatten path = flatten path') : path = path' := by
  induction path generalizing path' with
  | nil => simpa [flatten] using h.symm
  | cons c path ih =>
    cases path' with
    | nil => simp [flatten] at h
    | cons d path' =>
      rw [List.mem_cons, not_or] at hpath hpath'
      rw [flatten, flatten, List.map_cons, List.map_cons, List.cons.injEq] at h
      have hcd : c = d := by
        have hhead := h.1
        split at hhead <;> split at hhead
        · next hc hd => rw [hc, hd]
        · exact absurd hhead hpath'.1
        · exact absurd hhead.symm hpath.1
        · exact hhead
      rw [hcd, ih hpath.2 hpath'.2 h.2]

/-- To absorb another path, a last component has to have a `$`. -/
theorem not_absorbs (hpath : dollar ∉ path) (q : CanonicalPath) : ¬Absorbs path q.string := by
  rintro ⟨w, hdir, hname⟩
  have hlast := flatten_directoryPart_getLast q
  rw [hdir, ← List.append_assoc] at hlast
  have hw : dollar ∈ w := by
    by_cases hnil : w = []
    · rw [hnil, List.append_nil, List.getLast?_append_of_ne_nil _ (by decide)] at hlast
      exact absurd hlast (by decide)
    · rw [List.getLast?_append_of_ne_nil _ hnil] at hlast
      exact List.mem_of_getLast? hlast
  apply hpath
  rw [← directoryPart_append_lastComponent path, hname]
  exact List.mem_append_right _ (List.mem_append_left _ hw)

/-- Different files have different names when no `$` is in their paths. -/
theorem backing_names_differ (redirectTo : RedirectTo) (hpq : p ≠ q)
    (hp : ¬IsShadowName (lastComponent p.string)) (hq : ¬IsShadowName (lastComponent q.string))
    (hpd : dollar ∉ p.string) (hqd : dollar ∉ q.string) :
    redirectedShadow redirectTo.bytes p.string ≠ redirectedShadow redirectTo.bytes q.string := by
  have hparts := directoryPart_append_lastComponent p.string
  have hparts' := directoryPart_append_lastComponent q.string
  intro h
  obtain ⟨hdir, hlast⟩ | habs | habs := (redirectedShadow_eq_iff hp hq).mp h
  · rw [← hparts, List.mem_append, not_or] at hpd
    rw [← hparts', List.mem_append, not_or] at hqd
    apply hpq
    apply CanonicalPath.string_injective
    rw [← hparts, ← hparts', flatten_injective hpd.1 hqd.1 hdir, hlast]
  · exact not_absorbs hpd q habs
  · exact not_absorbs hqd p habs

end VfsRedirector
