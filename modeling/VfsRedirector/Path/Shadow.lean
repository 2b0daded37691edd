import VfsRedirector.Path.Routes

/-!
# The shadow file and the backing file

Where the shadow file of a file is, and where the backing file of a shadow file
is, as canonical paths. The strings that the conversions make are those of
`shadowPath` and `backingPath`; the bare names that they make are entries of the
directory of the file and of the protected storage.

## Results

* `shadowPath_string` — the shadow path of a canonical path is the converted string.
* `redirected_nil_string` — the name that a path becomes.
* `backingPath_eq` — where the backing file is.
-/

namespace VfsRedirector

open Library CanonicalPath

variable {p q : CanonicalPath} {name dir : List UInt8}

/-- Where the shadow file of the file at `p` is. -/
def shadowPath (p : CanonicalPath) : CanonicalPath := resolve root (shadowCopy p.string)

/-- Where the backing file of the shadow file at `s` is. -/
def backingPath (redirectTo s : CanonicalPath) : CanonicalPath :=
  resolve root (redirected redirectTo.string s.string)

-- ---------------------------------------------------------------------------
-- Names in a directory
-- ---------------------------------------------------------------------------

/-- The directory with its `/`, and the name. -/
theorem string_eq_parent (p : CanonicalPath) :
    p.string = join p.parent.components ++ slash :: p.baseName := by
  by_cases h : p.components = []
  · have hroot : p = root := CanonicalPath.ext h
    rw [hroot]
    decide
  · have hlast := List.dropLast_append_getLast h
    have hname : p.baseName = p.components.getLast h := by
      rw [baseName, List.getLast?_eq_getLast_of_ne_nil h, Option.getD_some]
    have hjoin := congrArg join hlast
    rw [join_append] at hjoin
    rw [string, if_neg h, ← hjoin, hname, parent]
    simp [join]

/-- The name of a file has neither a slash nor a terminator. -/
theorem slash_notMem_baseName (p : CanonicalPath) : slash ∉ p.baseName ∧ 0 ∉ p.baseName := by
  rw [baseName]
  cases h : p.components.getLast? with
  | none => simp
  | some name =>
    have hplain := p.plain name (List.mem_of_getLast? h)
    exact ⟨hplain.2.1, hplain.2.2.1⟩

/-- A file's path is its directory, a slash and its name. -/
theorem string_enter (h : PlainName name) (p : CanonicalPath) :
    (p.enter name).string = join p.components ++ slash :: name := by
  rw [string, enter_components h, if_neg (by simp), join_append]
  simp [join]

/-- A name in a directory that is not the root, from a string. -/
theorem resolve_append_name (hp : p.components ≠ []) (h : PlainName name) :
    resolve root (p.string ++ slash :: name) = p.enter name := by
  have hstring : p.string ++ slash :: name = (p.enter name).string := by
    rw [string_enter h, string, if_neg hp]
  rw [hstring, resolve_string]

/-- A path is its name in its directory. -/
theorem enter_parent (p : CanonicalPath) : p.parent.enter p.baseName = p := by
  by_cases h : p.components = []
  · have hroot : p = root := CanonicalPath.ext h
    rw [hroot]
    decide
  · have hname : p.baseName = p.components.getLast h := by
      rw [baseName, List.getLast?_eq_getLast_of_ne_nil h, Option.getD_some]
    apply CanonicalPath.ext
    rw [enter_components (hname ▸ p.plain _ (List.getLast_mem h)), hname, parent,
      List.dropLast_append_getLast]

-- ---------------------------------------------------------------------------
-- The last component of a string
-- ---------------------------------------------------------------------------

/-- Without a slash the scan from the end goes over the whole name. -/
theorem all_of_notMem (h : slash ∉ name) : ∀ c ∈ name.reverse, decide (c ≠ slash) = true := by
  intro c hc
  rw [decide_eq_true_eq]
  rintro rfl
  exact h (List.mem_reverse.mp hc)

/-- The last component is what follows the last slash. -/
theorem lastComponent_of_notMem (h : slash ∉ name) :
    lastComponent (dir ++ slash :: name) = name := by
  rw [lastComponent, List.rtakeWhile, List.reverse_append, List.reverse_cons, List.append_assoc,
    List.takeWhile_append_of_pos (all_of_notMem h), List.singleton_append,
    List.takeWhile_cons_of_neg (by simp), List.append_nil, List.reverse_reverse]

/-- A name without a slash is its own. -/
theorem lastComponent_self (h : slash ∉ name) : lastComponent name = name := by
  rw [lastComponent, List.rtakeWhile, List.takeWhile_eq_self_iff.mpr (all_of_notMem h),
    List.reverse_reverse]

/-- The last component of a directory part and a name is the name. -/
theorem lastComponent_append (hdir : EndsWithSlash dir) (h : slash ∉ name) :
    lastComponent (dir ++ name) = name := by
  obtain rfl | ⟨d, rfl⟩ := hdir
  · exact lastComponent_self h
  · rw [List.append_assoc, List.singleton_append, lastComponent_of_notMem h]

/-- The directory part is what comes before the last component, with its slash. -/
theorem directoryPart_of_notMem (h : slash ∉ name) :
    directoryPart (dir ++ slash :: name) = dir ++ [slash] := by
  have hparts := directoryPart_append_lastComponent (dir ++ slash :: name)
  rw [lastComponent_of_notMem h] at hparts
  refine @List.append_cancel_right _ _ name _ ?_
  rw [hparts]
  simp

/-- Without a slash the whole name gets the prefix. -/
theorem shadowCopy_name (h : slash ∉ name) : shadowCopy name = shadowName name := by
  have hparts := directoryPart_append_lastComponent name
  rw [lastComponent_self h] at hparts
  rw [shadowCopy_eq, lastComponent_self h, List.append_left_eq_self.mp hparts, List.nil_append]

-- ---------------------------------------------------------------------------
-- What the conversions make of canonical paths
-- ---------------------------------------------------------------------------

/-- The shadow path of a canonical path is in the same directory. -/
theorem shadowCopy_string (p : CanonicalPath) :
    shadowCopy p.string = join p.parent.components ++ slash :: shadowName p.baseName := by
  have hname := (slash_notMem_baseName p).1
  rw [shadowCopy_eq, string_eq_parent, lastComponent_of_notMem hname, directoryPart_of_notMem hname]
  simp

/-- A shadow name can be that of a file. -/
theorem plainName_shadow (p : CanonicalPath) : PlainName (shadowName p.baseName) :=
  plainName_shadowName (slash_notMem_baseName p).1 (slash_notMem_baseName p).2

/-- The shadow file is in the directory of the file. -/
theorem shadowPath_eq (p : CanonicalPath) :
    shadowPath p = p.parent.enter (shadowCopy p.baseName) := by
  rw [shadowCopy_name (slash_notMem_baseName p).1, shadowPath, shadowCopy_string,
    ← string_enter (plainName_shadow p), resolve_string]

/-- The string of the shadow path is the converted string. -/
theorem shadowPath_string (p : CanonicalPath) : (shadowPath p).string = shadowCopy p.string := by
  rw [shadowPath_eq, shadowCopy_name (slash_notMem_baseName p).1, string_enter (plainName_shadow p),
    shadowCopy_string]

/-- Its components are those of the directory and the shadow name. -/
theorem shadowPath_components (p : CanonicalPath) :
    (shadowPath p).components = p.parent.components ++ [shadowName p.baseName] := by
  rw [shadowPath_eq, shadowCopy_name (slash_notMem_baseName p).1,
    enter_components (plainName_shadow p)]

/-- What is left of a path when its directories become a part of the name. -/
theorem redirected_nil_string (hp : p.components ≠ []) : ∃ t, p.string = slash :: t ∧
    t.head? ≠ some slash ∧ redirected [] p.string = flatten t ∧ PlainName (flatten t) := by
  obtain ⟨t, hstring, hhead⟩ := p.string_eq_slash_cons
  have h0 := p.zero_notMem_string
  rw [hstring, List.mem_cons, not_or] at h0
  refine ⟨t, hstring, hhead, ?_, ?_⟩
  · have hname : flattenName t = flatten t := flattenName_of_head hhead
    have hdrop : withoutSlashes (slash :: t) = withoutSlashes t :=
      List.dropWhile_cons_of_pos (by simp)
    have htake : t.takeWhile (· = slash) = [] := by
      cases t with
      | nil => rfl
      | cons c t => exact List.takeWhile_cons_of_neg (by simpa using hhead)
    rw [flattenName, htake, List.nil_append] at hname
    rw [redirected, if_pos rfl, hstring, hdrop, hname]
  · obtain ⟨u, hu, hsplit⟩ := string_splitOn hp
    obtain rfl : u = t := by
      rw [hstring] at hu
      exact (List.cons.inj hu).2.symm
    -- with a slash the name has a dollar in it; without one it is a component
    by_cases hslash : slash ∈ u
    · have hdollar : dollar ∈ flatten u := List.mem_map.mpr ⟨slash, hslash, if_pos rfl⟩
      have hno : slash ∉ flatten u := by
        rw [flatten, List.mem_map]
        rintro ⟨c, -, hc⟩
        split at hc
        · exact absurd hc (by decide)
        · next hne => exact hne hc
      refine ⟨List.ne_nil_of_mem hdollar, hno, zero_notMem_flatten h0.2, ?_, ?_⟩
      · intro h
        rw [h] at hdollar
        exact absurd hdollar (by decide)
      · intro h
        rw [h] at hdollar
        exact absurd hdollar (by decide)
    · rw [flatten_of_notMem hslash]
      apply p.plain
      rw [← hsplit, List.splitOn_eq_singleton hslash]
      exact List.mem_singleton_self _

/-- The backing file is in the protected storage, under the name that the conversion
without a directory gives. -/
theorem backingPath_eq {redirectTo : CanonicalPath} (hne : redirectTo.components ≠ [])
    (hp : p.components ≠ []) :
    backingPath redirectTo p = redirectTo.enter (redirected [] p.string) := by
  obtain ⟨t, hstring, hhead, hbare, hplain⟩ := redirected_nil_string hp
  have hdir : redirectTo.string ≠ [] := by
    obtain ⟨u, hu, -⟩ := redirectTo.string_eq_slash_cons
    rw [hu]
    exact List.cons_ne_nil _ _
  rw [backingPath, hbare, hstring, redirected_of_slash hdir hhead, resolve_append_name hne hplain]

end VfsRedirector
