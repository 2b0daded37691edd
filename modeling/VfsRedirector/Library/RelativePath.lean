import VfsRedirector.Library.PathName

/-!
# Relative paths

A relative path is read from a directory. In its shortest form it is a number of
`..`, which leave that directory and those above it, and the names that are gone
down then (`RelativePath.of`); so it leads to what is left of the directory with
the names behind it (`follow_of`). It ends at the directory or below it exactly
when the names begin with those that the `..` have left (`prefix_follow_iff`).

## Results

* `enter_components` — a name is followed from a path as it is relative to it.
* `follow_wayBack` — the way back leads from a name to its directory.
* `resolve_congr` — spellings that are equal after a map resolve to paths that are.
-/

namespace VfsRedirector.Library

open CanonicalPath

variable {p q : CanonicalPath} {name : List UInt8} {names names' : List (List UInt8)}

/-- A relative path in its shortest form. -/
@[ext]
structure RelativePath where
  ups : Nat
  names : List (List UInt8)
  deriving DecidableEq

namespace RelativePath

/-- One component further; a `..` takes back a name, if there is one. -/
def enter (r : RelativePath) (name : List UInt8) : RelativePath :=
  if PlainName name then { r with names := r.names ++ [name] }
  else if name = [dot, dot] then
    if r.names = [] then { r with ups := r.ups + 1 } else { r with names := r.names.dropLast }
  else r

def of (names : List (List UInt8)) : RelativePath := names.foldl enter ⟨0, []⟩

-- ---------------------------------------------------------------------------
-- Where it leads
-- ---------------------------------------------------------------------------

/-- One more is dropped from the end. -/
theorem rdrop_succ {α : Type} (l : List α) (n : Nat) : l.rdrop (n + 1) = (l.rdrop n).dropLast := by
  unfold List.rdrop
  rw [List.dropLast_eq_take, List.take_take, List.length_take]
  congr 1
  omega

/-- What is dropped and what is left are the list. -/
theorem rdrop_append_rtake {α : Type} (l : List α) (n : Nat) : l.rdrop n ++ l.rtake n = l := by
  unfold List.rdrop List.rtake
  exact List.take_append_drop _ l

/-- To follow a name from a path is to follow it relative to the path. -/
theorem enter_components {r : RelativePath} (h : q.components = p.components.rdrop r.ups ++ r.names)
    (name : List UInt8) : (q.enter name).components =
      p.components.rdrop (r.enter name).ups ++ (r.enter name).names := by
  unfold CanonicalPath.enter enter
  split
  · simp only [h, List.append_assoc]
  · split
    · -- a `..` leaves the last name, or a directory that the path was read from
      split
      · next hnil => simp only [h, hnil, List.append_nil, rdrop_succ]
      · next hne => simp only [h, List.dropLast_append_of_ne_nil hne]
    · exact h

/-- To follow names is to go up by as many as they ask for, and then down. -/
theorem follow_of (p : CanonicalPath) (names : List (List UInt8)) :
    (p.follow names).components = p.components.rdrop (of names).ups ++ (of names).names := by
  induction names using List.reverseRecOn with
  | nil =>
    show p.components = p.components.rdrop 0 ++ []
    rw [List.rdrop_zero, List.append_nil]
  | append_singleton names name ih =>
    unfold follow of
    rw [List.foldl_concat, List.foldl_concat]
    exact enter_components ih name

/-- With names compared by `g`, such as without regard to letter case. -/
theorem prefix_follow_iff {α : Type} (g : List UInt8 → α) (p : CanonicalPath)
    (names : List (List UInt8)) :
    p.components.map g <+: (p.follow names).components.map g ↔
      (p.components.rtake (of names).ups).map g <+: (of names).names.map g := by
  have hparts : p.components.map g =
      (p.components.rdrop (of names).ups).map g ++ (p.components.rtake (of names).ups).map g := by
    rw [← List.map_append, rdrop_append_rtake]
  rw [follow_of, hparts, List.map_append, List.prefix_append_right_inj]

/-- Without a `..` nothing is left, and every name is gone down. -/
theorem foldl_enter_down (r : RelativePath) (h : [dot, dot] ∉ names) :
    names.foldl enter r = ⟨r.ups, r.names ++ names.filter (PlainName ·)⟩ := by
  induction names generalizing r with
  | nil => simp
  | cons name names ih =>
    rw [List.mem_cons, not_or] at h
    rw [List.foldl_cons, ih _ h.2, enter]
    by_cases hname : PlainName name
    · simp [hname]
    · simp [hname, Ne.symm h.1]

-- ---------------------------------------------------------------------------
-- The way back
-- ---------------------------------------------------------------------------

/-- What leads from where `name` leads back to `p`. -/
def wayBack (p : CanonicalPath) (name : List UInt8) : List (List UInt8) :=
  if PlainName name then [[dot, dot]]
  else if name = [dot, dot] then p.components.getLast?.toList
  else []

/-- The way back leads from a name in a directory to the directory. -/
theorem follow_wayBack (p : CanonicalPath) (name : List UInt8) :
    (p.enter name).follow (wayBack p name) = p := by
  apply CanonicalPath.ext
  unfold wayBack
  split
  · next h =>
    have hup : ¬PlainName [dot, dot] := by decide
    show ((p.enter name).enter [dot, dot]).components = p.components
    rw [CanonicalPath.enter, dif_neg hup, if_pos rfl]
    show (p.enter name).components.dropLast = p.components
    rw [CanonicalPath.enter_components h, List.dropLast_concat]
  · next h =>
    split
    · next hup =>
      have hplain : ∀ name ∈ p.components.getLast?.toList, PlainName name := by
        intro last hlast
        exact p.plain last (List.mem_of_getLast? (by simpa using hlast))
      rw [follow_components hplain, CanonicalPath.enter, dif_neg h, if_pos hup]
      show p.components.dropLast ++ p.components.getLast?.toList = p.components
      cases hlast : p.components.getLast? with
      | none =>
        rw [List.getLast?_eq_none_iff.mp hlast]
        rfl
      | some last => exact List.dropLast_append_getLast? _ hlast
    · next hup =>
      show (p.enter name).components = p.components
      rw [CanonicalPath.enter, dif_neg h, if_neg hup]

-- ---------------------------------------------------------------------------
-- Names up to a map of their letters
-- ---------------------------------------------------------------------------

section Map

variable {f : UInt8 → UInt8} {s t : List UInt8} {cwd : CanonicalPath}

/-- The map is no matter for where a name ends and what it is for. -/
structure KeepsForm (f : UInt8 → UInt8) : Prop where
  slash : ∀ c, f c = Library.slash ↔ c = Library.slash
  dot : ∀ c, f c = Library.dot ↔ c = Library.dot
  zero : ∀ c, f c = 0 ↔ c = 0

namespace KeepsForm

/-- A name is `.` just if it is after the map. -/
theorem map_eq_dot (hf : KeepsForm f) : name.map f = [Library.dot] ↔ name = [Library.dot] := by
  simp [List.map_eq_cons_iff, hf.dot]

/-- A name is `..` just if it is after the map. -/
theorem map_eq_dots (hf : KeepsForm f) :
    name.map f = [Library.dot, Library.dot] ↔ name = [Library.dot, Library.dot] := by
  simp [List.map_eq_cons_iff, hf.dot]

/-- A name is plain just if it is after the map. -/
theorem plainName (hf : KeepsForm f) : PlainName (name.map f) ↔ PlainName name := by
  unfold PlainName
  rw [ne_eq, ne_eq (name.map f), ne_eq (name.map f), hf.map_eq_dot, hf.map_eq_dots]
  simp [hf.slash, hf.zero]

/-- A string is split at the same places before and after the map. -/
theorem splitOn (hf : KeepsForm f) (s : List UInt8) :
    (s.map f).splitOn Library.slash = (s.splitOn Library.slash).map (List.map f) := by
  induction s with
  | nil => rfl
  | cons c s ih =>
    rw [List.map_cons, List.splitOn_cons_eq_if_modifyHead, List.splitOn_cons_eq_if_modifyHead, ih]
    by_cases hc : c = Library.slash
    · simp [hc, (hf.slash _).mpr rfl]
    · obtain ⟨name, names, hsplit⟩ :=
        List.exists_cons_of_ne_nil (List.splitOn_ne_nil Library.slash s)
      simp [hc, hf.slash, hsplit]

/-- A name is followed in the same way before and after the map. -/
theorem enter (hf : KeepsForm f) (r : RelativePath) (name : List UInt8) :
    RelativePath.enter ⟨r.ups, r.names.map (List.map f)⟩ (name.map f) =
      ⟨(r.enter name).ups, (r.enter name).names.map (List.map f)⟩ := by
  unfold RelativePath.enter
  simp only [hf.plainName, hf.map_eq_dots, List.map_eq_nil_iff]
  split
  · simp
  · split
    · split <;> simp
    · rfl

/-- A list of names is the same relative path before and after the map. -/
theorem of_map (hf : KeepsForm f) (names : List (List UInt8)) :
    of (names.map (List.map f)) = ⟨(of names).ups, (of names).names.map (List.map f)⟩ := by
  induction names using List.reverseRecOn with
  | nil => rfl
  | append_singleton names name ih =>
    unfold of at ih ⊢
    rw [List.map_append, List.map_singleton, List.foldl_concat, List.foldl_concat, ih]
    exact hf.enter _ name

/-- Names that are equal after the map lead to paths that are equal after the map. -/
theorem follow_congr (hf : KeepsForm f) (p : CanonicalPath)
    (h : names.map (List.map f) = names'.map (List.map f)) :
    (p.follow names).components.map (List.map f) =
      (p.follow names').components.map (List.map f) := by
  have hof : of (names.map (List.map f)) = of (names'.map (List.map f)) := by rw [h]
  rw [hf.of_map, hf.of_map, RelativePath.mk.injEq] at hof
  rw [follow_of, follow_of, List.map_append, List.map_append, hof.1, hof.2]

/-- Spellings that are equal after the map resolve to paths that are equal after the map. -/
theorem resolve_congr (hf : KeepsForm f) (h : s.map f = t.map f) :
    (resolve cwd s).components.map (List.map f) = (resolve cwd t).components.map (List.map f) := by
  have hkeep (s : List UInt8) :
      (s.map f).head? = some Library.slash ↔ s.head? = some Library.slash := by
    cases s with
    | nil => simp
    | cons c s => simp [hf.slash]
  have hhead := (hkeep s).symm.trans (h ▸ hkeep t)
  have hnames := congrArg (List.splitOn Library.slash) h
  rw [hf.splitOn, hf.splitOn] at hnames
  unfold resolve
  simp only [hhead]
  exact hf.follow_congr _ hnames

end KeepsForm

end Map

end RelativePath

end VfsRedirector.Library
