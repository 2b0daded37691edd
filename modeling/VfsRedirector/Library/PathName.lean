import Mathlib.Data.List.DropRight

/-!
# Path names

A canonical absolute path is a list of names, none of which is empty, `.` or
`..`; `string` is how it is written. Any other spelling of a path is a string,
and `resolve` is the canonical path that it names, read from a current
directory: repeated slashes and `.` are dropped, `..` goes up. The reading is
lexical: a name is never looked up, so links are not followed.

The components of a spelling are never shorter than those it resolves to, and
as short only if all of them are plain names (`length_join_follow`).

## Results

* `resolve_string` — a canonical path resolves to itself.
* `string_injective` — it is determined by its string.
* `enter_components` — a plain name goes down by one.
-/

namespace VfsRedirector.Library

def slash : UInt8 := 47

def dot : UInt8 := 46

/-- A name that a directory can have for one of its files. -/
def PlainName (name : List UInt8) : Prop :=
  name ≠ [] ∧ slash ∉ name ∧ 0 ∉ name ∧ name ≠ [dot] ∧ name ≠ [dot, dot]

instance (name : List UInt8) : Decidable (PlainName name) :=
  inferInstanceAs (Decidable (_ ∧ _))

/-- A canonical absolute path; the root has no components. -/
@[ext]
structure CanonicalPath where
  components : List (List UInt8)
  plain : ∀ name ∈ components, PlainName name
  deriving DecidableEq

namespace CanonicalPath

variable {p q : CanonicalPath} {name s t : List UInt8}

def root : CanonicalPath := ⟨[], by simp⟩

/-- Each name behind a `/`. -/
def join (names : List (List UInt8)) : List UInt8 := names.flatMap (slash :: ·)

def string (p : CanonicalPath) : List UInt8 :=
  if p.components = [] then [slash] else join p.components

/-- The directory of a path; the root is its own. -/
def parent (p : CanonicalPath) : CanonicalPath :=
  ⟨p.components.dropLast, fun c hc => p.plain c (List.dropLast_subset _ hc)⟩

/-- The last component. -/
def baseName (p : CanonicalPath) : List UInt8 := p.components.getLast?.getD []

-- ---------------------------------------------------------------------------
-- Resolving a spelling
-- ---------------------------------------------------------------------------

/-- From a directory, one component of a spelling further. -/
def enter (p : CanonicalPath) (name : List UInt8) : CanonicalPath :=
  if h : PlainName name then
    ⟨p.components ++ [name], by
      intro c hc
      obtain hc | hc := List.mem_append.mp hc
      · exact p.plain c hc
      · exact List.mem_singleton.mp hc ▸ h⟩
  else if name = [dot, dot] then
    ⟨p.components.dropLast, fun c hc => p.plain c (List.dropLast_subset _ hc)⟩
  else p

def follow (p : CanonicalPath) (names : List (List UInt8)) : CanonicalPath := names.foldl enter p

/-- The path that a string names, for a process in the directory `cwd`. -/
def resolve (cwd : CanonicalPath) (s : List UInt8) : CanonicalPath :=
  follow (if s.head? = some slash then root else cwd) (s.splitOn slash)

-- ---------------------------------------------------------------------------
-- How long a path is
-- ---------------------------------------------------------------------------

theorem join_nil : join [] = [] := rfl

theorem join_cons (name : List UInt8) (names : List (List UInt8)) :
    join (name :: names) = slash :: (name ++ join names) := rfl

/-- Two lists are joined one after the other. -/
theorem join_append (a b : List (List UInt8)) : join (a ++ b) = join a ++ join b :=
  List.flatMap_append

/-- A path is its components with a slash in front of each. -/
theorem join_eq_intercalate {names : List (List UInt8)} (h : names ≠ []) :
    join names = slash :: [slash].intercalate names := by
  induction names with
  | nil => exact absurd rfl h
  | cons name names ih =>
    by_cases hnil : names = []
    · simp [hnil, join, List.intercalate]
    · rw [join_cons, ih hnil, List.intercalate_cons_of_ne_nil hnil]
      simp

/-- To split at the slashes and join is to put a slash in front. -/
theorem join_splitOn (t : List UInt8) : join (t.splitOn slash) = slash :: t := by
  rw [join_eq_intercalate (List.splitOn_ne_nil _ _), List.intercalate_splitOn]

/-- Without its last name a path is not longer. -/
theorem length_join_dropLast_le (names : List (List UInt8)) :
    (join names.dropLast).length ≤ (join names).length := by
  by_cases h : names = []
  · simp [h]
  · have hparts := List.dropLast_append_getLast h
    rw [← hparts, join_append, List.length_append, hparts]
    exact Nat.le_add_right _ _

/-- A plain name goes down by one. -/
theorem enter_components (h : PlainName name) :
    (p.enter name).components = p.components ++ [name] := by
  rw [enter, dif_pos h]

/-- A component that is not a plain name costs more than it adds. -/
theorem length_join_enter_lt (h : ¬PlainName name) :
    (join (p.enter name).components).length < (join p.components).length + (name.length + 1) := by
  rw [enter, dif_neg h]
  split
  · have := length_join_dropLast_le p.components
    simp only
    omega
  · omega

/-- Plain names go down one by one. -/
theorem follow_components {names : List (List UInt8)} (h : ∀ name ∈ names, PlainName name) :
    (p.follow names).components = p.components ++ names := by
  induction names generalizing p with
  | nil => simp [follow]
  | cons name names ih =>
    rw [List.forall_mem_cons] at h
    have hrest := ih (p := p.enter name) h.2
    rw [enter_components h.1, List.append_assoc] at hrest
    exact hrest

/-- To follow two lists is to follow one after the other. -/
theorem follow_append (p : CanonicalPath) (a b : List (List UInt8)) :
    p.follow (a ++ b) = (p.follow a).follow b :=
  List.foldl_append

/-- What is gone down is at most as long as what is spelled, and as long only for plain names. -/
theorem length_join_follow (p : CanonicalPath) (names : List (List UInt8)) :
    (join (p.follow names).components).length ≤ (join p.components).length + (join names).length ∧
      ((join (p.follow names).components).length =
          (join p.components).length + (join names).length →
        ∀ name ∈ names, PlainName name) := by
  induction names generalizing p with
  | nil => simp [follow, join_nil]
  | cons name names ih =>
    obtain ⟨hle, heq⟩ := ih (p.enter name)
    have hcons : (join (name :: names)).length = name.length + 1 + (join names).length := by
      rw [join_cons, List.length_cons, List.length_append]
      omega
    have hfollow : p.follow (name :: names) = (p.enter name).follow names := rfl
    rw [hcons, hfollow]
    by_cases hname : PlainName name
    · have henter : (join (p.enter name).components).length =
          (join p.components).length + (name.length + 1) := by
        rw [enter_components hname, join_append, List.length_append]
        simp [join]
      refine ⟨by omega, fun h => ?_⟩
      rw [List.forall_mem_cons]
      exact ⟨hname, heq (by omega)⟩
    · have henter := length_join_enter_lt (p := p) hname
      exact ⟨by omega, fun h => by omega⟩

-- ---------------------------------------------------------------------------
-- A spelling and what it resolves to
-- ---------------------------------------------------------------------------

/-- A spelling with a slash in front starts at the root. -/
theorem resolve_slash (cwd : CanonicalPath) (t : List UInt8) :
    resolve cwd (slash :: t) = root.follow (t.splitOn slash) := by
  have hsplit : (slash :: t).splitOn slash = [] :: t.splitOn slash := by
    simp [List.splitOn_cons_eq_if_modifyHead]
  have henter : root.enter [] = root := by decide
  rw [resolve, List.head?_cons, if_pos rfl, hsplit, follow, List.foldl_cons, henter]
  rfl

/-- The names between the slashes of a canonical path are its components. -/
theorem string_splitOn (h : p.components ≠ []) :
    ∃ t, p.string = slash :: t ∧ t.splitOn slash = p.components := by
  refine ⟨[slash].intercalate p.components, ?_, ?_⟩
  · rw [string, if_neg h, join_eq_intercalate h]
  · exact List.splitOn_intercalate slash (fun name hn => (p.plain name hn).2.1) h

/-- A canonical path resolves to itself. -/
theorem resolve_string (cwd p : CanonicalPath) : resolve cwd p.string = p := by
  by_cases h : p.components = []
  · have hroot : p = root := CanonicalPath.ext h
    rw [string, if_pos h, resolve_slash, hroot]
    decide
  · obtain ⟨t, hstring, hsplit⟩ := string_splitOn h
    rw [hstring, resolve_slash, hsplit]
    apply CanonicalPath.ext
    rw [follow_components p.plain]
    rfl

/-- A canonical path is determined by its string. -/
theorem string_injective : Function.Injective string := by
  intro p q h
  rw [← resolve_string root p, h, resolve_string]

/-- Behind the first `/` of a canonical path there is no second one. -/
theorem string_eq_slash_cons (p : CanonicalPath) :
    ∃ t, p.string = slash :: t ∧ t.head? ≠ some slash := by
  rw [string]
  split
  · exact ⟨[], rfl, by simp⟩
  · next h =>
    obtain ⟨name, names, hcons⟩ := List.exists_cons_of_ne_nil h
    have hname := p.plain name (by simp [hcons])
    obtain ⟨c, name, rfl⟩ := List.exists_cons_of_ne_nil hname.1
    refine ⟨_, by rw [hcons, join_cons], ?_⟩
    have hc := hname.2.1
    rw [List.mem_cons, not_or] at hc
    simpa using Ne.symm hc.1

/-- A canonical path is a C string. -/
theorem zero_notMem_string (p : CanonicalPath) : 0 ∉ p.string := by
  rw [string]
  split
  · decide
  · rw [join, List.mem_flatMap]
    rintro ⟨name, hmem, h⟩
    rw [List.mem_cons] at h
    obtain h | h := h
    · exact absurd h (by decide)
    · exact (p.plain name hmem).2.2.1 h

end CanonicalPath

end VfsRedirector.Library
