import Mathlib.Data.List.Pairwise
import Mathlib.Data.List.Infix
import Mathlib.Tactic.Tauto
import VfsRedirector.Library.PathName

/-!
# A file namespace

A finite map from canonical paths to files in which every file has one path, so
that it can be read in both directions: `find` is the file at a path, `pathOf`
the path of a file. Files can be added at paths that are free, and a path can be
renamed with everything below it; what was at the target is removed.

Where a rename takes a path is `moved`, and a renamed namespace has its files
where it takes theirs (`find_rename`).

## Results

* `find_add`, `find_rename` — what is found after an addition, and after a rename.
* `rename_eq_none_iff` — when a rename cannot be.
* `rename_back` — when a rename is undone by another.
-/

namespace VfsRedirector.Library

namespace CanonicalPath

variable {f t p q : CanonicalPath}

/-- `p` is `f` or below it. -/
def Under (f p : CanonicalPath) : Prop := f.components <+: p.components

instance : Decidable (Under f p) := inferInstanceAs (Decidable (_ <+: _))

/-- What is at `p`, at or below `f`, when `f` becomes `t`. -/
def rebase (f t p : CanonicalPath) : CanonicalPath :=
  ⟨t.components ++ p.components.drop f.components.length, fun c hc => by
    obtain hc | hc := List.mem_append.mp hc
    · exact t.plain c hc
    · exact p.plain c (List.mem_of_mem_drop hc)⟩

/-- Where renaming `f` to `t` takes `p`; a path that is replaced goes nowhere. -/
def moved (f t p : CanonicalPath) : Option CanonicalPath :=
  if f = t then some p
  else if Under f p then some (rebase f t p)
  else if p = t then none
  else some p

/-- Renaming `f` to `t` leaves `p` where it is. -/
def Apart (f t p : CanonicalPath) : Prop := ¬Under f p ∧ p ≠ t

instance : Decidable (Apart f t p) := inferInstanceAs (Decidable (_ ∧ _))

theorem under_refl (p : CanonicalPath) : Under p p := List.prefix_rfl

theorem rebase_self (f t : CanonicalPath) : rebase f t f = t := by
  apply CanonicalPath.ext
  simp [rebase]

/-- A rename takes what is below its source to what is below the target. -/
theorem under_rebase : Under t (rebase f t p) := List.prefix_append _ _

/-- Two paths below the source stay apart. -/
theorem rebase_injective (hp : Under f p) (hq : Under f q) (h : rebase f t p = rebase f t q) :
    p = q := by
  obtain ⟨a, ha⟩ := hp
  obtain ⟨b, hb⟩ := hq
  have hcomponents := congrArg components h
  simp only [rebase, ← ha, ← hb, List.drop_left, List.append_cancel_left_eq] at hcomponents
  apply CanonicalPath.ext
  rw [← ha, ← hb, hcomponents]

theorem moved_self (f t : CanonicalPath) : moved f t f = some t := by
  rw [moved]
  split
  · next h => rw [h]
  · rw [if_pos (under_refl f), rebase_self]

/-- What is apart from both stays. -/
theorem moved_of_apart (h : Apart f t p) : moved f t p = some p := by
  rw [moved, if_neg h.1, if_neg h.2, ite_self]

/-- What was at the target is replaced. -/
theorem moved_target (hne : f ≠ t) (h : ¬Under f t) : moved f t t = none := by
  rw [moved, if_neg hne, if_neg h, if_pos rfl]

end CanonicalPath

open CanonicalPath

/-- Files at canonical paths. -/
structure Namespace (File : Type) where
  entries : List (CanonicalPath × File)
  /-- No path has two files and no file two paths. -/
  distinct : entries.Pairwise fun a b => a.1 ≠ b.1 ∧ a.2 ≠ b.2

namespace Namespace

variable {File : Type} {n n' : Namespace File} {a b : CanonicalPath × File}
  {f t p q : CanonicalPath} {v w : File}

def find (n : Namespace File) (p : CanonicalPath) : Option File :=
  (n.entries.find? fun e => e.1 = p).map Prod.snd

def pathOf [DecidableEq File] (n : Namespace File) (v : File) : Option CanonicalPath :=
  (n.entries.find? fun e => e.2 = v).map Prod.fst

/-- Neither the path nor the file is there. -/
def Free (n : Namespace File) (p : CanonicalPath) (v : File) : Prop :=
  ∀ e ∈ n.entries, p ≠ e.1 ∧ v ≠ e.2

instance [DecidableEq File] : Decidable (n.Free p v) := inferInstanceAs (Decidable (∀ _ ∈ _, _))

/-- A new file. -/
def add [DecidableEq File] (n : Namespace File) (p : CanonicalPath) (v : File) : Namespace File :=
  if h : n.Free p v then ⟨(p, v) :: n.entries, List.pairwise_cons.mpr ⟨h, n.distinct⟩⟩ else n

/-- A rename finds its source, does not go below itself and does not replace what
has something below it. -/
def CanRename (n : Namespace File) (f t : CanonicalPath) : Prop :=
  (∃ e ∈ n.entries, e.1 = f) ∧
    (f = t ∨ (¬Under f t ∧ ∀ e ∈ n.entries, Under t e.1 → e.1 = t))

instance : Decidable (n.CanRename f t) :=
  inferInstanceAs (Decidable ((∃ _ ∈ _, _) ∧ (_ ∨ (_ ∧ ∀ _ ∈ _, _))))

/-- Renaming does not let two paths meet. -/
theorem moved_injective (h : n.CanRename f t) (ha : a ∈ n.entries) (hb : b ∈ n.entries)
    (hp : moved f t a.1 = some q) (hq : moved f t b.1 = some q) : a.1 = b.1 := by
  rw [moved] at hp hq
  obtain ⟨-, rfl | ⟨-, hbelow⟩⟩ := h
  · rw [if_pos rfl, Option.some.injEq] at hp hq
    rw [hp, hq]
  · by_cases hft : f = t
    · rw [if_pos hft, Option.some.injEq] at hp hq
      rw [hp, hq]
    rw [if_neg hft] at hp hq
    by_cases hua : Under f a.1 <;> by_cases hub : Under f b.1
    · rw [if_pos hua, Option.some.injEq] at hp
      rw [if_pos hub, Option.some.injEq] at hq
      exact rebase_injective hua hub (hp.trans hq.symm)
    -- one path moves below the target, where the other one cannot be
    · rw [if_pos hua, Option.some.injEq] at hp
      rw [if_neg hub] at hq
      split at hq
      · cases hq
      · next hbt =>
        rw [Option.some.injEq] at hq
        exact absurd (hbelow b hb (by rw [hq, ← hp]; exact under_rebase)) hbt
    · rw [if_pos hub, Option.some.injEq] at hq
      rw [if_neg hua] at hp
      split at hp
      · cases hp
      · next hat =>
        rw [Option.some.injEq] at hp
        exact absurd (hbelow a ha (by rw [hp, ← hq]; exact under_rebase)) hat
    · rw [if_neg hua] at hp
      rw [if_neg hub] at hq
      split at hp <;> split at hq <;> simp_all

def rename (n : Namespace File) (f t : CanonicalPath) : Option (Namespace File) :=
  if h : n.CanRename f t then
    some ⟨n.entries.filterMap fun e => (moved f t e.1).map (·, e.2), by
      rw [List.pairwise_filterMap]
      refine n.distinct.imp_of_mem ?_
      intro a b ha hb hab x hx y hy
      rw [Option.map_eq_some_iff] at hx hy
      obtain ⟨p, hp, rfl⟩ := hx
      obtain ⟨q, hq, rfl⟩ := hy
      refine ⟨?_, hab.2⟩
      rintro rfl
      exact hab.1 (moved_injective h ha hb hp hq)⟩
  else none

-- ---------------------------------------------------------------------------
-- What is where
-- ---------------------------------------------------------------------------

/-- Two entries for one path, or of one file, are the same. -/
theorem entry_eq (ha : a ∈ n.entries) (hb : b ∈ n.entries) (h : a.1 = b.1 ∨ a.2 = b.2) : a = b := by
  have : Std.Symm fun a b : CanonicalPath × File => a.1 ≠ b.1 ∧ a.2 ≠ b.2 :=
    ⟨fun _ _ h => ⟨h.1.symm, h.2.symm⟩⟩
  by_contra hne
  obtain ⟨hpath, hfile⟩ := n.distinct.forall ha hb hne
  obtain h | h := h
  · exact hpath h
  · exact hfile h

/-- The file at a path is that of its entry. -/
theorem find_eq_some_iff : n.find p = some v ↔ (p, v) ∈ n.entries := by
  rw [find, Option.map_eq_some_iff]
  constructor
  · rintro ⟨e, he, rfl⟩
    have hpath := List.find?_some he
    rw [decide_eq_true_eq] at hpath
    rw [← hpath]
    exact List.mem_of_find?_eq_some he
  · intro hmem
    obtain ⟨e, he⟩ : ∃ e, (n.entries.find? fun e => e.1 = p) = some e := by
      rw [← Option.isSome_iff_exists, List.find?_isSome]
      exact ⟨(p, v), hmem, by simp⟩
    have hpath := List.find?_some he
    rw [decide_eq_true_eq] at hpath
    exact ⟨e, he, by rw [entry_eq (List.mem_of_find?_eq_some he) hmem (.inl hpath)]⟩

/-- The path of a file is where it is found. -/
theorem pathOf_eq_some_iff [DecidableEq File] : n.pathOf v = some p ↔ n.find p = some v := by
  rw [find_eq_some_iff, pathOf, Option.map_eq_some_iff]
  constructor
  · rintro ⟨e, he, rfl⟩
    have hfile := List.find?_some he
    rw [decide_eq_true_eq] at hfile
    rw [← hfile]
    exact List.mem_of_find?_eq_some he
  · intro hmem
    obtain ⟨e, he⟩ : ∃ e, (n.entries.find? fun e => e.2 = v) = some e := by
      rw [← Option.isSome_iff_exists, List.find?_isSome]
      exact ⟨(p, v), hmem, by simp⟩
    have hfile := List.find?_some he
    rw [decide_eq_true_eq] at hfile
    exact ⟨e, he, by rw [entry_eq (List.mem_of_find?_eq_some he) hmem (.inr hfile)]⟩

/-- A file is at one path. -/
theorem find_injective (hp : n.find p = some v) (hq : n.find q = some v) : p = q := by
  rw [find_eq_some_iff] at hp hq
  exact congrArg Prod.fst (entry_eq hp hq (.inr rfl))

/-- A path and a file are free if there is no file at the path and no path of the file. -/
theorem free_iff : n.Free p v ↔ n.find p = none ∧ ∀ q, n.find q ≠ some v := by
  constructor
  · intro h
    constructor
    · rw [Option.eq_none_iff_forall_not_mem]
      intro w hw
      exact (h _ (find_eq_some_iff.mp hw)).1 rfl
    · intro q hq
      exact (h _ (find_eq_some_iff.mp hq)).2 rfl
  · rintro ⟨hp, hv⟩ e he
    constructor
    · rintro rfl
      rw [(find_eq_some_iff (v := e.2)).mpr he] at hp
      cases hp
    · rintro rfl
      exact hv e.1 (find_eq_some_iff.mpr he)

/-- After an addition there is the new file and what was there before. -/
theorem find_add [DecidableEq File] (h : n.Free p v) :
    (n.add p v).find q = some w ↔ (q = p ∧ w = v) ∨ n.find q = some w := by
  rw [find_eq_some_iff, find_eq_some_iff, add, dif_pos h]
  simp

-- ---------------------------------------------------------------------------
-- Renaming
-- ---------------------------------------------------------------------------

/-- A rename fails just if it cannot be. -/
theorem rename_eq_none_iff : n.rename f t = none ↔ ¬n.CanRename f t := by
  rw [rename]
  split <;> simp_all

/-- A rename that was done was possible. -/
theorem canRename_of_rename (h : n.rename f t = some n') : n.CanRename f t := by
  by_contra hnot
  rw [rename_eq_none_iff.mpr hnot] at h
  cases h

/-- The files of a renamed namespace are where the rename takes them. -/
theorem find_rename (h : n.rename f t = some n') :
    n'.find q = some v ↔ ∃ p, n.find p = some v ∧ moved f t p = some q := by
  rw [rename, dif_pos (canRename_of_rename h), Option.some.injEq] at h
  rw [find_eq_some_iff, ← h]
  simp only [List.mem_filterMap, Option.map_eq_some_iff, find_eq_some_iff, Prod.mk.injEq,
    Prod.exists]
  constructor
  · rintro ⟨p, u, hmem, r, hr, rfl, rfl⟩
    exact ⟨p, hmem, hr⟩
  · rintro ⟨p, hmem, hr⟩
    exact ⟨p, v, hmem, q, hr, rfl, rfl⟩

-- ---------------------------------------------------------------------------
-- Renames that change nothing
-- ---------------------------------------------------------------------------

/-- A rename that was done had a file at its source. -/
theorem find_source (h : n.rename f t = some n') : ∃ v, n.find f = some v := by
  obtain ⟨⟨e, he, rfl⟩, -⟩ := canRename_of_rename h
  exact ⟨e.2, find_eq_some_iff.mpr he⟩

/-- A rename to the same path changes nothing. -/
theorem rename_same (h : n.rename f f = some n') : n' = n := by
  rw [rename, dif_pos (canRename_of_rename h), Option.some.injEq] at h
  obtain ⟨entries, distinct⟩ := n
  rw [← h, mk.injEq]
  have hsame : (fun e : CanonicalPath × File => (moved f f e.1).map (·, e.2)) = some :=
    funext fun e => by rw [moved, if_pos rfl, Option.map_some]
  rw [hsame, List.filterMap_some]

/-- A rename changes nothing only if it is to the same path. -/
theorem rename_eq_self_iff (h : n.rename f t = some n') : n' = n ↔ f = t := by
  constructor
  · rintro rfl
    obtain ⟨v, hv⟩ := find_source h
    exact find_injective hv ((find_rename h).mpr ⟨f, hv, moved_self f t⟩)
  · rintro rfl
    exact rename_same h

/-- A rename that takes back another one undoes it for the paths above the two, by the
same names. -/
theorem rename_back {s u : CanonicalPath} (h : n.rename f t = some n')
    (hback : n'.rename s u = some n) (hne : f ≠ t) : ∃ names, t.components = s.components ++ names ∧
      f.components = u.components ++ names := by
  obtain ⟨v, hv⟩ := find_source h
  have ht : n'.find t = some v := (find_rename h).mpr ⟨f, hv, moved_self f t⟩
  obtain ⟨p, hp, hmoved⟩ := (find_rename hback).mp hv
  obtain rfl := find_injective ht hp
  rw [moved] at hmoved
  split at hmoved
  · exact absurd (Option.some.inj hmoved).symm hne
  · split at hmoved
    · next hunder =>
      obtain ⟨names, hnames⟩ := hunder
      refine ⟨names, hnames.symm, ?_⟩
      rw [← Option.some.inj hmoved]
      show u.components ++ t.components.drop s.components.length = u.components ++ names
      rw [← hnames, List.drop_left]
    · split at hmoved
      · exact absurd hmoved.symm (Option.some_ne_none f)
      · exact absurd (Option.some.inj hmoved).symm hne

end Namespace

end VfsRedirector.Library
