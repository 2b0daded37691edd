import Mathlib.Data.List.Dedup

/-!
# The order of last use

`uses` are keys in the order in which they were used. A key is kept by `dedup` at its
last use, so that `uses.dedup` has the keys from the one whose last use is longest ago.
A list that a use brings to the front is in the opposite order (`ByRecency`), whatever
else is taken out of it: its last element is the one that was least recently used, which
is what `UsedSince` says of it and every other.

## Results

* `ByRecency.use_new`, `ByRecency.use_front`, `ByRecency.use_other` — a key is used.
* `ByRecency.usedSince` — the last key was used before all others.
-/

namespace VfsRedirector.Library

variable {Key : Type} {uses l l' : List Key} {j k : Key}

/-- `j` was used after the last use of `k`. -/
def UsedSince (uses : List Key) (k j : Key) : Prop :=
  ∃ before after, uses = before ++ k :: after ∧ k ∉ after ∧ j ∈ after

variable [DecidableEq Key]

/-- The most recently used first. -/
def ByRecency (uses l : List Key) : Prop := l.reverse.Sublist uses.dedup

theorem byRecency_nil : ByRecency uses [] := List.nil_sublist _

/-- What is left of a list is in the same order. -/
theorem ByRecency.sublist (h : ByRecency uses l) (hl : l'.Sublist l) : ByRecency uses l' :=
  hl.reverse.trans h

/-- A use puts the key at the end of those before it. -/
theorem dedup_concat (uses : List Key) (k : Key) :
    (uses ++ [k]).dedup = uses.dedup.erase k ++ [k] := by
  induction uses with
  | nil => rfl
  | cons a uses ih =>
    have hmem : a ∈ uses ++ [k] ↔ a ∈ uses ∨ a = k := by simp
    rw [List.cons_append]
    by_cases ha : a ∈ uses
    · rw [List.dedup_cons_of_mem (hmem.mpr (.inl ha)), List.dedup_cons_of_mem ha, ih]
    · rw [List.dedup_cons_of_notMem ha]
      by_cases hak : a = k
      · subst hak
        have hnot : a ∉ uses.dedup := fun h => ha (List.mem_dedup.mp h)
        rw [List.dedup_cons_of_mem (hmem.mpr (.inr rfl)), ih, List.erase_cons_head,
          List.erase_of_not_mem hnot]
      · have hnot : a ∉ uses ++ [k] := fun h => (hmem.mp h).elim ha hak
        rw [List.dedup_cons_of_notMem hnot, ih, List.erase_cons_tail (by simpa using hak)]
        rfl

/-- A list by recency has no key twice. -/
theorem ByRecency.nodup (h : ByRecency uses l) : l.Nodup :=
  List.nodup_reverse.mp (List.Sublist.nodup h (List.nodup_dedup uses))

/-- The use of a key that is not in the list puts it in front. -/
theorem ByRecency.use_new (h : ByRecency uses l) (hk : k ∉ l) :
    ByRecency (uses ++ [k]) (k :: l) := by
  rw [ByRecency, List.reverse_cons, dedup_concat]
  refine List.Sublist.append_right ?_ [k]
  have hkeep := List.Sublist.erase k h
  rw [List.erase_of_not_mem (fun hmem => hk (List.mem_reverse.mp hmem))] at hkeep
  exact hkeep

/-- The use of a key of another list. -/
theorem ByRecency.use_other (h : ByRecency uses l) (hk : k ∉ l) : ByRecency (uses ++ [k]) l :=
  (h.use_new hk).sublist (List.sublist_cons_self k l)

/-- The use of a key of the list puts it in front. -/
theorem ByRecency.use_front {r : List Key} (h : ByRecency uses (l ++ k :: r)) :
    ByRecency (uses ++ [k]) (k :: (l ++ r)) := by
  have hk : k ∉ l ++ r := (List.nodup_cons.mp (List.nodup_middle.mp h.nodup)).1
  have hrest : (l ++ r).Sublist (l ++ k :: r) :=
    List.Sublist.append_left (List.sublist_cons_self k r) l
  exact (h.sublist hrest).use_new hk

/-- The last of the list was used before all others. -/
theorem ByRecency.usedSince (h : ByRecency uses (l ++ [k])) (hj : j ∈ l) : UsedSince uses k j := by
  have hpair : [k, j].Sublist uses.dedup := by
    rw [ByRecency, List.reverse_concat] at h
    have hrest : [j].Sublist l.reverse := List.singleton_sublist.mpr (List.mem_reverse.mpr hj)
    exact (hrest.cons_cons k).trans h
  clear h hj
  induction uses with
  | nil => cases hpair
  | cons a uses ih =>
    by_cases ha : a ∈ uses
    · rw [List.dedup_cons_of_mem ha] at hpair
      obtain ⟨before, after, rfl, hk, hj⟩ := ih hpair
      exact ⟨a :: before, after, rfl, hk, hj⟩
    · rw [List.dedup_cons_of_notMem ha] at hpair
      rcases List.sublist_cons_iff.mp hpair with hrest | ⟨r, hr, hrest⟩
      · obtain ⟨before, after, rfl, hk, hj⟩ := ih hrest
        exact ⟨a :: before, after, rfl, hk, hj⟩
      · obtain ⟨rfl, rfl⟩ := List.cons.inj hr
        have hj := List.singleton_sublist.mp hrest
        exact ⟨[], uses, rfl, ha, List.mem_dedup.mp hj⟩

end VfsRedirector.Library
