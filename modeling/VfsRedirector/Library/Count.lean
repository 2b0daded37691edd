import Mathlib.Data.Finset.Card
import Mathlib.Data.Finset.Insert
import Mathlib.Data.Finset.Sum
import Mathlib.Logic.Function.Basic
import Mathlib.Tactic.Ring

/-!
# Counting the members of a predicate

`HasCard p n` says that exactly `n` indices satisfy `p`. It is stated with an
explicit finite set, so that the index type may be infinite (any number of
threads may exist, of which finitely many have started), and the count is an
integer, so that a counter that went below zero would be a failure and not a
truncation.

The rules follow what one atomic step of one thread can do to such a count:
nothing (`HasCard.congr`), let one index in (`HasCard.enter`), or let one out
(`HasCard.leave`).

## Results

* `enter`, `leave` — one index more, and one less.
* `acquire`, `drop` — a key gets a value, and loses it.
-/

namespace VfsRedirector.Library

variable {ι : Type} {p q : ι → Prop} {n : Int} {i : ι}

/-- Exactly `n` indices satisfy `p`. -/
def HasCard (p : ι → Prop) (n : Int) : Prop :=
  ∃ S : Finset ι, (∀ i, i ∈ S ↔ p i) ∧ (S.card : Int) = n

namespace HasCard

theorem zero (h : ∀ i, ¬ p i) : HasCard p 0 :=
  ⟨∅, fun i => by simp [h i], by simp⟩

theorem congr (h : HasCard p n) (hpq : ∀ i, q i ↔ p i) : HasCard q n := by
  obtain ⟨S, hS, hn⟩ := h
  exact ⟨S, fun i => by rw [hS, hpq], hn⟩

/-- A count is not negative. -/
theorem nonneg (h : HasCard p n) : 0 ≤ n := by
  obtain ⟨S, -, hn⟩ := h
  omega

/-- The count vanishes exactly when nothing is counted. -/
theorem eq_zero_iff (h : HasCard p n) : n = 0 ↔ ∀ i, ¬ p i := by
  obtain ⟨S, hS, hn⟩ := h
  constructor
  · intro h0 i hi
    have hcard : S.card = 0 := by omega
    rw [Finset.card_eq_zero] at hcard
    simpa [hcard] using (hS i).mpr hi
  · intro hnone
    have hempty : S = ∅ := Finset.eq_empty_of_forall_notMem fun i hi => hnone i ((hS i).mp hi)
    rw [← hn, hempty]
    rfl

/-- A property that something has has a positive count. -/
theorem pos (h : HasCard p n) (hi : p i) : 0 < n := by
  have h0 := h.nonneg
  have hne : n ≠ 0 := fun hz => (h.eq_zero_iff.mp hz) i hi
  omega

/-- One index enters. -/
theorem enter (h : HasCard p n) (hi : ¬ p i) (hq : ∀ j, q j ↔ j = i ∨ p j) :
    HasCard q (n + 1) := by
  classical
  obtain ⟨S, hS, hn⟩ := h
  have hiS : i ∉ S := fun hmem => hi ((hS i).mp hmem)
  refine ⟨insert i S, fun j => ?_, ?_⟩
  · rw [Finset.mem_insert, hS, hq]
  · rw [Finset.card_insert_of_notMem hiS]
    push_cast
    omega

/-- One index leaves. -/
theorem leave (h : HasCard p n) (hi : p i) (hq : ∀ j, q j ↔ j ≠ i ∧ p j) :
    HasCard q (n - 1) := by
  classical
  obtain ⟨S, hS, hn⟩ := h
  have hiS : i ∈ S := (hS i).mpr hi
  refine ⟨S.erase i, fun j => ?_, ?_⟩
  · rw [Finset.mem_erase, hS, hq]
  · have hpos : 0 < S.card := Finset.card_pos.mpr ⟨i, hiS⟩
    rw [Finset.card_erase_of_mem hiS]
    omega

/-- A property has one count. -/
theorem unique {m : Int} (h : HasCard p n) (h' : HasCard p m) : n = m := by
  obtain ⟨S, hS, hn⟩ := h
  obtain ⟨T, hT, hm⟩ := h'
  have heq : S = T := Finset.ext fun i => by rw [hS, hT]
  rw [← hn, ← hm, heq]

/-- In a sum of which one side has no members, the other side has them all. -/
theorem left {κ : Type} {p : ι ⊕ κ → Prop} (h : HasCard p n) (hnone : ∀ j, ¬ p (.inr j)) :
    HasCard (fun i => p (.inl i)) n := by
  obtain ⟨S, hS, hn⟩ := h
  have hright : S.toRight = ∅ := by
    refine Finset.eq_empty_of_forall_notMem fun j hj => hnone j ?_
    rwa [← hS, ← Finset.mem_toRight]
  refine ⟨S.toLeft, fun i => ?_, ?_⟩
  · rw [Finset.mem_toLeft, hS]
  · rw [← hn, ← Finset.card_toLeft_add_card_toRight (u := S), hright, Finset.card_empty, add_zero]

/-! ### Counting the threads of a program

`f i` is the program point of thread `i`, and a step moves one thread. -/

section Update

variable {κ : Type} [DecidableEq ι] {f : ι → κ} {P : κ → Prop} {x : κ}

/-- A change that does not matter to the property leaves its count. -/
theorem update_same (h : HasCard (fun j => P (f j)) n) (hx : P x ↔ P (f i)) :
    HasCard (fun j => P (Function.update f i x j)) n := by
  refine h.congr fun j => ?_
  by_cases hj : j = i
  · subst hj
    rw [Function.update_self, hx]
  · rw [Function.update_of_ne hj]

/-- A change by which one thing comes to have the property adds one to its count. -/
theorem update_enter (h : HasCard (fun j => P (f j)) n) (hi : ¬ P (f i)) (hx : P x) :
    HasCard (fun j => P (Function.update f i x j)) (n + 1) := by
  refine h.enter hi fun j => ?_
  by_cases hj : j = i
  · subst hj
    simp [hx]
  · simp [hj]

/-- A change by which one thing loses the property takes one from its count. -/
theorem update_leave (h : HasCard (fun j => P (f j)) n) (hi : P (f i)) (hx : ¬ P x) :
    HasCard (fun j => P (Function.update f i x j)) (n - 1) := by
  refine h.leave hi fun j => ?_
  by_cases hj : j = i
  · subst hj
    simp [hx]
  · simp [hj]

end Update

/-! ### Reference counts

`f i` is what `i` refers to, and `m x` counts the references to `x`. -/

section References

variable {κ : Type} [DecidableEq ι] [DecidableEq κ] {f : ι → Option κ} {m : κ → Int} {x : κ}

/-- A key that gets a value adds one to the count of the value. -/
theorem acquire (h : ∀ y, HasCard (fun j => f j = some y) (m y)) (hi : f i = none) (y : κ) :
    HasCard (fun j => Function.update f i (some x) j = some y)
      (Function.update m x (m x + 1) y) := by
  rcases eq_or_ne y x with rfl | hy
  · rw [Function.update_self]
    have hne : f i ≠ some y := by
      rw [hi]
      exact (Option.some_ne_none y).symm
    exact update_enter (P := fun r => r = some y) (h y) hne rfl
  · rw [Function.update_of_ne hy]
    refine update_same (P := fun r => r = some y) (h y) ?_
    rw [hi]
    simpa using hy.symm

/-- A key that loses its value takes one from the count of the value. -/
theorem drop (h : ∀ y, HasCard (fun j => f j = some y) (m y)) (hi : f i = some x) (y : κ) :
    HasCard (fun j => Function.update f i none j = some y)
      (Function.update m x (m x - 1) y) := by
  rcases eq_or_ne y x with rfl | hy
  · rw [Function.update_self]
    exact update_leave (P := fun r => r = some y) (h y) hi (by simp)
  · rw [Function.update_of_ne hy]
    refine update_same (P := fun r => r = some y) (h y) ?_
    rw [hi]
    simpa using hy.symm

/-- A reference to `x`, or none, as a number. -/
def one (r : Option κ) (x : κ) : Int := if r = some x then 1 else 0

@[simp] theorem one_none (x : κ) : one none x = 0 := rfl

/-- What `i` refers to is replaced. -/
theorem set (h : HasCard (fun j => f j = some x) n) (i : ι) (r : Option κ) :
    HasCard (fun j => Function.update f i r j = some x) (n - one (f i) x + one r x) := by
  by_cases hold : f i = some x
  · by_cases hnew : r = some x
    · rw [one, one, if_pos hold, if_pos hnew, sub_add_cancel]
      exact update_same (P := fun r => r = some x) h (iff_of_true hnew hold)
    · rw [one, one, if_pos hold, if_neg hnew, add_zero]
      exact update_leave (P := fun r => r = some x) h hold hnew
  · by_cases hnew : r = some x
    · rw [one, one, if_neg hold, if_pos hnew, sub_zero]
      exact update_enter (P := fun r => r = some x) h hold hnew
    · rw [one, one, if_neg hold, if_neg hnew, sub_zero, add_zero]
      exact update_same (P := fun r => r = some x) h (iff_of_false hnew hold)

end References

end HasCard

/-- A fact about some thread after a step of thread `i` held of it before, if
it is not the step that made it true. -/
theorem of_update {κ : Type} [DecidableEq ι] {f : ι → κ} {P : κ → Prop} {x : κ} {i j : ι}
    (h : P (Function.update f i x j)) (hx : P x → P (f i)) : P (f j) := by
  by_cases hj : j = i
  · subst hj
    rw [Function.update_self] at h
    exact hx h
  · rwa [Function.update_of_ne hj] at h

end VfsRedirector.Library
