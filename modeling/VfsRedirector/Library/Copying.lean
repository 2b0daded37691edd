import Mathlib.Data.Option.Basic
import Mathlib.Algebra.Order.Ring.Nat

/-!
# Copies between scattered ranges

A range is a sequence of places in a memory, some of which may be missing, such as the
physical bytes behind a range of virtual addresses. `Copied src dst m₀ n m` says that
`m` is `m₀` with the first `n` places of `dst` holding what the first `n` places of
`src` held in `m₀`.

A copy can be made in parts (`Copied.chunk`): what is copied later is what was there
from the start, as long as no part of `dst` lies over `src` or over another part of it.

## Results

* `Copied.chunk` — the next places, on top of those that were copied.
-/

namespace VfsRedirector.Library

variable {Addr Byte : Type}

structure Copied (src dst : Nat → Option Addr) (m₀ : Addr → Byte) (n : Nat) (m : Addr → Byte) :
    Prop where
  bytes : ∀ i < n, ∃ a b, src i = some a ∧ dst i = some b ∧ m b = m₀ a
  frame : ∀ b, (∀ i < n, dst i ≠ some b) → m b = m₀ b

/-- No place of `dst` is one of `src`, among the first `n` of both. -/
def Apart (src dst : Nat → Option Addr) (n : Nat) : Prop :=
  ∀ i < n, ∀ j < n, src i ≠ none → src i ≠ dst j

/-- No place is twice among the first `n`. -/
def Distinct (dst : Nat → Option Addr) (n : Nat) : Prop :=
  ∀ i < n, ∀ j < n, dst i ≠ none → dst i = dst j → i = j

variable {src dst src' dst' : Nat → Option Addr} {m₀ m m' : Addr → Byte} {n cnt len : Nat}

theorem copied_zero : Copied src dst m₀ 0 m₀ :=
  ⟨fun i hi => absurd hi (Nat.not_lt_zero i), fun _ _ => rfl⟩

/-- The places that are not among the first do not matter. -/
theorem Copied.congr (h : Copied src dst m₀ n m) (hsrc : ∀ i < n, src' i = src i)
    (hdst : ∀ i < n, dst' i = dst i) : Copied src' dst' m₀ n m := by
  refine ⟨fun i hi => ?_, fun b hb => h.frame b fun i hi => ?_⟩
  · rw [hsrc i hi, hdst i hi]
    exact h.bytes i hi
  · rw [← hdst i hi]
    exact hb i hi

theorem Apart.congr (h : Apart src dst n) (hsrc : ∀ i < n, src' i = src i)
    (hdst : ∀ i < n, dst' i = dst i) : Apart src' dst' n := by
  intro i hi j hj
  rw [hsrc i hi, hdst j hj]
  exact h i hi j hj

/-- A part of two ranges that are apart. -/
theorem Apart.part (h : Apart src dst (n + cnt)) :
    Apart (fun i => src (n + i)) (fun i => dst (n + i)) cnt :=
  fun i hi j hj => h (n + i) (by omega) (n + j) (by omega)

theorem Distinct.mono (h : Distinct dst len) (hle : n ≤ len) : Distinct dst n :=
  fun i hi j hj => h i (by omega) j (by omega)

theorem Apart.mono (h : Apart src dst len) (hle : n ≤ len) : Apart src dst n :=
  fun i hi j hj => h i (by omega) j (by omega)

/-- The next `cnt` places are copied on top of the first `n`. -/
theorem Copied.chunk (h : Copied src dst m₀ n m)
    (hchunk : Copied (fun i => src (n + i)) (fun i => dst (n + i)) m cnt m')
    (hapart : Apart src dst (n + cnt)) (hdistinct : Distinct dst (n + cnt)) :
    Copied src dst m₀ (n + cnt) m' := by
  refine ⟨fun i hi => ?_, fun b hb => ?_⟩
  · by_cases hin : i < n
    · -- copied before: the new part does not touch it
      obtain ⟨a, b, ha, hb, hcopied⟩ := h.bytes i hin
      refine ⟨a, b, ha, hb, ?_⟩
      rw [hchunk.frame b, hcopied]
      intro j hj hbj
      have hij := hdistinct i hi (n + j) (by omega) (by simp [hb]) (hb.trans hbj.symm)
      omega
    · -- copied now: the source is what it was at first
      obtain ⟨j, rfl⟩ := Nat.exists_eq_add_of_le (Nat.le_of_not_lt hin)
      obtain ⟨a, b, ha, hb, hcopied⟩ := hchunk.bytes j (by omega)
      refine ⟨a, b, ha, hb, ?_⟩
      rw [hcopied, h.frame a]
      intro k hk hak
      exact hapart (n + j) hi k (by omega) (by simp [ha]) (ha.trans hak.symm)
  · rw [hchunk.frame b fun i hi => hb (n + i) (by omega), h.frame b fun i hi => hb i (by omega)]

end VfsRedirector.Library
