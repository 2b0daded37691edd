import Mathlib.Data.List.Count
import Mathlib.Data.List.Nodup
import Mathlib.Logic.Function.Basic

/-!
# Allocations that are freed once

An address can be allocated again after it was freed, so the allocations are numbered:
`serial a` is the number of the one that `a` is from, and `freed i` is how often the
`i`-th was freed. To free what is not allocated is an error.

`Owns m blocks` says that `blocks` are the addresses that are allocated, and that every
allocation so far is either one of them or was freed, once. The rules are those of a
program that allocates a block (`Owns.alloc`) and frees one that it has (`Owns.free`).

## Results

* `Owns.alloc`, `Owns.free` — one block more, and one less.
* `Owns.once` — each allocation was freed once, or is still there.
-/

namespace VfsRedirector.Library

structure Allocations (Addr : Type) where
  live : List Addr
  made : Nat
  serial : Addr → Nat
  freed : Nat → Nat

namespace Allocations

variable {Addr : Type}

/-- No allocation so far. -/
def start (serial : Addr → Nat) : Allocations Addr := ⟨[], 0, serial, fun _ => 0⟩

/-- An allocation is freed once, or its block is one of `blocks`. -/
structure Owns (m : Allocations Addr) (blocks : List Addr) : Prop where
  live : m.live.Perm blocks
  account : ∀ i, m.freed i + (blocks.map m.serial).count i = if i < m.made then 1 else 0

variable {m : Allocations Addr} {blocks l r : List Addr} {a : Addr}

/-- At first nothing is allocated. -/
theorem owns_start (serial : Addr → Nat) : (start serial).Owns [] :=
  ⟨List.Perm.nil, fun _ => rfl⟩

/-- No block is allocated twice. -/
theorem Owns.nodup (h : m.Owns blocks) : blocks.Nodup := by
  refine List.Nodup.of_map m.serial (List.nodup_iff_count_le_one.mpr fun i => ?_)
  have hi := h.account i
  split at hi <;> omega

/-- The account in words. -/
theorem Owns.once (h : m.Owns blocks) {i : Nat} (hi : i < m.made) :
    (m.freed i = 0 ∧ ∃ a ∈ blocks, m.serial a = i) ∨
      (m.freed i = 1 ∧ ∀ a ∈ blocks, m.serial a ≠ i) := by
  have haccount := h.account i
  rw [if_pos hi] at haccount
  by_cases hmem : i ∈ blocks.map m.serial
  · have hpos := List.count_pos_iff.mpr hmem
    exact .inl ⟨by omega, List.mem_map.mp hmem⟩
  · have hzero := List.count_eq_zero.mpr hmem
    exact .inr ⟨by omega, fun a ha heq => hmem (List.mem_map.mpr ⟨a, ha, heq⟩)⟩

variable [DecidableEq Addr]

def alloc (m : Allocations Addr) (a : Addr) : Allocations Addr :=
  { m with live := a :: m.live, made := m.made + 1, serial := Function.update m.serial a m.made }

def free (m : Allocations Addr) (a : Addr) : Option (Allocations Addr) :=
  if a ∈ m.live then
    some { m with
      live := m.live.erase a
      freed := Function.update m.freed (m.serial a) (m.freed (m.serial a) + 1) }
  else none

/-- A new block is one more. -/
theorem Owns.alloc (h : m.Owns blocks) (ha : a ∉ blocks) : (m.alloc a).Owns (a :: blocks) := by
  refine ⟨h.live.cons a, fun i => ?_⟩
  have hsame : blocks.map (Function.update m.serial a m.made) = blocks.map m.serial :=
    List.map_congr_left fun b hb => Function.update_of_ne (ne_of_mem_of_not_mem hb ha) _ _
  have hi := h.account i
  show m.freed i + ((a :: blocks).map (Function.update m.serial a m.made)).count i =
    if i < m.made + 1 then 1 else 0
  rw [List.map_cons, Function.update_self, hsame, List.count_cons]
  by_cases heq : m.made = i
  · subst heq
    simp only [Nat.lt_irrefl, if_false] at hi
    simp
    omega
  · have hlt : i < m.made + 1 ↔ i < m.made := by omega
    simp only [hlt, beq_iff_eq, heq, if_false]
    exact hi

/-- A block that is allocated can be freed, and is one less. -/
theorem Owns.free (h : m.Owns (l ++ a :: r)) : ∃ m', m.free a = some m' ∧ m'.Owns (l ++ r) := by
  have hmem : a ∈ m.live := h.live.mem_iff.mpr (by simp)
  have hnot : a ∉ l := by
    have hnodup := h.nodup
    rw [List.nodup_middle, List.nodup_cons, List.mem_append, not_or] at hnodup
    exact hnodup.1.1
  refine ⟨_, if_pos hmem, ?_, fun i => ?_⟩
  · have herase : (l ++ a :: r).erase a = l ++ r := by
      rw [List.erase_append_right _ hnot, List.erase_cons_head]
    rw [← herase]
    exact h.live.erase a
  · have hi := h.account i
    show Function.update m.freed (m.serial a) (m.freed (m.serial a) + 1) i +
      ((l ++ r).map m.serial).count i = if i < m.made then 1 else 0
    rw [← hi]
    simp only [List.map_append, List.map_cons, List.count_append, List.count_cons, beq_iff_eq]
    by_cases heq : m.serial a = i
    · subst heq
      rw [Function.update_self]
      simp
      omega
    · rw [Function.update_of_ne (Ne.symm heq), if_neg heq]
      omega

end Allocations

end VfsRedirector.Library
