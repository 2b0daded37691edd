import Mathlib.Data.List.Nodup
import Mathlib.Data.List.Infix

/-!
# An iteration over a list that changes

A cursor goes through a list of distinct elements from the front to the back, while elements
are added at the end and taken out anywhere. It knows what comes next before it is asked for
it: at the last element the iteration is over, and what is added then is not seen.

`Cursor` has what the iteration has yet to return, and for the record what it has returned
and which elements have been in the list ever since it began. `Cursor.On` is what holds of
these at any time: an element that stays is returned once, and in its place (`On.kept_order`,
`On.kept_once`).

## Results

* `On.advance`, `On.append`, `On.erase` — a cursor stays on its list, which changes.
* `On.count_kept` — what stays in the list is returned once.
-/

namespace VfsRedirector.Library

/-- An iteration: what it has yet to return, what it has returned, and what has been in the
list all the time. -/
structure Cursor (α : Type) where
  rest : List α
  returned : List α
  kept : List α
  deriving DecidableEq

namespace Cursor

variable {α : Type}

/-- The first element is returned at once. -/
def start (l : List α) : Cursor α := ⟨l.tail, l.take 1, l⟩

def advance (c : Cursor α) : Cursor α :=
  { c with rest := c.rest.tail, returned := c.returned ++ c.rest.take 1 }

/-- What an element that is added to the list is to the iteration. -/
def append (c : Cursor α) (a : α) : Cursor α :=
  { c with rest := if c.rest.isEmpty then [] else c.rest ++ [a] }

def erase [DecidableEq α] (c : Cursor α) (a : α) : Cursor α :=
  { c with rest := c.rest.erase a, kept := c.kept.erase a }

/-- An iteration over the list. -/
structure On [DecidableEq α] (c : Cursor α) (l : List α) : Prop where
  nodup : l.Nodup
  suffix : c.rest <:+ l
  kept_mem : c.kept.Sublist l
  kept_order : c.kept.Sublist (c.returned ++ c.rest)
  kept_once : ∀ a ∈ c.kept, (c.returned ++ c.rest).count a = 1

variable [DecidableEq α] {c : Cursor α} {l : List α} {a : α}

/-- A new cursor is on the list. -/
theorem on_start (hl : l.Nodup) : (start l).On l := by
  have hall : (start l).returned ++ (start l).rest = l := by
    cases l <;> rfl
  refine ⟨hl, List.tail_suffix l, List.Sublist.refl l, ?_, fun a ha => ?_⟩
  · rw [hall]
    exact List.Sublist.refl l
  · rw [hall]
    exact List.count_eq_one_of_mem hl ha

/-- A cursor stays on its list as it goes on. -/
theorem On.advance (h : c.On l) : c.advance.On l := by
  have hall : c.advance.returned ++ c.advance.rest = c.returned ++ c.rest := by
    rw [Cursor.advance, List.append_assoc]
    cases c.rest <;> rfl
  refine ⟨h.nodup, (List.tail_suffix c.rest).trans h.suffix, h.kept_mem, ?_, ?_⟩
  · rw [hall]
    exact h.kept_order
  · rw [hall]
    exact h.kept_once

/-- A cursor stays on its list when an element is added at the end. -/
theorem On.append (h : c.On l) (ha : a ∉ l) : (c.append a).On (l ++ [a]) := by
  have hnew : ∀ b ∈ c.kept, b ≠ a := fun b hb => ne_of_mem_of_not_mem (h.kept_mem.subset hb) ha
  have hsub : c.kept.Sublist (l ++ [a]) := h.kept_mem.trans (List.sublist_append_left l [a])
  refine ⟨List.nodup_append.mpr ⟨h.nodup, List.nodup_singleton a, ?_⟩, ?_, hsub, ?_, ?_⟩
  · intro x hx y hy
    rw [List.mem_singleton.mp hy]
    exact ne_of_mem_of_not_mem hx ha
  · rw [Cursor.append]
    -- an iteration that is at the last element stays there
    split_ifs with hrest
    · exact List.nil_suffix
    · obtain ⟨l', hl'⟩ := h.suffix
      exact ⟨l', by rw [← hl', List.append_assoc]⟩
  · refine h.kept_order.trans (List.Sublist.append_left ?_ c.returned)
    rw [Cursor.append]
    split_ifs with hrest
    · rw [List.isEmpty_iff.mp hrest]
    · exact List.sublist_append_left c.rest [a]
  · intro b hb
    have honce := h.kept_once b hb
    rw [List.count_append] at honce ⊢
    have hcount : (c.append a).rest.count b = c.rest.count b := by
      rw [Cursor.append]
      split_ifs with hrest
      · rw [List.isEmpty_iff.mp hrest]
      · rw [List.count_append, List.count_singleton, if_neg, Nat.add_zero]
        rw [beq_iff_eq]
        exact (hnew b hb).symm
    show c.returned.count b + _ = 1
    rw [hcount]
    exact honce

/-- An element is taken out, wherever the iteration is. -/
theorem On.erase (h : c.On l) (a : α) : (c.erase a).On (l.erase a) := by
  have hrest : c.rest.Nodup := h.nodup.sublist h.suffix.sublist
  have hkept : c.kept.Nodup := h.nodup.sublist h.kept_mem
  refine ⟨h.nodup.erase a, ?_, h.kept_mem.erase a, ?_, fun b hb => ?_⟩
  · show c.rest.erase a <:+ l.erase a
    rw [hrest.erase_eq_filter, h.nodup.erase_eq_filter]
    exact h.suffix.filter _
  · show (c.kept.erase a).Sublist (c.returned ++ c.rest.erase a)
    rw [hkept.erase_eq_filter, hrest.erase_eq_filter]
    refine (h.kept_order.filter _).trans ?_
    rw [List.filter_append]
    exact List.Sublist.append_right List.filter_sublist _
  · obtain ⟨hne, hb⟩ := hkept.mem_erase_iff.mp hb
    have honce := h.kept_once b hb
    rw [List.count_append] at honce ⊢
    show c.returned.count b + (c.rest.erase a).count b = 1
    rw [List.count_erase_of_ne hne]
    exact honce

/-- Elements may be counted with any equality test. -/
theorem On.count_kept [b : BEq α] [LawfulBEq α] (h : c.On l) (ha : a ∈ c.kept) :
    (c.returned ++ c.rest).count a = 1 := by
  rw [← h.kept_once a ha]
  refine List.countP_congr fun x _ => ?_
  rw [@beq_iff_eq α b, @beq_iff_eq α instBEqOfDecidableEq]

/-- In a list without duplicates it does not matter from where an element is looked for. -/
theorem reverse_erase (hl : l.Nodup) (a : α) : (l.erase a).reverse = l.reverse.erase a := by
  rw [hl.erase_eq_filter, (List.nodup_reverse.mpr hl).erase_eq_filter, List.filter_reverse]

omit [DecidableEq α] in
/-- What is added does not come next. -/
theorem head?_append (c : Cursor α) (a : α) : (c.append a).rest.head? = c.rest.head? := by
  rw [append]
  cases c.rest <;> rfl

/-- What is next stays next when another element goes. -/
theorem head?_erase (hne : c.rest.head? ≠ some a) : (c.erase a).rest.head? = c.rest.head? := by
  rw [erase]
  cases h : c.rest with
  | nil => rfl
  | cons b l =>
    rw [List.erase_cons_tail]
    · rfl
    · rw [beq_iff_eq]
      rintro rfl
      exact hne (by rw [h]; rfl)

end Cursor

end VfsRedirector.Library
