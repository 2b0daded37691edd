import Mathlib.Data.List.Nodup
import Mathlib.Logic.Function.Basic

/-!
# Doubly linked lists in a memory

A memory gives every node a successor and a predecessor, which may be absent.
`Seg next prev p l n` says that the nodes of `l` are linked one to the other in
both directions, that the first has the predecessor `p` and the last the successor
`n`; `Chain` is the case of a list that ends on both sides.

The rules say what becomes of a chain when pointers are written: `relink` is the
assignment to a field of a node that may be absent. A write to nodes outside of a
list does not matter to it (`seg_congr`), and the surgery for an insertion at
either end, for the removal of a node and for an exchange of neighbours is put
together from that and from writes at the ends of a segment.

## Results

* `seg_congr` — a list in a memory that is the same for its nodes.
* `Chain.push`, `Chain.snoc`, `Chain.remove` — a node is put in, or taken out.
* `Chain.transpose` — a node is put before its predecessor.
-/

namespace VfsRedirector.Library

variable {Addr : Type}

/-- The nodes of `l`, from the predecessor `p` to the successor `n`. -/
def Seg (next prev : Addr → Option Addr) : Option Addr → List Addr → Option Addr → Prop
  | _, [], _ => True
  | p, a :: l, n => prev a = p ∧ next a = l.head?.or n ∧ Seg next prev (some a) l n

/-- A whole list. -/
def Chain (next prev : Addr → Option Addr) (l : List Addr) : Prop := Seg next prev none l none

section Segments

variable {next prev next' prev' : Addr → Option Addr} {p n : Option Addr} {a : Addr}
  {l r : List Addr}

theorem seg_nil : Seg next prev p [] n := trivial

/-- A segment of one node has its two neighbours. -/
theorem seg_singleton : Seg next prev p [a] n ↔ prev a = p ∧ next a = n := by
  simp [Seg]

/-- Two segments meet in their neighbours. -/
theorem seg_append : Seg next prev p (l ++ r) n ↔
    Seg next prev p l (r.head?.or n) ∧ Seg next prev (l.getLast?.or p) r n := by
  induction l generalizing p with
  | nil => simp [Seg]
  | cons a l ih =>
    have hhead : (l ++ r).head?.or n = l.head?.or (r.head?.or n) := by
      cases l <;> simp
    have hlast : (a :: l).getLast?.or p = l.getLast?.or (some a) := by
      cases l with
      | nil => rfl
      | cons b l => rw [List.getLast?_cons_cons, List.getLast?_cons]; rfl
    simp only [List.cons_append, Seg, hhead, ih, hlast]
    tauto

/-- A list is what it was in a memory that has the same for its nodes. -/
theorem seg_congr (h : ∀ a ∈ l, next' a = next a ∧ prev' a = prev a) :
    Seg next' prev' p l n ↔ Seg next prev p l n := by
  induction l generalizing p with
  | nil => exact Iff.rfl
  | cons a l ih =>
    have ha := h a List.mem_cons_self
    simp only [Seg, ha.1, ha.2, ih fun b hb => h b (List.mem_cons_of_mem _ hb)]

/-- The next of a node is the first of what follows. -/
theorem Chain.next_eq (h : Chain next prev (l ++ a :: r)) : next a = r.head? := by
  obtain ⟨-, -, hnext, -⟩ := seg_append.mp h
  simpa using hnext

/-- The previous one is the last of what comes before. -/
theorem Chain.prev_eq (h : Chain next prev (l ++ a :: r)) : prev a = l.getLast? := by
  obtain ⟨-, hprev, -⟩ := seg_append.mp h
  simpa using hprev

/-- The parts of a list without duplicates, around one of its nodes. -/
theorem nodup_around (h : (l ++ a :: r).Nodup) :
    l.Nodup ∧ a ∉ l ∧ a ∉ r ∧ r.Nodup ∧ ∀ b ∈ l, b ∉ r := by
  rw [List.nodup_middle, List.nodup_cons, List.mem_append, not_or] at h
  obtain ⟨⟨hl, hr⟩, hlr⟩ := h
  obtain ⟨hnl, hnr, hdisjoint⟩ := List.nodup_append.mp hlr
  exact ⟨hnl, hl, hr, hnr, fun b hb hr => hdisjoint b hb b hr rfl⟩

end Segments

-- ---------------------------------------------------------------------------
-- Writes
-- ---------------------------------------------------------------------------

section Writes

variable [DecidableEq Addr]

/-- `if( q ) q->field = v` -/
def relink (field : Addr → Option Addr) (q v : Option Addr) : Addr → Option Addr :=
  match q with
  | some a => Function.update field a v
  | none => field

variable {next prev field : Addr → Option Addr} {p n q v : Option Addr} {a b : Addr}
  {l r : List Addr}

@[simp] theorem relink_none : relink field none v = field := rfl

@[simp] theorem relink_some : relink field (some a) v = Function.update field a v := rfl

/-- To relink a node leaves the fields of the others. -/
theorem relink_of_ne (h : q ≠ some a) : relink field q v a = field a := by
  cases q with
  | none => rfl
  | some b => exact Function.update_of_ne (fun heq => h (congrArg some heq.symm)) _ _

/-- A node that is not in the list is not its last. -/
theorem relink_getLast_of_notMem (h : a ∉ l) : relink field l.getLast? v a = field a :=
  relink_of_ne fun heq => h (List.mem_of_getLast? heq)

/-- A node that is not in the list is not its first. -/
theorem relink_head_of_notMem (h : a ∉ l) : relink field l.head? v a = field a :=
  relink_of_ne fun heq => h (List.mem_of_head? heq)

/-- The last node gets another successor. -/
theorem Seg.relink_next (h : Seg next prev p l n) (hnodup : l.Nodup) (v : Option Addr) :
    Seg (relink next l.getLast? v) prev p l v := by
  rcases List.eq_nil_or_concat l with rfl | ⟨l, a, rfl⟩
  · exact seg_nil
  · rw [List.concat_eq_append] at h hnodup ⊢
    rw [seg_append, seg_singleton] at h ⊢
    rw [List.getLast?_concat, relink_some, Function.update_self]
    have ha : a ∉ l := fun ha => (List.nodup_append.mp hnodup).2.2 a ha a List.mem_cons_self rfl
    refine ⟨(seg_congr fun b hb => ⟨?_, rfl⟩).mpr h.1, h.2.1, rfl⟩
    exact Function.update_of_ne (ne_of_mem_of_not_mem hb ha) _ _

/-- The first node gets another predecessor. -/
theorem Seg.relink_prev (h : Seg next prev p l n) (hnodup : l.Nodup) (v : Option Addr) :
    Seg next (relink prev l.head? v) v l n := by
  cases l with
  | nil => exact seg_nil
  | cons a l =>
    obtain ⟨-, hnext, hrest⟩ := h
    have ha := (List.nodup_cons.mp hnodup).1
    refine ⟨Function.update_self .., hnext, (seg_congr fun b hb => ⟨rfl, ?_⟩).mpr hrest⟩
    exact Function.update_of_ne (ne_of_mem_of_not_mem hb ha) _ _

/-- A new node is put in front. -/
theorem Chain.push (h : Chain next prev l) (hnodup : l.Nodup) (ha : a ∉ l) :
    Chain (Function.update next a l.head?)
      (relink (Function.update prev a none) l.head? (some a)) (a :: l) := by
  refine ⟨?_, ?_, ?_⟩
  · rw [relink_head_of_notMem ha, Function.update_self]
  · rw [Function.update_self, Option.or_none]
  · refine Seg.relink_prev ((seg_congr fun b hb => ?_).mpr h) hnodup _
    have hb := ne_of_mem_of_not_mem hb ha
    exact ⟨Function.update_of_ne hb _ _, Function.update_of_ne hb _ _⟩

/-- A new node is put at the end. -/
theorem Chain.snoc (h : Chain next prev l) (hnodup : l.Nodup) (ha : a ∉ l) (hnone : next a = none) :
    Chain (relink next l.getLast? (some a)) (Function.update prev a l.getLast?) (l ++ [a]) := by
  rw [Chain, seg_append, seg_singleton]
  refine ⟨?_, ?_, ?_⟩
  · refine Seg.relink_next ((seg_congr fun b hb => ⟨rfl, ?_⟩).mpr h) hnodup _
    exact Function.update_of_ne (ne_of_mem_of_not_mem hb ha) _ _
  · rw [Function.update_self, Option.or_none]
  · rw [relink_getLast_of_notMem ha, hnone]

/-- A node is taken out. -/
theorem Chain.remove (h : Chain next prev (l ++ a :: r)) (hnodup : (l ++ a :: r).Nodup) :
    Chain (relink next l.getLast? r.head?) (relink prev r.head? l.getLast?) (l ++ r) := by
  obtain ⟨hl, -, -, hr, hdisjoint⟩ := nodup_around hnodup
  obtain ⟨hleft, -, -, hright⟩ := seg_append.mp h
  rw [Chain, seg_append, Option.or_none, Option.or_none]
  constructor
  · refine (seg_congr fun b hb => ⟨rfl, ?_⟩).mpr (hleft.relink_next hl _)
    exact relink_head_of_notMem (hdisjoint b hb)
  · refine (seg_congr fun b hb => ⟨?_, rfl⟩).mpr (hright.relink_prev hr _)
    exact relink_getLast_of_notMem fun hl => hdisjoint b hl hb

/-- A node is put before its predecessor. -/
theorem Chain.transpose (h : Chain next prev (l ++ b :: a :: r))
    (hnodup : (l ++ b :: a :: r).Nodup) :
    Chain
      (Function.update (Function.update (relink next l.getLast? (some a)) b r.head?) a (some b))
      (Function.update (Function.update (relink prev r.head? (some b)) b (some a)) a l.getLast?)
      (l ++ a :: b :: r) := by
  obtain ⟨hl, hbl, hbr, har, hdisjoint⟩ := nodup_around hnodup
  obtain ⟨har, hr⟩ := List.nodup_cons.mp har
  have hab : a ≠ b := fun heq => hbr (heq ▸ List.mem_cons_self)
  have hal : a ∉ l := fun ha => hdisjoint a ha List.mem_cons_self
  have hbr : b ∉ r := fun hb => hbr (List.mem_cons_of_mem _ hb)
  obtain ⟨hleft, -, -, -, -, hright⟩ := seg_append.mp h
  rw [Chain, seg_append]
  refine ⟨(seg_congr fun c hc => ?_).mpr (hleft.relink_next hl _), ?_, ?_, ?_, ?_,
    (seg_congr fun c hc => ?_).mpr (hright.relink_prev hr _)⟩
  · have hca := ne_of_mem_of_not_mem hc hal
    have hcb := ne_of_mem_of_not_mem hc hbl
    have hcr : c ∉ r := fun hr => hdisjoint c hc (List.mem_cons_of_mem _ hr)
    rw [Function.update_of_ne hca, Function.update_of_ne hcb, Function.update_of_ne hca,
      Function.update_of_ne hcb, relink_head_of_notMem hcr]
    exact ⟨rfl, rfl⟩
  · rw [Function.update_self, Option.or_none]
  · rw [Function.update_self]
    rfl
  · rw [Function.update_of_ne hab.symm, Function.update_self]
  · rw [Function.update_of_ne hab.symm, Function.update_self, Option.or_none]
  · have hca := ne_of_mem_of_not_mem hc har
    have hcb := ne_of_mem_of_not_mem hc hbr
    have hcl : c ∉ l := fun hl => hdisjoint c hl (List.mem_cons_of_mem _ hc)
    rw [Function.update_of_ne hca, Function.update_of_ne hcb, Function.update_of_ne hca,
      Function.update_of_ne hcb, relink_getLast_of_notMem hcl]
    exact ⟨rfl, rfl⟩

end Writes

end VfsRedirector.Library
