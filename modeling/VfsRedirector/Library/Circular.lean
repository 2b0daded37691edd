import Mathlib.Data.List.Chain
import Mathlib.Data.List.Iterate
import Mathlib.Data.List.Nodup
import Mathlib.Logic.Function.Basic

/-!
# Circular lists in a memory

A circular list goes from its head through its nodes and back to the head, and every
node points to its neighbours in both directions. `Circular flink blink head l` says this
of the nodes `l`, in the order of `flink`; the head is no node.

The rules say what becomes of a ring when pointers are written: the head alone is an
empty ring, a node is inserted behind the head, and a node is taken out. A walk from the
head goes through `l` and comes back (`Circular.iterate_eq`, `Circular.returns`).

## Results

* `span_append` — two parts of a ring that meet.
* `Circular.insert`, `Circular.remove` — a node is put in, and taken out.
-/

namespace VfsRedirector.Library

variable {Addr : Type}

/-- `b` is the next of `a`, and `a` the one before `b`. -/
def Linked (flink blink : Addr → Addr) (a b : Addr) : Prop := flink a = b ∧ blink b = a

/-- The nodes of `l` are linked one to the other, between `a` and `c`. -/
def Span (flink blink : Addr → Addr) (a : Addr) (l : List Addr) (c : Addr) : Prop :=
  List.IsChain (Linked flink blink) (a :: l ++ [c])

def Circular (flink blink : Addr → Addr) (head : Addr) (l : List Addr) : Prop :=
  Span flink blink head l head

variable {flink blink flink' blink' : Addr → Addr} {head a b c : Addr} {l r : List Addr}

theorem span_nil : Span flink blink a [] c ↔ flink a = c ∧ blink c = a := List.isChain_pair

/-- A part of a list begins with a link in both directions. -/
theorem span_cons :
    Span flink blink a (b :: l) c ↔ (flink a = b ∧ blink b = a) ∧ Span flink blink b l c :=
  List.isChain_cons_cons

/-- Two parts of a list that meet in a node are one. -/
theorem span_append :
    Span flink blink a (l ++ b :: r) c ↔ Span flink blink a l b ∧ Span flink blink b r c := by
  unfold Span
  rw [List.cons_append, List.append_assoc, List.cons_append]
  exact List.isChain_cons_split

/-- A span is what it was in a memory that has the same links along it. -/
theorem span_congr (hflink : ∀ x ∈ a :: l, flink' x = flink x)
    (hblink : ∀ x ∈ l ++ [c], blink' x = blink x) :
    Span flink' blink' a l c ↔ Span flink blink a l c := by
  induction l generalizing a with
  | nil => rw [span_nil, span_nil, hflink a (by simp), hblink c (by simp)]
  | cons b l ih =>
    rw [span_cons, span_cons, hflink a (by simp), hblink b (by simp)]
    rw [ih (fun x hx => hflink x (List.mem_cons_of_mem _ hx))
      fun x hx => hblink x (List.mem_cons_of_mem _ hx)]

/-- The node before the end is one of the span. -/
theorem Span.blink_mem (h : Span flink blink a l c) : blink c ∈ a :: l := by
  induction l generalizing a with
  | nil =>
    rw [span_nil] at h
    simp [h.2]
  | cons b l ih => exact List.mem_cons_of_mem _ (ih (span_cons.mp h).2)

/-- The node behind the start is one of the span, or its end. -/
theorem Span.flink_mem (h : Span flink blink a l c) : flink a ∈ l ++ [c] := by
  cases l with
  | nil => exact List.mem_singleton.mpr (span_nil.mp h).1
  | cons b l =>
    rw [(span_cons.mp h).1.1]
    exact List.mem_cons_self

-- ---------------------------------------------------------------------------
-- Walks
-- ---------------------------------------------------------------------------

/-- Following the links gives the nodes of a part in their order. -/
theorem Span.iterate_eq (h : Span flink blink a l c) :
    List.iterate flink (flink a) l.length = l := by
  induction l generalizing a with
  | nil => rfl
  | cons b l ih =>
    obtain ⟨⟨hflink, -⟩, hrest⟩ := span_cons.mp h
    rw [List.length_cons, hflink]
    show b :: List.iterate flink (flink b) l.length = b :: l
    rw [ih hrest]

/-- Following the links once more leads to the node at which the part ends. -/
theorem Span.returns (h : Span flink blink a l c) : flink^[l.length + 1] a = c := by
  induction l generalizing a with
  | nil => exact (span_nil.mp h).1
  | cons b l ih =>
    obtain ⟨⟨hflink, -⟩, hrest⟩ := span_cons.mp h
    rw [List.length_cons, Function.iterate_succ_apply, hflink, ih hrest]

/-- The link back undoes the link, within a part and from where it begins. -/
theorem Span.blink_flink (h : Span flink blink a l c) {x : Addr} (hx : x ∈ a :: l) :
    blink (flink x) = x := by
  induction l generalizing a with
  | nil =>
    obtain ⟨hflink, hblink⟩ := span_nil.mp h
    rw [List.mem_singleton.mp hx, hflink, hblink]
  | cons b l ih =>
    obtain ⟨⟨hflink, hblink⟩, hrest⟩ := span_cons.mp h
    rcases List.mem_cons.mp hx with rfl | hx
    · rw [hflink, hblink]
    · exact ih hrest hx

/-- The link undoes the link back, within a part and from where it ends. -/
theorem Span.flink_blink (h : Span flink blink a l c) {x : Addr} (hx : x ∈ l ++ [c]) :
    flink (blink x) = x := by
  induction l generalizing a with
  | nil =>
    obtain ⟨hflink, hblink⟩ := span_nil.mp h
    rw [List.mem_singleton.mp hx, hblink, hflink]
  | cons b l ih =>
    obtain ⟨⟨hflink, hblink⟩, hrest⟩ := span_cons.mp h
    rcases List.mem_cons.mp hx with rfl | hx
    · rw [hblink, hflink]
    · exact ih hrest hx

/-- Each direction of a ring is the inverse of the other. -/
theorem Circular.inverse (h : Circular flink blink head l) {x : Addr} (hx : x ∈ head :: l) :
    blink (flink x) = x ∧ flink (blink x) = x := by
  refine ⟨h.blink_flink hx, h.flink_blink ?_⟩
  rcases List.mem_cons.mp hx with rfl | hx
  · exact List.mem_append_right _ (List.mem_singleton_self _)
  · exact List.mem_append_left _ hx

-- ---------------------------------------------------------------------------
-- Writes
-- ---------------------------------------------------------------------------

variable [DecidableEq Addr]

/-- A head that points to itself is an empty ring. -/
theorem circular_self :
    Circular (Function.update flink head head) (Function.update blink head head) head [] :=
  span_nil.mpr ⟨Function.update_self .., Function.update_self ..⟩

/-- The last node of a span gets another successor. -/
theorem Span.redirect {d : Addr} (h : Span flink blink a l c) (hnodup : (a :: l).Nodup)
    (hd : d ∉ l) :
    Span (Function.update flink (blink c) d) (Function.update blink d (blink c)) a l d := by
  induction l generalizing a with
  | nil =>
    rw [span_nil] at h ⊢
    rw [h.2]
    exact ⟨Function.update_self .., Function.update_self ..⟩
  | cons b l ih =>
    obtain ⟨hlinked, hrest⟩ := span_cons.mp h
    obtain ⟨ha, hnodup⟩ := List.nodup_cons.mp hnodup
    have hlast : a ≠ blink c := fun heq => ha (heq ▸ hrest.blink_mem)
    have hb : b ≠ d := fun heq => hd (heq ▸ List.mem_cons_self)
    refine span_cons.mpr ⟨?_, ih hrest hnodup fun hd' => hd (List.mem_cons_of_mem _ hd')⟩
    rw [Function.update_of_ne hlast, Function.update_of_ne hb]
    exact hlinked

/-- A node is put behind the head. -/
theorem Circular.insert (h : Circular flink blink head l) (hnodup : (head :: l).Nodup)
    (ha : a ∉ head :: l) :
    Circular (Function.update (Function.update flink a (flink head)) head a)
      (Function.update (Function.update blink a head) (flink head) a) head (a :: l) := by
  obtain ⟨hhead, hnodup⟩ := List.nodup_cons.mp hnodup
  have hah : a ≠ head := fun heq => ha (heq ▸ List.mem_cons_self)
  have hal : a ∉ l := fun hl => ha (List.mem_cons_of_mem _ hl)
  -- the node behind the head is the head itself, or another
  cases l with
  | nil =>
    obtain ⟨hflink, -⟩ := span_nil.mp h
    refine span_cons.mpr ⟨⟨Function.update_self .., ?_⟩, span_nil.mpr ⟨?_, ?_⟩⟩
    · rw [hflink, Function.update_of_ne hah, Function.update_self]
    · rw [Function.update_of_ne hah, Function.update_self, hflink]
    · rw [hflink, Function.update_self]
  | cons b l =>
    obtain ⟨⟨hflink, -⟩, hrest⟩ := span_cons.mp h
    obtain ⟨hb, -⟩ := List.nodup_cons.mp hnodup
    have hab : a ≠ b := fun heq => hal (heq ▸ List.mem_cons_self)
    have hbh : b ≠ head := fun heq => hhead (heq ▸ List.mem_cons_self)
    rw [hflink]
    refine span_cons.mpr ⟨⟨Function.update_self .., ?_⟩, span_cons.mpr ⟨⟨?_, ?_⟩, ?_⟩⟩
    · rw [Function.update_of_ne hab, Function.update_self]
    · rw [Function.update_of_ne hah, Function.update_self]
    · rw [Function.update_self]
    · -- behind the first node nothing is written
      refine (span_congr (fun x hx => ?_) fun x hx => ?_).mpr hrest
      · have hxa : x ≠ a := fun heq => hal (heq ▸ hx)
        have hxh : x ≠ head := fun heq => hhead (heq ▸ hx)
        rw [Function.update_of_ne hxh, Function.update_of_ne hxa]
      · have hxb : x ≠ b := by
          rcases List.mem_append.mp hx with hx | hx
          · exact fun heq => hb (heq ▸ hx)
          · exact List.mem_singleton.mp hx ▸ hbh.symm
        have hxa : x ≠ a := by
          rcases List.mem_append.mp hx with hx | hx
          · exact fun heq => hal (heq ▸ List.mem_cons_of_mem _ hx)
          · exact List.mem_singleton.mp hx ▸ hah.symm
        rw [Function.update_of_ne hxb, Function.update_of_ne hxa]

/-- A node is taken out: its neighbours are linked to each other. -/
theorem Circular.remove (h : Circular flink blink head (l ++ a :: r))
    (hnodup : (head :: (l ++ a :: r)).Nodup) :
    Circular (Function.update flink (blink a) (flink a)) (Function.update blink (flink a) (blink a))
      head (l ++ r) := by
  obtain ⟨hleft, hright⟩ := span_append.mp h
  rw [← List.cons_append] at hnodup
  obtain ⟨hleftNodup, hrightNodup, hdisjoint⟩ := List.nodup_append.mp hnodup
  have hlast := hleft.blink_mem
  -- the node behind the removed one is the head, or another
  cases r with
  | nil =>
    obtain ⟨hflink, -⟩ := span_nil.mp hright
    rw [hflink, List.append_nil]
    exact hleft.redirect hleftNodup (List.nodup_cons.mp hleftNodup).1
  | cons b r =>
    obtain ⟨⟨hflink, -⟩, hrest⟩ := span_cons.mp hright
    rw [hflink]
    have hb : b ∈ a :: b :: r := List.mem_cons_of_mem _ List.mem_cons_self
    have hbl : b ∉ l := fun hl => hdisjoint b (List.mem_cons_of_mem _ hl) b hb rfl
    have hbr := (List.nodup_cons.mp (List.nodup_cons.mp hrightNodup).2).1
    refine span_append.mpr ⟨hleft.redirect hleftNodup hbl, ?_⟩
    refine (span_congr (fun x hx => ?_) fun x hx => ?_).mpr hrest
    · exact Function.update_of_ne
        (fun heq => hdisjoint _ hlast x (List.mem_cons_of_mem _ hx) heq.symm) _ _
    · have hxb : x ≠ b := by
        rcases List.mem_append.mp hx with hx | hx
        · exact fun heq => hbr (heq ▸ hx)
        · exact List.mem_singleton.mp hx ▸ hdisjoint head List.mem_cons_self b hb
      exact Function.update_of_ne hxb _ _

end VfsRedirector.Library
