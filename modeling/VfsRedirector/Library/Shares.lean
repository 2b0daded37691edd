import VfsRedirector.Library.Allocations

/-!
# Blocks of a shared structure and of its threads

A structure that several threads use consists of blocks; a thread allocates a block
before it puts it into the structure, and frees one after it has taken it out. In
between the block is the thread's alone.

`Shares m l own` says that every block that is allocated is either one of `l`, the blocks
of the structure, or the block `own t` of one thread `t`. The rules are those of a thread
that allocates its block (`alloc`), hands blocks over in either direction (`move`), or
frees its block (`free`).

## Results

* `move` — a thread and the structure share what they have in another way.
* `alloc`, `free` — a thread gets a block, and frees one.
-/

namespace VfsRedirector.Library

variable {Thread Addr : Type}

structure Shares (m : Allocations Addr) (l : List Addr) (own : Thread → Option Addr) : Prop where
  nodup : l.Nodup
  apart : ∀ t a, own t = some a → a ∉ l
  distinct : ∀ t u a, own t = some a → own u = some a → t = u
  live : ∀ a, a ∈ m.live ↔ a ∈ l ∨ ∃ t, own t = some a
  once : m.Owns m.live

namespace Shares

variable {m : Allocations Addr} {l l' : List Addr} {own : Thread → Option Addr} {t : Thread}
  {a : Addr} {o : Option Addr}

/-- At the start no thread and no structure has a block. -/
theorem start (serial : Addr → Nat) :
    Shares (Allocations.start serial) [] fun _ : Thread => none where
  nodup := List.nodup_nil
  apart := by simp
  distinct := by simp
  live := by simp [Allocations.start]
  once := Allocations.owns_start serial

/-- While no thread has a block, the blocks of the structure are all that is allocated. -/
theorem owns_of_idle (h : Shares m l own) (hown : ∀ t, own t = none) : m.Owns l := by
  have hperm : m.live.Perm l := by
    refine (List.perm_ext_iff_of_nodup h.once.nodup h.nodup).mpr fun a => ?_
    rw [h.live]
    simp [hown]
  refine ⟨hperm, fun i => ?_⟩
  rw [← (hperm.map m.serial).count_eq]
  exact h.once.account i

section Update

/-- What a thread has is not in the structure. -/
theorem nodup_append (h : Shares m l own) (t : Thread) : (l ++ (own t).toList).Nodup := by
  cases ht : own t with
  | none => simpa using h.nodup
  | some a =>
    show (l ++ [a]).Nodup
    rw [List.nodup_append]
    refine ⟨h.nodup, List.nodup_singleton a, fun b hb c hc => ?_⟩
    rw [List.mem_singleton.mp hc]
    exact ne_of_mem_of_not_mem hb (h.apart t a ht)

/-- What another thread has is neither in the structure nor with this one. -/
theorem not_mem_append {u : Thread} (h : Shares m l own) (hut : u ≠ t) (hu : own u = some a) :
    a ∉ l ++ (own t).toList := by
  rw [List.mem_append, Option.mem_toList]
  rintro (hl | ht)
  · exact h.apart u a hu hl
  · exact hut (h.distinct u t a hu ht)

variable [DecidableEq Thread]

/-- A thread has a block after a change if it got it or had it before. -/
theorem update_eq_some_iff {u : Thread} :
    Function.update own t o u = some a ↔ (u = t ∧ o = some a) ∨ (u ≠ t ∧ own u = some a) := by
  by_cases hut : u = t
  · subst hut
    simp
  · simp [hut]

/-- Some thread has a block after a change if it got it or another had it before. -/
theorem exists_update_iff :
    (∃ u, Function.update own t o u = some a) ↔ o = some a ∨ ∃ u, u ≠ t ∧ own u = some a := by
  simp only [update_eq_some_iff]
  constructor
  · rintro ⟨u, ⟨-, ho⟩ | hu⟩
    · exact .inl ho
    · exact .inr ⟨u, hu⟩
  · rintro (ho | ⟨u, hu⟩)
    · exact ⟨t, .inl ⟨rfl, ho⟩⟩
    · exact ⟨u, .inr hu⟩

/-- What a thread and the structure have together, by who has it. -/
theorem live_iff (h : Shares m l own) (t : Thread) :
    a ∈ m.live ↔ a ∈ l ++ (own t).toList ∨ ∃ u, u ≠ t ∧ own u = some a := by
  rw [h.live, List.mem_append, Option.mem_toList, or_assoc]
  refine or_congr_right ⟨?_, ?_⟩
  · rintro ⟨u, hu⟩
    by_cases hut : u = t
    · exact .inl (hut ▸ hu)
    · exact .inr ⟨u, hut, hu⟩
  · rintro (ht | ⟨u, -, hu⟩)
    · exact ⟨t, ht⟩
    · exact ⟨u, hu⟩

/-- A thread and the structure share what they have in another way. -/
theorem move (h : Shares m l own) (hperm : (l' ++ o.toList).Perm (l ++ (own t).toList)) :
    Shares m l' (Function.update own t o) := by
  have hnodup := List.nodup_append.mp (hperm.symm.nodup (h.nodup_append t))
  -- what the other threads own is apart from what the list and this thread have together
  have hout : ∀ u b, u ≠ t → own u = some b → b ∉ l' ∧ o ≠ some b := by
    intro u b hut hu
    have hb := mt hperm.mem_iff.mp (h.not_mem_append hut hu)
    rw [List.mem_append, Option.mem_toList, not_or] at hb
    exact hb
  constructor
  · exact hnodup.1
  · intro u b hu hb
    obtain ⟨-, ho⟩ | ⟨hut, hu⟩ := update_eq_some_iff.mp hu
    · exact hnodup.2.2 b hb b (Option.mem_toList.mpr ho) rfl
    · exact (hout u b hut hu).1 hb
  · intro u v b hu hv
    rw [update_eq_some_iff] at hu hv
    obtain ⟨rfl, ho⟩ | ⟨hut, hu⟩ := hu
    · obtain ⟨rfl, -⟩ | ⟨hvt, hv⟩ := hv
      · rfl
      · exact absurd ho (hout v b hvt hv).2
    · obtain ⟨rfl, ho⟩ | ⟨-, hv⟩ := hv
      · exact absurd ho (hout u b hut hu).2
      · exact h.distinct u v b hu hv
  · intro b
    rw [h.live_iff t, exists_update_iff, ← or_assoc, ← hperm.mem_iff, List.mem_append,
      Option.mem_toList]
  · exact h.once

variable [DecidableEq Addr]

/-- A new block goes to the thread that asked for it. -/
theorem alloc (h : Shares m l own) (ht : own t = none) (ha : a ∉ m.live) :
    Shares (m.alloc a) l (Function.update own t (some a)) := by
  -- a new address is neither in the list nor a thread's
  have hout := mt (h.live a).mpr ha
  rw [not_or, not_exists] at hout
  constructor
  · exact h.nodup
  · intro u b hu
    obtain ⟨-, hb⟩ | ⟨-, hu⟩ := update_eq_some_iff.mp hu
    · exact Option.some.inj hb ▸ hout.1
    · exact h.apart u b hu
  · intro u v b hu hv
    rw [update_eq_some_iff, Option.some.injEq] at hu hv
    obtain ⟨rfl, rfl⟩ | ⟨-, hu⟩ := hu
    · obtain ⟨rfl, -⟩ | ⟨-, hv⟩ := hv
      · rfl
      · exact absurd hv (hout.2 v)
    · obtain ⟨rfl, rfl⟩ | ⟨-, hv⟩ := hv
      · exact absurd hu (hout.2 u)
      · exact h.distinct u v b hu hv
  · intro b
    rw [exists_update_iff]
    show b ∈ a :: m.live ↔ _
    rw [List.mem_cons, h.live_iff t, ht, Option.toList_none, List.append_nil, Option.some.injEq,
      eq_comm (a := b)]
    exact or_left_comm
  · exact h.once.alloc ha

/-- A thread can free the block that it has. -/
theorem free (h : Shares m l own) (ht : own t = some a) :
    ∃ m', m.free a = some m' ∧ Shares m' l (Function.update own t none) := by
  have ha : a ∈ m.live := (h.live a).mpr (.inr ⟨t, ht⟩)
  obtain ⟨before, after, hsplit⟩ := List.append_of_mem ha
  have howns := h.once
  rw [hsplit] at howns
  obtain ⟨m', hfree, howns'⟩ := howns.free
  refine ⟨m', hfree, ?_⟩
  have hnodup := howns.nodup
  rw [List.nodup_middle, List.nodup_cons] at hnodup
  -- what is live after it is what was, less the freed address
  have hlive : ∀ b, b ∈ m'.live ↔ b ∈ m.live ∧ b ≠ a := by
    intro b
    rw [howns'.live.mem_iff, hsplit]
    constructor
    · intro hb
      refine ⟨?_, ne_of_mem_of_not_mem hb hnodup.1⟩
      rw [List.mem_append, List.mem_cons]
      exact (List.mem_append.mp hb).imp_right .inr
    · rintro ⟨hb, hne⟩
      rw [List.mem_append, List.mem_cons] at hb
      exact List.mem_append.mpr (hb.imp_right (·.resolve_left hne))
  constructor
  · exact h.nodup
  · intro u b hu
    obtain ⟨-, hnone⟩ | ⟨-, hu⟩ := update_eq_some_iff.mp hu
    · cases hnone
    · exact h.apart u b hu
  · intro u v b hu hv
    obtain ⟨-, hnone⟩ | ⟨-, hu⟩ := update_eq_some_iff.mp hu
    · cases hnone
    obtain ⟨-, hnone⟩ | ⟨-, hv⟩ := update_eq_some_iff.mp hv
    · cases hnone
    exact h.distinct u v b hu hv
  · intro b
    rw [hlive, exists_update_iff, h.live_iff t, ht, List.mem_append, Option.mem_toList]
    constructor
    · rintro ⟨(hl | hb) | hu, hne⟩
      · exact .inl hl
      · exact absurd (Option.some.inj hb).symm hne
      · exact .inr (.inr hu)
    -- an address of the list, or of another thread, is not the freed one
    · rintro (hl | hnone | ⟨u, hut, hu⟩)
      · exact ⟨.inl (.inl hl), ne_of_mem_of_not_mem hl (h.apart t a ht)⟩
      · cases hnone
      · refine ⟨.inr ⟨u, hut, hu⟩, ?_⟩
        rintro rfl
        exact hut (h.distinct u t b hu ht)
  · refine ⟨List.Perm.refl _, fun i => ?_⟩
    rw [(howns'.live.map m'.serial).count_eq]
    exact howns'.account i

end Update

end Shares

end VfsRedirector.Library
