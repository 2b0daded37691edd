import Mathlib.Data.Sum.Basic
import Mathlib.Tactic.MkIffOfInductiveProp
import Mathlib.Tactic.Tauto
import VfsRedirector.Library.Count
import VfsRedirector.VNodeHook.Model

/-!
# VNodeHook: what one step can do

A step moves one thread. For the lock of the table, for the references to the
entries, and for the vectors with what is saved of them, there is one lemma
that says in which ways a step can change it; and so for
`InstanceForHookedVnodes`. The invariants are proved from these lemmas; none of
them unfolds `advance`.

## Results

* `step_cases` — a step is the start of a call, or the next operation of one.
* `advance_refs` — what an operation does to the references of the entries.
* `advance_vectors` — what it does to the vectors and to what was saved.
* `advance_lock` — what it does to the lock.
-/

namespace VfsRedirector.VNodeHook

open Library

variable {Thread Vnode OpVec : Type}

def HookAction.thread : HookAction Thread Vnode OpVec → Thread
  | .hook t _ _ | .unhook t _ | .getOriginal t _ _ | .advance t _ => t

namespace HookPc

/-- The entry that the thread has a reference to. -/
def holds? : HookPc Vnode OpVec → Option Nat
  | .hookReleaseFound _ e | .hookLock _ e | .hookRecheck _ e | .hookLoop _ e _
  | .hookUnlock _ e _ | .hookReleaseNew _ e _ | .unhookRemoveVnode _ e | .unhookDecrement _ e
  | .unhookLock _ e | .unhookCheck _ e | .unhookDrop _ e | .unhookLoop _ e _
  | .unhookRelease e | .getRead _ _ e | .getRelease _ _ e _ => some e
  | .unhookUnlock existingEntry => existingEntry
  | .idle | .hookRetrieve _ | .hookNewEntry _ | .hookAddVnode _ | .unhookTest _
  | .unhookRetrieve _ | .unhookRemove _ | .getRetrieve _ _ | .getRetrieveAgain _ _
  | .getReturn _ _ _ => none

/-- The thread has the lock of the table in exclusive mode. -/
def Exclusive : HookPc Vnode OpVec → Prop
  | .hookRecheck _ _ | .hookLoop _ _ _ | .hookUnlock _ _ _ | .unhookCheck _ _
  | .unhookDrop _ _ | .unhookRemove _ | .unhookLoop _ _ _ | .unhookUnlock _ => True
  | _ => False

/-- The thread has made the entry, and it is not in the table yet. -/
def Fresh : HookPc Vnode OpVec → Nat → Prop
  | .hookLock _ newEntry, e | .hookRecheck _ newEntry, e => newEntry = e
  | _, _ => False

/-- The thread is in the loop that writes or restores the slots of a vector. -/
def Writing : HookPc Vnode OpVec → OpVec → Prop
  | .hookLoop v _ _, w | .unhookLoop v _ _, w => v.vOp = w
  | _, _ => False

/-- What `QvrGetOriginalVnodeOp` has found. -/
def Found : HookPc Vnode OpVec → VnodeT Vnode OpVec → QvrVopEnum → Vopfunc → Prop
  | .getRelease v₀ indx₀ _ f₀, v, indx, f | .getReturn v₀ indx₀ f₀, v, indx, f =>
    v₀ = v ∧ indx₀ = indx ∧ f₀ = f
  | _, _, _, _ => False

/-- The vnode that the thread is hooking. -/
def hookArg? : HookPc Vnode OpVec → Option (VnodeT Vnode OpVec)
  | .hookRetrieve v | .hookReleaseFound v _ | .hookNewEntry v | .hookLock v _ | .hookRecheck v _
  | .hookLoop v _ _ | .hookUnlock v _ _ | .hookReleaseNew v _ _ | .hookAddVnode v => some v
  | _ => none

/-- The vnode that the thread is unhooking. -/
def unhookArg? : HookPc Vnode OpVec → Option (VnodeT Vnode OpVec)
  | .unhookTest v | .unhookRetrieve v | .unhookRemoveVnode v _ | .unhookDecrement v _
  | .unhookLock v _ | .unhookCheck v _ | .unhookDrop v _ | .unhookRemove v
  | .unhookLoop v _ _ => some v
  | _ => none

/-- In `QvrUnHookVnodeVop`, before the removal of the vnode from
`InstanceForHookedVnodes`. -/
def Recorded : HookPc Vnode OpVec → VnodeT Vnode OpVec → Prop
  | .unhookTest v₀, v | .unhookRetrieve v₀, v | .unhookRemoveVnode v₀ _, v => v₀ = v
  | _, _ => False

/-- Where a call starts, and where one that has nothing to do stays. -/
def Starting : HookPc Vnode OpVec → Prop
  | .idle | .hookRetrieve _ | .unhookTest _ | .getRetrieve _ _ => True
  | _ => False

/-- A thread that writes to a vector has the lock. -/
theorem Writing.exclusive {p : HookPc Vnode OpVec} {w : OpVec} (h : p.Writing w) :
    p.Exclusive := by
  cases p <;> first | exact h.elim | trivial

/-- A thread holds the entry that it has just made. -/
theorem Fresh.holds {p : HookPc Vnode OpVec} {e : Nat} (h : p.Fresh e) : p.holds? = some e := by
  cases p <;> first | exact h.elim | exact congrArg some h

end HookPc

open HookPc

/-- Who may have a reference to an entry: a thread, or the table for a vector. -/
def Hooks.refs (s : Hooks Thread Vnode OpVec) : Thread ⊕ OpVec → Option Nat :=
  Sum.elim (fun t => (s.pc t).holds?) s.sVnodeHooksHashTable

/-- The references to each entry that `OSObject` counts. -/
def Hooks.counts (s : Hooks Thread Vnode OpVec) (e : Nat) : Int := (s.entries e).retainCount

theorem Hooks.counts_eq (s : Hooks Thread Vnode OpVec) :
    s.counts = fun e => (s.entries e).retainCount := rfl

/-- To update an entry updates its retain count. -/
theorem update_retainCount (f : Nat → QvrVnodeHookEntry) (e : Nat)
    (x : QvrVnodeHookEntry) : (fun e' => (Function.update f e x e').retainCount) =
      Function.update (fun e' => (f e').retainCount) e x.retainCount :=
  funext fun e' => Function.apply_update (fun _ x => QvrVnodeHookEntry.retainCount x) f e x e'

/-- What each entry has saved. -/
def Hooks.saved (s : Hooks Thread Vnode OpVec) (e : Nat) : QvrVopEnum → Vopfunc :=
  (s.entries e).origVop

theorem Hooks.saved_eq (s : Hooks Thread Vnode OpVec) :
    s.saved = fun e => (s.entries e).origVop := rfl

/-- To update an entry updates its saved operations. -/
theorem update_origVop (f : Nat → QvrVnodeHookEntry) (e : Nat)
    (x : QvrVnodeHookEntry) : (fun e' => (Function.update f e x e').origVop) =
      Function.update (fun e' => (f e').origVop) e x.origVop :=
  funext fun e' => Function.apply_update (fun _ x => QvrVnodeHookEntry.origVop x) f e x e'

/-- The vectors, the table and what the entries have saved are as before. -/
@[mk_iff] structure SameVectors (s s' : Hooks Thread Vnode OpVec) : Prop where
  slots : s'.slots = s.slots
  table : s'.sVnodeHooksHashTable = s.sVnodeHooksHashTable
  saved : s'.saved = s.saved

section Slots

variable [DecidableEq OpVec] {k : Kernel} {s : Hooks Thread Vnode OpVec}
variable {v : VnodeT Vnode OpVec} {e : Nat} {desc : VnodeopvEntryDesc Hook}

/-- Writing a slot of a vector changes the vector and what is saved of it. -/
theorem hookSlot_frame :
    (s.hookSlot k v e desc).pc = s.pc ∧ (s.hookSlot k v e desc).lock = s.lock ∧
    (s.hookSlot k v e desc).sVnodeHooksHashTable = s.sVnodeHooksHashTable ∧
    (s.hookSlot k v e desc).instanceForHookedVnodes = s.instanceForHookedVnodes := by
  unfold Hooks.hookSlot
  split
  · exact ⟨rfl, rfl, rfl, rfl⟩
  · split <;> exact ⟨rfl, rfl, rfl, rfl⟩

@[simp] theorem hookSlot_pc : (s.hookSlot k v e desc).pc = s.pc := hookSlot_frame.1

@[simp] theorem hookSlot_lock : (s.hookSlot k v e desc).lock = s.lock := hookSlot_frame.2.1

@[simp] theorem hookSlot_table :
    (s.hookSlot k v e desc).sVnodeHooksHashTable = s.sVnodeHooksHashTable := hookSlot_frame.2.2.1

@[simp] theorem hookSlot_vnodes :
    (s.hookSlot k v e desc).instanceForHookedVnodes = s.instanceForHookedVnodes :=
  hookSlot_frame.2.2.2

@[simp] theorem hookSlot_counts : (s.hookSlot k v e desc).counts = s.counts := by
  unfold Hooks.hookSlot
  split
  · rfl
  · split <;> simp [Hooks.modifyEntry, Hooks.writeSlot, Hooks.counts_eq, update_retainCount,
      QvrVnodeHookEntry.setOriginalVopAsNotHooked, QvrVnodeHookEntry.setOriginalVop]

@[simp] theorem hookSlot_retainCount (e' : Nat) :
    ((s.hookSlot k v e desc).entries e').retainCount = (s.entries e').retainCount :=
  congrFun hookSlot_counts e'

/-- Restoring a slot changes the vector only. -/
theorem unhookSlot_frame :
    (s.unhookSlot k v e desc).pc = s.pc ∧ (s.unhookSlot k v e desc).lock = s.lock ∧
    (s.unhookSlot k v e desc).sVnodeHooksHashTable = s.sVnodeHooksHashTable ∧
    (s.unhookSlot k v e desc).instanceForHookedVnodes = s.instanceForHookedVnodes ∧
    (s.unhookSlot k v e desc).entries = s.entries := by
  unfold Hooks.unhookSlot
  split
  · exact ⟨rfl, rfl, rfl, rfl, rfl⟩
  · split <;> exact ⟨rfl, rfl, rfl, rfl, rfl⟩

@[simp] theorem unhookSlot_pc : (s.unhookSlot k v e desc).pc = s.pc := unhookSlot_frame.1

@[simp] theorem unhookSlot_lock : (s.unhookSlot k v e desc).lock = s.lock := unhookSlot_frame.2.1

@[simp] theorem unhookSlot_table :
    (s.unhookSlot k v e desc).sVnodeHooksHashTable = s.sVnodeHooksHashTable :=
  unhookSlot_frame.2.2.1

@[simp] theorem unhookSlot_vnodes :
    (s.unhookSlot k v e desc).instanceForHookedVnodes = s.instanceForHookedVnodes :=
  unhookSlot_frame.2.2.2.1

@[simp] theorem unhookSlot_entries : (s.unhookSlot k v e desc).entries = s.entries :=
  unhookSlot_frame.2.2.2.2

end Slots

variable [DecidableEq Thread] [DecidableEq Vnode] [DecidableEq OpVec]
variable {k : Kernel} {s s' : Hooks Thread Vnode OpVec} {a : HookAction Thread Vnode OpVec}
variable {t u : Thread} {alloc : Option Nat}

/-- How the calls start. -/
theorem step_hook {v : VnodeT Vnode OpVec} {isRecycled : Bool}
    (h : s.step k (.hook t v isRecycled) = some s') :
    s.pc t = .idle ∧
      (s' = s.goto t .idle ∨ (v.vtype = .vreg ∧ s' = s.goto t (.hookRetrieve v))) := by
  simp only [Hooks.step] at h
  split at h
  · rename_i hidle
    refine ⟨hidle, ?_⟩
    split at h <;> cases h
    · left
      simp only [Hooks.goto, ← hidle, Function.update_eq_self]
    · rename_i hnot
      rw [not_or, not_not] at hnot
      exact .inr ⟨hnot.2, rfl⟩
  · cases h

/-- A thread that starts to unhook was idle. -/
theorem step_unhook {v : VnodeT Vnode OpVec} (h : s.step k (.unhook t v) = some s') :
    s.pc t = .idle ∧ s' = s.goto t (.unhookTest v) := by
  simp only [Hooks.step] at h
  split at h <;> cases h
  rename_i hidle
  exact ⟨hidle, rfl⟩

/-- A thread that starts to look for an original was idle. -/
theorem step_getOriginal {v : VnodeT Vnode OpVec} {indx : QvrVopEnum}
    (h : s.step k (.getOriginal t v indx) = some s') :
    s.pc t = .idle ∧ s' = s.goto t (.getRetrieve v indx) := by
  simp only [Hooks.step] at h
  split at h <;> cases h
  rename_i hidle
  exact ⟨hidle, rfl⟩

/-- A step is the next operation of a thread, or the start of a call. -/
theorem step_cases (h : s.step k a = some s') :
    (∃ alloc, s.advance k a.thread alloc = some s') ∨
    (∃ p, s.pc a.thread = .idle ∧ p.Starting ∧ s' = s.goto a.thread p) := by
  cases a with
  | advance t alloc => exact .inl ⟨alloc, h⟩
  | hook t v isRecycled =>
    obtain ⟨hidle, rfl | ⟨-, rfl⟩⟩ := step_hook h
    · exact .inr ⟨_, hidle, by trivial, rfl⟩
    · exact .inr ⟨_, hidle, by trivial, rfl⟩
  | unhook t v =>
    obtain ⟨hidle, rfl⟩ := step_unhook h
    exact .inr ⟨_, hidle, by trivial, rfl⟩
  | getOriginal t v indx =>
    obtain ⟨hidle, rfl⟩ := step_getOriginal h
    exact .inr ⟨_, hidle, by trivial, rfl⟩

/-- The branches of `advance`, derived once for the lemmas that go through them. -/
alias Hooks.advance_cases := Hooks.advance.fun_cases_unfolding

/-- The next operation of a thread moves no other one. -/
theorem advance_pc (h : s.advance k t alloc = some s') (hu : u ≠ t) : s'.pc u = s.pc u := by
  revert h
  fun_cases Hooks.advance k s t alloc <;> intro h <;> cases h
  all_goals simp [Hooks.goto, Hooks.modifyEntry, hu]

/-- A step moves one thread. -/
theorem step_pc (h : s.step k a = some s') (hu : u ≠ a.thread) : s'.pc u = s.pc u := by
  rcases step_cases h with ⟨alloc, h⟩ | ⟨p, -, -, rfl⟩
  · exact advance_pc h hu
  · exact Function.update_of_ne hu _ _

/-- A step that changes the lock takes it or gives it up, and the exclusive section with it. -/
theorem advance_lock (h : s.advance k t alloc = some s') :
    (s'.lock = s.lock ∧ ((s'.pc t).Exclusive ↔ (s.pc t).Exclusive)) ∨
    (s.lock = none ∧ s'.lock = some t ∧ (s'.pc t).Exclusive) ∨
    ((s.pc t).Exclusive ∧ s'.lock = none ∧ ¬ (s'.pc t).Exclusive) := by
  revert h
  fun_cases Hooks.advance k s t alloc <;> intro h <;> cases h
  all_goals simp_all [Hooks.goto, Hooks.modifyEntry, Exclusive]

/-- What a step does to the references to entries: nothing; let the thread have
one, on an entry that is made or on one that the table has; let it drop one;
let the table have one on a fresh entry; or hand that of the table to the
thread. -/
theorem advance_refs (h : s.advance k t alloc = some s') :
    ((s'.pc t).holds? = (s.pc t).holds? ∧ s'.sVnodeHooksHashTable = s.sVnodeHooksHashTable ∧
      s'.counts = s.counts) ∨
    (∃ e, (s.pc t).holds? = none ∧ (s'.pc t).holds? = some e ∧
      s'.sVnodeHooksHashTable = s.sVnodeHooksHashTable ∧
      s'.counts = Function.update s.counts e (s.counts e + 1) ∧
      (s.counts e = 0 ∨
        (s.lock = none ∧ (∃ w, s.sVnodeHooksHashTable w = some e) ∧ ¬ (s'.pc t).Fresh e))) ∨
    (∃ e, (s.pc t).holds? = some e ∧ (s'.pc t).holds? = none ∧
      s'.sVnodeHooksHashTable = s.sVnodeHooksHashTable ∧
      s'.counts = Function.update s.counts e (s.counts e - 1)) ∨
    (∃ v e, s.pc t = .hookRecheck v e ∧ s'.pc t = .hookLoop v e gQvrVnodeVopHookEntries ∧
      s.sVnodeHooksHashTable v.vOp = none ∧
      s'.sVnodeHooksHashTable = Function.update s.sVnodeHooksHashTable v.vOp (some e) ∧
      s'.counts = Function.update s.counts e (s.counts e + 1)) ∨
    (∃ v e, s.pc t = .unhookRemove v ∧ s'.pc t = .unhookLoop v e gQvrVnodeVopHookEntries ∧
      s.sVnodeHooksHashTable v.vOp = some e ∧
      s'.sVnodeHooksHashTable = Function.update s.sVnodeHooksHashTable v.vOp none ∧
      s'.counts = s.counts) := by
  revert h
  fun_cases Hooks.advance k s t alloc <;> intro h <;> cases h
  all_goals simp_all [Hooks.goto, Hooks.modifyEntry, Hooks.counts_eq, holds?, Fresh,
    update_retainCount, QvrVnodeHookEntry.retain, QvrVnodeHookEntry.release,
    QvrVnodeHookEntry.newEntry, QvrVnodeHookEntry.incrementVnodeCounter,
    QvrVnodeHookEntry.decrementVnodeCounter]
  all_goals exact .inr ⟨_, ‹_›⟩

/-- A fresh entry of a thread was fresh before, or has just been made. -/
theorem advance_fresh {e : Nat} (h : s.advance k t alloc = some s') (hfresh : (s'.pc t).Fresh e) :
    (s.pc t).Fresh e ∨ s.counts e = 0 := by
  revert h
  fun_cases Hooks.advance k s t alloc <;> intro h <;> cases h
  all_goals simp_all [Hooks.goto, Hooks.modifyEntry, Hooks.counts_eq, Fresh]

/-- The loop that writes a vector is entered with all of the table before it. -/
theorem advance_hookLoop {v : VnodeT Vnode OpVec} {e : Nat}
    {descs : List (VnodeopvEntryDesc Hook)} (h : s.advance k t alloc = some s')
    (hloop : s'.pc t = .hookLoop v e descs) :
    (∃ desc, s.pc t = .hookLoop v e (desc :: descs)) ∨
    (s.pc t = .hookRecheck v e ∧ descs = gQvrVnodeVopHookEntries) := by
  revert h
  fun_cases Hooks.advance k s t alloc <;> intro h <;> cases h
  all_goals simp_all [Hooks.goto, Hooks.modifyEntry]

/-- What a step does to the vectors, to the table and to what the entries have
saved: nothing; make an entry; put a fresh entry into the table and start to
write the vector; write a slot; take an entry out of the table and start to
restore its vector; restore a slot. -/
theorem advance_vectors (h : s.advance k t alloc = some s') :
    (SameVectors s s' ∧ (∀ w, ¬ (s'.pc t).Writing w) ∧
      ∀ w, (s.pc t).Writing w → ∃ v e, v.vOp = w ∧
        (s.pc t = .hookLoop v e [] ∨ s.pc t = .unhookLoop v e [])) ∨
    (∃ v e, s.pc t = .hookNewEntry v ∧ s'.pc t = .hookLock v e ∧ s.counts e = 0 ∧
      s'.slots = s.slots ∧ s'.sVnodeHooksHashTable = s.sVnodeHooksHashTable ∧
      s'.saved = Function.update s.saved e fun _ => .null) ∨
    (∃ v e, s.pc t = .hookRecheck v e ∧ s'.pc t = .hookLoop v e gQvrVnodeVopHookEntries ∧
      s.sVnodeHooksHashTable v.vOp = none ∧ s'.slots = s.slots ∧
      s'.sVnodeHooksHashTable = Function.update s.sVnodeHooksHashTable v.vOp (some e) ∧
      s'.saved = s.saved) ∨
    (∃ v e desc descs, s.pc t = .hookLoop v e (desc :: descs) ∧
      s' = (s.hookSlot k v e desc).goto t (.hookLoop v e descs)) ∨
    (∃ v e, s.pc t = .unhookRemove v ∧ s'.pc t = .unhookLoop v e gQvrVnodeVopHookEntries ∧
      s.sVnodeHooksHashTable v.vOp = some e ∧ s'.slots = s.slots ∧
      s'.sVnodeHooksHashTable = Function.update s.sVnodeHooksHashTable v.vOp none ∧
      s'.saved = s.saved) ∨
    (∃ v e desc descs, s.pc t = .unhookLoop v e (desc :: descs) ∧
      s' = (s.unhookSlot k v e desc).goto t (.unhookLoop v e descs)) := by
  revert h
  fun_cases Hooks.advance k s t alloc <;> intro h <;> cases h
  -- the loop over the operations is through
  case case15 v e hp =>
    exact .inl ⟨⟨rfl, rfl, rfl⟩, by simp [Hooks.goto, Writing], fun w hw => ⟨v, e, by
      rw [hp] at hw
      exact ⟨hw, .inl hp⟩⟩⟩
  -- the loop that restores is through
  case case36 v e hp =>
    exact .inl ⟨⟨rfl, rfl, rfl⟩, by simp [Hooks.goto, Writing], fun w hw => ⟨v, e, by
      rw [hp] at hw
      exact ⟨hw, .inr hp⟩⟩⟩
  all_goals simp_all [Hooks.goto, Hooks.modifyEntry, Hooks.counts_eq, Hooks.saved_eq, Writing,
    update_origVop,
    sameVectors_iff, QvrVnodeHookEntry.retain, QvrVnodeHookEntry.release,
    QvrVnodeHookEntry.newEntry, QvrVnodeHookEntry.incrementVnodeCounter,
    QvrVnodeHookEntry.decrementVnodeCounter]

/-- An entry to be read has been found in the table. -/
theorem advance_read {v : VnodeT Vnode OpVec} {indx : QvrVopEnum} {e : Nat}
    (h : s.advance k t alloc = some s') (hread : s'.pc t = .getRead v indx e) :
    s.lock = none ∧ s.sVnodeHooksHashTable v.vOp = some e := by
  revert h
  fun_cases Hooks.advance k s t alloc <;> intro h <;> cases h
  all_goals simp_all [Hooks.goto, Hooks.modifyEntry]

/-- What `QvrGetOriginalVnodeOp` has found was read from an entry, or from the
vector while the table has no entry for it. -/
theorem advance_found {v : VnodeT Vnode OpVec} {indx : QvrVopEnum} {f : Vopfunc}
    (h : s.advance k t alloc = some s') (hfound : (s'.pc t).Found v indx f) :
    (s.pc t).Found v indx f ∨
    (∃ e, s.pc t = .getRead v indx e ∧ s.saved e indx = f) ∨
    (s.lock = none ∧ s.sVnodeHooksHashTable v.vOp = none ∧
      ∃ offset, offsetOf k indx = some offset ∧ s.slots v.vOp offset = f) := by
  revert h
  fun_cases Hooks.advance k s t alloc <;> intro h <;> cases h
  all_goals simp_all [Hooks.goto, Hooks.modifyEntry, Found, Hooks.saved,
    QvrVnodeHookEntry.getOrignalVop]
  all_goals
    obtain ⟨rfl, rfl, rfl⟩ := hfound
    simp

section Vnodes

variable {v : VnodeT Vnode OpVec}

/-- A thread hooks the vnode that it was called for. -/
theorem advance_hookArg (h : s.advance k t alloc = some s')
    (harg : (s'.pc t).hookArg? = some v) : (s.pc t).hookArg? = some v := by
  revert h
  fun_cases Hooks.advance k s t alloc <;> intro h <;> cases h
  all_goals simp_all [Hooks.goto, Hooks.modifyEntry, hookArg?]

/-- A thread unhooks the vnode that it was called for. -/
theorem advance_unhookArg (h : s.advance k t alloc = some s')
    (harg : (s'.pc t).unhookArg? = some v) : (s.pc t).unhookArg? = some v := by
  revert h
  fun_cases Hooks.advance k s t alloc <;> intro h <;> cases h
  all_goals simp_all [Hooks.goto, Hooks.modifyEntry, unhookArg?]

/-- What a step does to `InstanceForHookedVnodes`. -/
theorem advance_hooked (h : s.advance k t alloc = some s') :
    s'.instanceForHookedVnodes = s.instanceForHookedVnodes ∨
    (∃ v, s.pc t = .hookAddVnode v ∧ alloc.isSome = true ∧ s'.instanceForHookedVnodes =
      (s.instanceForHookedVnodes.addDataByKey v.vnode v.vnode true).1) ∨
    (∃ v e, s.pc t = .unhookRemoveVnode v e ∧ s'.instanceForHookedVnodes =
      s.instanceForHookedVnodes.removeKey v.vnode) := by
  revert h
  fun_cases Hooks.advance k s t alloc <;> intro h <;> cases h
  case case19 v hp =>
    cases alloc with
    | none => exact .inl rfl
    | some e => exact .inr (.inl ⟨v, hp, rfl, rfl⟩)
  all_goals simp_all [Hooks.goto, Hooks.modifyEntry]

/-- A thread that unhooks a vnode either goes on, or removes it, or finds that
it is not one to unhook, or that its vector has no entry. -/
theorem advance_recorded (h : s.advance k t alloc = some s') (hrec : (s.pc t).Recorded v) :
    (s'.pc t).Recorded v ∨ s'.instanceForHookedVnodes.getDataByKey v.vnode = none ∨
      v.vtype ≠ .vreg ∨ s.sVnodeHooksHashTable v.vOp = none := by
  revert h
  fun_cases Hooks.advance k s t alloc <;> intro h <;> cases h
  all_goals simp_all [Hooks.goto, Hooks.modifyEntry, Recorded]
  case case20 => tauto

end Vnodes

end VfsRedirector.VNodeHook
