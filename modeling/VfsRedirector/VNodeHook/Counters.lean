import VfsRedirector.VNodeHook.Original

/-!
# VNodeHook: the counters of the entries

What an entry counts, and when an entry is taken out of the table. A vnode is
accounted for while it is recorded in `InstanceForHookedVnodes`, and so is a
thread that has counted a vnode and not recorded it yet, or no longer recorded it
and not uncounted it. `advance_counters` says in which ways a step can change the
counters, the table and what is accounted for.

## Results

* `advance_counters` — what an operation does to the counters and the records.
* `advance_table` — what it does to the table.
* `advance_removes`, `advance_removing` — who is about to take an entry out.
-/

namespace VfsRedirector.VNodeHook

open Library HookPc

variable {Thread Vnode OpVec : Type}

namespace HookPc

/-- The vnode that the thread has counted in an entry and that is not recorded. -/
def counts? : HookPc Vnode OpVec → Option (VnodeT Vnode OpVec)
  | .hookLoop v _ _ | .hookUnlock v _ true | .hookReleaseNew v _ true | .hookAddVnode v
  | .unhookDecrement v _ => some v
  | _ => none

/-- The vector for which the thread has brought a counter to zero and waits for the
lock. -/
def waits? : HookPc Vnode OpVec → Option OpVec
  | .unhookLock v _ => some v.vOp
  | _ => none

/-- The thread is going to take out the entry, whose counter it has brought to zero. -/
def removes? : HookPc Vnode OpVec → Option (OpVec × Nat)
  | .unhookLock v e | .unhookCheck v e | .unhookDrop v e => some (v.vOp, e)
  | _ => none

/-- The thread is going to call `RemoveEntry` for the vector. -/
def Removing : HookPc Vnode OpVec → OpVec → Prop
  | .unhookLock v _, w | .unhookCheck v _, w | .unhookDrop v _, w | .unhookRemove v, w => v.vOp = w
  | _, _ => False

end HookPc

/-- `vNodeCounter` of the entry. -/
def Hooks.counter (s : Hooks Thread Vnode OpVec) (e : Nat) : Int32 := (s.entries e).vNodeCounter

theorem Hooks.counter_eq (s : Hooks Thread Vnode OpVec) :
    s.counter = fun e => (s.entries e).vNodeCounter := rfl

/-- To update an entry updates its counter of vnodes. -/
theorem update_vNodeCounter (f : Nat → QvrVnodeHookEntry) (e : Nat) (x : QvrVnodeHookEntry) :
    (fun e' => (Function.update f e x e').vNodeCounter) =
      Function.update (fun e' => (f e').vNodeCounter) e x.vNodeCounter :=
  funext fun e' => Function.apply_update (fun _ x => QvrVnodeHookEntry.vNodeCounter x) f e x e'

/-- The vnode is in `InstanceForHookedVnodes`. -/
def Hooks.Records (s : Hooks Thread Vnode OpVec) [DecidableEq Vnode] (x : Vnode) : Prop :=
  s.instanceForHookedVnodes.getDataByKey x ≠ none

section Steps

variable [DecidableEq OpVec] {k : Kernel} {s s' : Hooks Thread Vnode OpVec}
variable {v : VnodeT Vnode OpVec} {e : Nat} {desc : VnodeopvEntryDesc Hook}

@[simp] theorem hookSlot_counter : (s.hookSlot k v e desc).counter = s.counter := by
  unfold Hooks.hookSlot
  split
  · rfl
  · split <;> simp [Hooks.modifyEntry, Hooks.writeSlot, Hooks.counter_eq, update_vNodeCounter,
      QvrVnodeHookEntry.setOriginalVopAsNotHooked, QvrVnodeHookEntry.setOriginalVop]

variable [DecidableEq Thread] [DecidableEq Vnode] {t : Thread} {alloc : Option Nat}

/-- What a step does to the counters, the table, `InstanceForHookedVnodes` and what
the thread has counted: nothing; it makes an entry; counts a vnode that is not
going to be recorded; counts one in an entry of the table; puts an entry into the
table and counts one in it; records a vnode; removes the record of one; uncounts
one; or takes an entry out of the table. -/
theorem advance_counters (h : s.advance k t alloc = some s') :
    (s'.counter = s.counter ∧ s'.sVnodeHooksHashTable = s.sVnodeHooksHashTable ∧
      s'.instanceForHookedVnodes = s.instanceForHookedVnodes ∧
      (s'.pc t).counts? = (s.pc t).counts?) ∨
    (∃ v e, s.pc t = .hookNewEntry v ∧ s.counts e = 0 ∧
      s'.counter = Function.update s.counter e 0 ∧
      s'.sVnodeHooksHashTable = s.sVnodeHooksHashTable ∧
      s'.instanceForHookedVnodes = s.instanceForHookedVnodes ∧
      (s'.pc t).counts? = (s.pc t).counts?) ∨
    (∃ v e, s.pc t = .hookRetrieve v ∧ s.lock = none ∧
      s.sVnodeHooksHashTable v.vOp = some e ∧
      s'.counter = Function.update s.counter e (s.counter e + 1) ∧
      s'.sVnodeHooksHashTable = s.sVnodeHooksHashTable ∧
      s'.instanceForHookedVnodes = s.instanceForHookedVnodes ∧
      (s'.pc t).counts? = (s.pc t).counts?) ∨
    (∃ v newEntry e, s.pc t = .hookRecheck v newEntry ∧ s.sVnodeHooksHashTable v.vOp = some e ∧
      s'.counter = Function.update s.counter e (s.counter e + 1) ∧
      s'.sVnodeHooksHashTable = s.sVnodeHooksHashTable ∧
      s'.instanceForHookedVnodes = s.instanceForHookedVnodes ∧
      (s'.pc t).counts? = some v) ∨
    (∃ v e, s.pc t = .hookRecheck v e ∧ s.sVnodeHooksHashTable v.vOp = none ∧
      s'.counter = Function.update s.counter e (s.counter e + 1) ∧
      s'.sVnodeHooksHashTable = Function.update s.sVnodeHooksHashTable v.vOp (some e) ∧
      s'.instanceForHookedVnodes = s.instanceForHookedVnodes ∧
      (s'.pc t).counts? = some v) ∨
    (∃ v, s.pc t = .hookAddVnode v ∧ s'.counter = s.counter ∧
      s'.sVnodeHooksHashTable = s.sVnodeHooksHashTable ∧
      s'.instanceForHookedVnodes =
        (s.instanceForHookedVnodes.addDataByKey v.vnode v.vnode alloc.isSome).1 ∧
      (s'.pc t).counts? = none) ∨
    (∃ v e, s.pc t = .unhookRemoveVnode v e ∧ s'.pc t = .unhookDecrement v e ∧
      s'.counter = s.counter ∧ s'.sVnodeHooksHashTable = s.sVnodeHooksHashTable ∧
      s'.instanceForHookedVnodes = s.instanceForHookedVnodes.removeKey v.vnode) ∨
    (∃ v e, s.pc t = .unhookDecrement v e ∧ (s.counter e = 1 → s'.pc t = .unhookLock v e) ∧
      s'.counter = Function.update s.counter e (s.counter e - 1) ∧
      s'.sVnodeHooksHashTable = s.sVnodeHooksHashTable ∧
      s'.instanceForHookedVnodes = s.instanceForHookedVnodes ∧
      (s'.pc t).counts? = none) ∨
    (∃ v e, s.pc t = .unhookRemove v ∧ s.sVnodeHooksHashTable v.vOp = some e ∧
      s'.counter = s.counter ∧
      s'.sVnodeHooksHashTable = Function.update s.sVnodeHooksHashTable v.vOp none ∧
      s'.instanceForHookedVnodes = s.instanceForHookedVnodes ∧
      (s'.pc t).counts? = none) := by
  revert h
  fun_cases Hooks.advance k s t alloc <;> intro h <;> cases h
  -- a new entry has its counter set to 0
  case case7 v hp e hfree =>
    refine .inr (.inl ⟨v, e, hp, hfree, ?_, rfl, rfl, ?_⟩)
    · exact update_vNodeCounter _ _ _
    · rw [hp]
      simp [Hooks.goto, counts?]
  -- a loop step writes one slot and one saved operation, and no counter
  case case14 v newEntry desc descs hp =>
    refine .inl ⟨hookSlot_counter, hookSlot_table, hookSlot_vnodes, ?_⟩
    rw [hp]
    simp [Hooks.goto, counts?]
  -- what the thread goes on to depends on the loop's result, but it counts the vnode in neither
  -- case
  case case16 v newEntry success hp =>
    refine .inl ⟨rfl, rfl, rfl, ?_⟩
    rw [hp]
    cases success <;> simp [Hooks.goto, counts?]
  all_goals simp_all [Hooks.goto, Hooks.modifyEntry, Hooks.counter_eq, counts?, update_vNodeCounter,
    QvrVnodeHookEntry.retain, QvrVnodeHookEntry.release, QvrVnodeHookEntry.incrementVnodeCounter,
    QvrVnodeHookEntry.decrementVnodeCounter]

/-- A table that a step has changed. -/
theorem advance_table (h : s.advance k t alloc = some s') :
    s'.sVnodeHooksHashTable = s.sVnodeHooksHashTable ∨
    (∃ v e, s.pc t = .hookRecheck v e ∧ s.sVnodeHooksHashTable v.vOp = none ∧
      s'.sVnodeHooksHashTable = Function.update s.sVnodeHooksHashTable v.vOp (some e) ∧
      s'.counter e = s.counter e + 1) ∨
    (∃ v e, s.pc t = .unhookRemove v ∧ s.sVnodeHooksHashTable v.vOp = some e ∧
      s'.sVnodeHooksHashTable = Function.update s.sVnodeHooksHashTable v.vOp none) := by
  obtain ⟨-, htable, -⟩ | ⟨-, -, -, -, -, htable, -⟩ | ⟨-, -, -, -, -, -, htable, -⟩ |
    ⟨-, -, -, -, -, -, htable, -⟩ | ⟨v, e, hp, hnone, hcounter, htable, -⟩ | ⟨-, -, -, htable, -⟩ |
    ⟨-, -, -, -, -, htable, -⟩ | ⟨-, -, -, -, -, htable, -⟩ | ⟨v, e, hp, he, -, htable, -⟩ :=
    advance_counters h
  case inr.inr.inr.inr.inl =>
    refine .inr (.inl ⟨v, e, hp, hnone, htable, ?_⟩)
    rw [hcounter, Function.update_self]
  case inr.inr.inr.inr.inr.inr.inr.inr => exact .inr (.inr ⟨v, e, hp, he, htable⟩)
  all_goals exact .inl htable

/-- A thread that is going to take out an entry was so before, or has just brought
the counter of the entry to zero. -/
theorem advance_removes {x : OpVec × Nat} (h : s.advance k t alloc = some s')
    (hx : (s'.pc t).removes? = some x) :
    (s.pc t).removes? = some x ∨
      ∃ v, s.pc t = .unhookDecrement v x.2 ∧ v.vOp = x.1 ∧ s.counter x.2 = 1 := by
  revert h
  fun_cases Hooks.advance k s t alloc <;> intro h <;> cases h
  all_goals simp_all [Hooks.goto, Hooks.modifyEntry, removes?, Hooks.counter]
  all_goals
    subst hx
    simp [*]

/-- A thread that is to take an entry out goes on to do so, or has seen that the counter is not
zero. -/
theorem advance_removing {w : OpVec} (h : s.advance k t alloc = some s')
    (hw : (s.pc t).Removing w) :
    (s'.pc t).Removing w ∨ s'.sVnodeHooksHashTable w = none ∨
      ∃ v e, s.pc t = .unhookCheck v e ∧ v.vOp = w ∧ s.counter e ≠ 0 := by
  revert h
  fun_cases Hooks.advance k s t alloc <;> intro h <;> cases h
  all_goals simp_all [Hooks.goto, Hooks.modifyEntry, Removing, Hooks.counter]

/-- The counter was zero when it was checked. -/
theorem advance_drop (h : s.advance k t alloc = some s') (hdrop : s'.pc t = .unhookDrop v e) :
    s.pc t = .unhookCheck v e ∧ s.counter e = 0 ∧ s'.counter = s.counter := by
  revert h
  fun_cases Hooks.advance k s t alloc <;> intro h <;> cases h
  all_goals simp_all [Hooks.goto, Hooks.modifyEntry, Hooks.counter_eq]

/-- A thread about to take an entry out has come from the check of its counter. -/
theorem advance_remove (h : s.advance k t alloc = some s') (hremove : s'.pc t = .unhookRemove v) :
    ∃ e, s.pc t = .unhookDrop v e ∧ s'.counter = s.counter := by
  revert h
  fun_cases Hooks.advance k s t alloc <;> intro h <;> cases h
  all_goals simp_all [Hooks.goto, Hooks.modifyEntry, Hooks.counter_eq, update_vNodeCounter,
    QvrVnodeHookEntry.release]

/-- A thread about to uncount a vnode has just removed its record. -/
theorem advance_decrement (h : s.advance k t alloc = some s')
    (hdecrement : s'.pc t = .unhookDecrement v e) : s.pc t = .unhookRemoveVnode v e := by
  revert h
  fun_cases Hooks.advance k s t alloc <;> intro h <;> cases h
  all_goals simp_all [Hooks.goto, Hooks.modifyEntry]

/-- The counter of a fresh entry is that of a new one. -/
theorem advance_fresh_counter (h : s.advance k t alloc = some s') (hfresh : (s'.pc t).Fresh e) :
    s'.counter e = 0 ∨ ((s.pc t).Fresh e ∧ s'.counter = s.counter) := by
  revert h
  fun_cases Hooks.advance k s t alloc <;> intro h <;> cases h
  all_goals simp_all [Hooks.goto, Hooks.modifyEntry, Hooks.counter_eq, Fresh,
    QvrVnodeHookEntry.newEntry]

end Steps

end VfsRedirector.VNodeHook
