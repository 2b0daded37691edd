import VfsRedirector.VNodeHook.Vectors

/-!
# VNodeHook: hooks always find the functions they stand for

`originals_kept`: in every run, whatever the threads do, what
`QvrGetOriginalVnodeOp` returns for a listed operation is the function that the
file system had in the vector, and whenever nobody has the lock of the table in
exclusive mode each vector is either hooked in all listed slots or wholly as it
was, according to whether the table has an entry for it.

## Results

* `VectorInv.unlocked` — without the lock a vector is hooked wholly or not at all.
* `originals_kept` — a hook finds the original of its operation, in every state.
-/

namespace VfsRedirector.VNodeHook

open Library HookPc

variable {Thread Vnode OpVec : Type} [DecidableEq Thread] [DecidableEq Vnode] [DecidableEq OpVec]
variable {k : Kernel} {initialOps : OpVec → Nat → Nat} {s : Hooks Thread Vnode OpVec}

/-- In a call of `QvrGetOriginalVnodeOp` for the index. -/
def HookPc.Getting : HookPc Vnode OpVec → QvrVopEnum → Prop
  | .getRetrieve _ indx₀, indx | .getRetrieveAgain _ indx₀, indx | .getRead _ indx₀ _, indx
  | .getRelease _ indx₀ _ _, indx | .getReturn _ indx₀ _, indx => indx₀ = indx
  | _, _ => False

/-- The thread in the exclusive region always has a next step. -/
theorem exclusive_enabled {t : Thread} (h : (s.pc t).Exclusive) :
    ∃ s', s.advance k t none = some s' := by
  rw [← Option.isSome_iff_exists]
  cases hp : s.pc t <;> rw [hp] at h <;> first | exact h.elim | skip
  case hookRecheck v e =>
    cases htable : s.sVnodeHooksHashTable v.vOp <;> simp [Hooks.advance, hp, htable]
  case hookLoop v e descs => cases descs <;> simp [Hooks.advance, hp]
  case unhookCheck v e =>
    by_cases hc : (s.entries e).vNodeCounter = 0 <;> simp [Hooks.advance, hp, hc]
  case unhookRemove v =>
    cases htable : s.sVnodeHooksHashTable v.vOp <;> simp [Hooks.advance, hp, htable]
  case unhookLoop v e descs => cases descs <;> simp [Hooks.advance, hp]
  case unhookUnlock existingEntry => cases existingEntry <;> simp [Hooks.advance, hp]
  all_goals simp [Hooks.advance, hp]

/-- A call for a listed operation has a next step unless the lock is taken. -/
theorem getting_enabled {t : Thread} {desc : VnodeopvEntryDesc Hook}
    (hmem : desc ∈ gQvrVnodeVopHookEntries) (h : (s.pc t).Getting desc.opveOp.indx)
    (hlock : s.lock = none) : ∃ s', s.advance k t none = some s' := by
  rw [← Option.isSome_iff_exists]
  cases hp : s.pc t <;> rw [hp] at h <;> first | exact h.elim | cases h
  case getRetrieve v =>
    cases htable : s.sVnodeHooksHashTable v.vOp <;> simp [Hooks.advance, hp, hlock, htable]
  case getRetrieveAgain v =>
    cases htable : s.sVnodeHooksHashTable v.vOp <;>
      simp [Hooks.advance, hp, hlock, htable, offsetOf_listed k desc hmem]
  all_goals simp [Hooks.advance, hp]

omit [DecidableEq Thread] [DecidableEq Vnode] [DecidableEq OpVec] in
/-- While nobody has the lock, a vector is hooked wholly or not at all. -/
theorem VectorInv.unlocked (hs : VectorInv k initialOps s) (hr : RefInv s) (hlock : s.lock = none)
    (w : OpVec) :
    (∀ e, s.sVnodeHooksHashTable w = some e → ∀ desc ∈ gQvrVnodeVopHookEntries,
      s.slots w (k.vnopOffset desc.opveOp) = .hook desc.opveImpl) ∧
    (s.sVnodeHooksHashTable w = none → ∀ offset,
      s.slots w offset = .fsd (initialOps w offset)) := by
  have hstill := hs.still w fun t => hr.not_writing hlock t w
  refine ⟨fun e he desc hmem => ?_, fun hnone offset => ?_⟩
  · rw [he] at hstill
    rw [hstill]
    exact written_listed listed_nodup hmem
  · rw [hnone] at hstill
    rw [hstill]
    rfl

/-- **Hooks find their originals, and vectors are hooked wholly or not at
all.** For every state of every run: what a call for a listed operation returns
is what the vector had at first, and such a call is held up by nothing but an
exclusive region, whose thread can go on; and while the lock is free, a vector
that the table has an entry for holds the hooks in all listed slots, and one
that it has none for holds what it held at first in every slot. -/
theorem originals_kept (h : Reachable (hookSystem k initialOps) s) :
    (∀ t v indx f, s.pc t = .getReturn v indx f → ∀ desc ∈ gQvrVnodeVopHookEntries,
      desc.opveOp.indx = indx → f = .fsd (initialOps v.vOp (k.vnopOffset desc.opveOp))) ∧
    (∀ t, ∀ desc ∈ gQvrVnodeVopHookEntries, (s.pc t).Getting desc.opveOp.indx →
      ∃ u s', (u = t ∨ s.lock = some u) ∧ s.advance k u none = some s') ∧
    (s.lock = none → ∀ w,
      (∀ e, s.sVnodeHooksHashTable w = some e → ∀ desc ∈ gQvrVnodeVopHookEntries,
        s.slots w (k.vnopOffset desc.opveOp) = .hook desc.opveImpl) ∧
      (s.sVnodeHooksHashTable w = none → ∀ offset,
        s.slots w offset = .fsd (initialOps w offset))) := by
  have hr := RefInv.reachable h
  have hs := VectorInv.reachable h
  refine ⟨fun t v indx f hp => ?_, fun t desc hmem hget => ?_, hs.unlocked hr⟩
  · refine hs.found t v indx f ?_
    rw [hp]
    exact ⟨rfl, rfl, rfl⟩
  · cases hlock : s.lock with
    | none =>
      obtain ⟨s', hs'⟩ := getting_enabled (k := k) hmem hget hlock
      exact ⟨t, s', .inl rfl, hs'⟩
    | some u =>
      obtain ⟨s', hs'⟩ := exclusive_enabled (k := k) ((hr.lock_iff u).mpr hlock)
      exact ⟨u, s', .inr rfl, hs'⟩

/-- Different operations have different numbers. -/
theorem VnodeopDesc.ctorIdx_injective : Function.Injective VnodeopDesc.ctorIdx := by
  intro d d' h
  cases d <;> cases d' <;> first | rfl | cases h

/-- Descriptors in the order of `VnodeopDesc`. -/
def Kernel.inOrder : Kernel where
  vdescOffset := VnodeopDesc.ctorIdx
  distinct := VnodeopDesc.ctorIdx_injective

/-- Thread 0 hooks the vector of a vnode; thread 1 asks for the original of the
reclaim operation while the hooks are being written, when only that slot has
its hook, waits for the lock, and gets it from the entry. -/
theorem originals_kept_run :
    ∃ s : Hooks Nat Nat Nat, ∃ f,
      Reachable (hookSystem .inOrder fun w offset => 100 * w + offset) s ∧
      s.pc 1 = .getReturn ⟨7, 3, .vreg⟩ .reclaim f ∧ f = .fsd 348 ∧ s.lock = none ∧
      s.slots 3 (Kernel.inOrder.vnopOffset .reclaim) = .hook .qvrFsdReclaimHookEx2 ∧
      s.sVnodeHooksHashTable 3 = some 0 := by
  have hrun : ((exec (hookSystem .inOrder fun w offset => 100 * w + offset)
      (Hooks.initial fun w offset => 100 * w + offset : Hooks Nat Nat Nat)
      ([.hook 0 ⟨7, 3, .vreg⟩ false] ++ List.replicate 5 (.advance 0 (some 0)) ++
        [.getOriginal 1 ⟨7, 3, .vreg⟩ .reclaim] ++ List.replicate 14 (.advance 0 (some 0)) ++
        List.replicate 3 (.advance 1 none))).any fun s =>
      s.pc 1 = .getReturn ⟨7, 3, .vreg⟩ .reclaim (s.saved 0 .reclaim) ∧ s.lock = none ∧
      s.sVnodeHooksHashTable 3 = some 0) = true := by decide +kernel
  rw [Option.any_eq_true] at hrun
  obtain ⟨s, hexec, hfacts⟩ := hrun
  obtain ⟨hp, hlock, htable⟩ := of_decide_eq_true hfacts
  have hreach := ReachableBy.exec (.init rfl) _ hexec
  obtain ⟨hreturn, -, hvectors⟩ := originals_kept hreach
  refine ⟨s, _, hreach, hp, ?_, hlock, ?_, htable⟩
  · exact hreturn 1 _ _ _ hp ⟨.reclaim, .qvrFsdReclaimHookEx2⟩ (by decide) rfl
  · exact (hvectors hlock 3).1 0 htable ⟨.reclaim, .qvrFsdReclaimHookEx2⟩ (by decide)

end VfsRedirector.VNodeHook
