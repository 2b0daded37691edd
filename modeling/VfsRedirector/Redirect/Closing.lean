import Mathlib.Data.Fintype.Basic
import VfsRedirector.Client.Close
import VfsRedirector.Redirect.Requests
import VfsRedirector.VNode.References

/-!
# Hooks at work while the client closes

`VFSFilter0UserClient::close` removes all entries of `InstanceForVnodeIO` and of
`InstanceForShadowToVnode`, whose iocounts would keep a file system from being
unmounted, and then has `unregisterUserClient` wait for the threads that hold the
client. These are in the middle of a hook: what the hook does after its call of the
client, which may be to add entries to the maps, it does while the close waits, or
later.

The model puts the hooks of all threads, `com_VFSFilter0` and the close together. A call
that goes to the client is made between `getClient`, which may find none, and `putClient`.
The invocations are numbered, and it is recorded which one added an entry, and which ones
hold the client when a close begins. The iocounts of the entries are left out here;
`References` has them.

The release is kept in every run in which these add their entries in time
(`release_kept`): before the loop of the close has found the map empty, or after the
close. A step that does not undoes it (`late_undoes`), and a lookup can take one
(`release_kept_fails`).

## Results

* `driver_step_cases` — what a step does to the maps and to the closes.
* `releasedInv_step` — a step in time keeps what a close has released.
* `late_undoes` — a step that is late does not.
* `release_kept` — in a run of steps in time the maps stay released.
-/

namespace VfsRedirector

open Library References

/-- Where a thread stands in a call that goes to the client. -/
inductive ClientCall where
  | outside
  /-- `getClient` has been called, and `putClient` has not. -/
  | getting
  | put
  deriving DecidableEq

/-- Where a thread stands in `VFSFilter0UserClient::close`, from where the provider has
been found not to be NULL. -/
inductive ClosePc where
  | idle
  -- the loops of releaseAllVnodeIO and releaseAllShadowReverse
  | isEmpty (map : RefMap)
  | removeFirst (map : RefMap)
  | unregister
  | unregistering
  /-- At `return kIOReturnSuccess`. -/
  | returning
  deriving DecidableEq

/-- The loop for the map has found it empty. -/
def ClosePc.Released : ClosePc → RefMap → Prop
  | .isEmpty .shadowReverse, .vnodeIo | .removeFirst .shadowReverse, .vnodeIo
  | .unregister, _ | .unregistering, _ | .returning, _ => True
  | _, _ => False

instance (p : ClosePc) (map : RefMap) : Decidable (p.Released map) :=
  match p, map with
  | .isEmpty .shadowReverse, .vnodeIo | .removeFirst .shadowReverse, .vnodeIo
  | .unregister, _ | .unregistering, _ | .returning, _ => inferInstanceAs (Decidable True)
  | .idle, _ | .isEmpty .vnodeIo, _ | .removeFirst .vnodeIo, _
  | .isEmpty .shadowReverse, .shadowReverse | .removeFirst .shadowReverse, .shadowReverse =>
    inferInstanceAs (Decidable False)

/-- Calls of the client, and the question whether the caller is the client. -/
def KernelOp.usesClient {Vnode : Type} : KernelOp Vnode → Bool
  | .filter .. | .callDaemon _ | .exchangeFiles .. | .audit _ | .auditVnode .. | .isUserClient =>
    true
  | _ => false

/-- What such a call returns if there is no client. -/
def Outcome.noClient {Vnode : Type} (c : Outcome Vnode) : KernelOp Vnode → Bool
  | .filter op path => !c.result (.filter op path)
  | .isUserClient => !c.result .isUserClient
  | _ => true

/-- The entry that a call adds, or replaces by another one. -/
def KernelOp.adds? {Vnode : Type} [DecidableEq Vnode] (m : VNodeMap Vnode ApplicationData)
    (c : Outcome Vnode) : KernelOp Vnode → Option (RefMap × Vnode)
  | .addVnodeIo vn _ => if c.alloc ∧ m.getVnodeIo vn = none then some (.vnodeIo, vn) else none
  | .addVnodeShadowReverse vnodeShadow vn =>
    if c.alloc ∧ m.getVnodeShadowReverse vnodeShadow ≠ some vn then
      some (.shadowReverse, vnodeShadow)
    else none
  | _ => none

def MapEvent.ofReclaim {Vnode : Type} : MapEvent Vnode → Bool
  | .removeVnodeAppData _ | .removeVnodeIo _ | .removeShadowReverse _ => true
  | .releaseVnodeIo | .releaseShadowReverse => false

/-- The hooks, with the number of each invocation. -/
abbrev NumberedHooks (Thread Vnode : Type) : Type :=
  Threads Thread (Shared Thread Vnode) (@KernelOp.Res Vnode) (Nat × Request Vnode) Int

def numberedHookSystem (Thread Vnode : Type) [DecidableEq Thread] [DecidableEq Vnode] :
    System (NumberedHooks Thread Vnode)
      (ThreadAction Thread (Nat × Request Vnode) (Outcome Vnode) (MapEvent Vnode)) :=
  threadSystem (fun s => s.map = .empty ∧ s.marks = .empty) Shared.effect (fun r => r.2.code)
    fun e s => e.apply s

structure Driver (Thread Vnode : Type) where
  hooks : NumberedHooks Thread Vnode
  gate : Client.Gate Unit Thread
  client : Thread → ClientCall
  close : Thread → ClosePc
  /-- The number of the next invocation. -/
  started : Nat
  /-- The invocation that added the entry for a key. -/
  addedBy : RefMap → Vnode → Option (Thread × Nat)
  /-- For the close of a thread: the invocation of each thread that held the client when
  the close began. -/
  held : Thread → Thread → Option Nat

inductive DriverAction (Thread Vnode : Type) where
  /-- The client's `start` registers it. -/
  | register (t : Thread)
  /-- The next atomic operation of a thread in a function of `com_VFSFilter0`. -/
  | gate (t : Thread)
  | start (t : Thread) (request : Request Vnode)
  | getClient (t : Thread)
  | putClient (t : Thread)
  | call (t : Thread) (answer : Outcome Vnode)
  | finish (t : Thread)
  | reclaim (e : MapEvent Vnode)
  | close (t : Thread)
  | advanceClose (t : Thread)

namespace Driver

variable {Thread Vnode : Type} [DecidableEq Thread] [DecidableEq Vnode]

abbrev map (s : Driver Thread Vnode) : VNodeMap Vnode ApplicationData := s.hooks.shared.map

def entry (s : Driver Thread Vnode) (map : RefMap) : Vnode → Option Vnode :=
  (mapOf s.map map).getDataByKey

/-- The call that the hook of a thread is about to make. -/
def nextCall (s : Driver Thread Vnode) (t : Thread) : Option (KernelOp Vnode) :=
  (s.hooks.stack t).head?.bind fun v => v.code.nextCall

/-- The number of the invocation that a thread is in. -/
def number (s : Driver Thread Vnode) (t : Thread) : Option Nat :=
  (s.hooks.stack t).head?.map fun v => v.request.1

/-- The invocation of each thread that holds the client. -/
def holders (s : Driver Thread Vnode) (t : Thread) : Option Nat :=
  if (s.gate.pc t).Using then s.number t else none

/-- The entry that the next call of a thread adds. -/
def adds? (s : Driver Thread Vnode) (t : Thread) (c : Outcome Vnode) : Option (RefMap × Vnode) :=
  (s.nextCall t).bind fun o => o.adds? s.map c

def stepHooks (s : Driver Thread Vnode)
    (a : ThreadAction Thread (Nat × Request Vnode) (Outcome Vnode) (MapEvent Vnode)) :
    Option (Driver Thread Vnode) :=
  ((numberedHookSystem Thread Vnode).step s.hooks a).map fun hooks => { s with hooks }

def stepGate (s : Driver Thread Vnode) (a : Client.GateAction Unit Thread) :
    Option (Driver Thread Vnode) :=
  (s.gate.step a).map fun gate => { s with gate }

/-- A call of the hook of a thread returns. -/
def stepCall (s : Driver Thread Vnode) (t : Thread) (c : Outcome Vnode) :
    Option (Driver Thread Vnode) :=
  (s.stepHooks (.call t c)).map fun s' =>
    match s.adds? t c with
    | some (map, key) =>
      { s' with
        addedBy := Function.update s.addedBy map
          (Function.update (s.addedBy map) key ((s.number t).map fun n => (t, n))) }
    | none => s'

def stepClose (s : Driver Thread Vnode) (t : Thread) : Option (Driver Thread Vnode) :=
  let goto (s : Driver Thread Vnode) (p : ClosePc) :=
    { s with close := Function.update s.close t p }
  match s.close t with
  | .idle => none
  | .isEmpty map =>
    if (mapOf s.map map).isEmpty then
      match map with
      | .vnodeIo => some (goto s (.isEmpty .shadowReverse))
      | .shadowReverse => some (goto s .unregister)
    else some (goto s (.removeFirst map))
  | .removeFirst map =>
    some { goto s (.isEmpty map) with
      hooks.shared.map := (releaseRegion s.map map).maps }
  | .unregister =>
    (s.stepGate (.call t (.unregisterUserClient ()))).map fun s => goto s .unregistering
  -- what unregisterUserClient returned is not looked at
  | .unregistering => if s.gate.pc t = .idle then some (goto s .returning) else none
  | .returning => some (goto s .idle)

/-- The thread is in no function of the model. -/
def Free (s : Driver Thread Vnode) (t : Thread) : Prop :=
  (s.hooks.stack t).isEmpty ∧ s.gate.pc t = .idle ∧ s.close t = .idle

instance (s : Driver Thread Vnode) (t : Thread) : Decidable (s.Free t) :=
  inferInstanceAs (Decidable (_ ∧ _ ∧ _))

def step (s : Driver Thread Vnode) : DriverAction Thread Vnode → Option (Driver Thread Vnode)
  | .register t =>
    if s.Free t then s.stepGate (.call t (.registerUserClient ())) else none
  | .gate t => s.stepGate (.advance t)
  | .start t request =>
    if s.close t = .idle ∧ s.gate.pc t = .idle ∧ s.client t = .outside then
      (s.stepHooks (.start t (s.started, request))).map fun s' =>
        { s' with started := s.started + 1 }
    else none
  | .getClient t =>
    if s.client t = .outside ∧ (s.nextCall t).any KernelOp.usesClient then
      (s.stepGate (.call t .getClient)).map fun s' =>
        { s' with client := Function.update s.client t .getting }
    else none
  | .putClient t =>
    if s.client t = .getting then
      (s.stepGate (.putClient t)).map fun s' =>
        { s' with client := Function.update s.client t .put }
    else none
  | .call t c =>
    if (s.nextCall t).any KernelOp.usesClient then
      if s.gate.pc t = .idle ∧
          (s.client t = .put ∨ (s.client t = .getting ∧ (s.nextCall t).any c.noClient)) then
        (s.stepCall t c).map fun s' => { s' with client := Function.update s.client t .outside }
      else none
    else s.stepCall t c
  | .finish t => s.stepHooks (.finish t)
  | .reclaim e => if e.ofReclaim then s.stepHooks (.other e) else none
  | .close t =>
    if s.Free t then
      some { s with
        close := Function.update s.close t (.isEmpty .vnodeIo)
        held := Function.update s.held t s.holders }
    else none
  | .advanceClose t => s.stepClose t

def initial (retainCount : Unit → Int) : Driver Thread Vnode where
  hooks := ⟨⟨.empty, .empty⟩, fun _ => []⟩
  gate := .initial retainCount
  client := fun _ => .outside
  close := fun _ => .idle
  started := 0
  addedBy := fun _ _ => none
  held := fun _ _ => none

end Driver

/-- From the load of the filter on. -/
def driverSystem (Thread Vnode : Type) [DecidableEq Thread] [DecidableEq Vnode] :
    System (Driver Thread Vnode) (DriverAction Thread Vnode) where
  init s := ∃ retainCount, s = Driver.initial retainCount
  step := Driver.step

variable {Thread Vnode : Type} [DecidableEq Thread] [DecidableEq Vnode]

-- ---------------------------------------------------------------------------
-- What a step does to the entries
-- ---------------------------------------------------------------------------

section Entries

variable {m : VNodeMap Vnode ApplicationData} {s : Shared Thread Vnode} {t : Thread}
  {o : KernelOp Vnode} {c : Outcome Vnode} {map : RefMap} {key x vn vn' : Vnode}

/-- After an addition the shadow vnode has the entry, if there was memory for it or it was there. -/
theorem getVnodeShadowReverse_addVnodeShadowReverse_self {alloc : Bool} :
    (m.addVnodeShadowReverse vn vn' alloc).1.getVnodeShadowReverse vn =
      if alloc ∨ m.getVnodeShadowReverse vn = some vn' then some vn' else none := by
  unfold VNodeMap.addVnodeShadowReverse
  cases hget : m.getVnodeShadowReverse vn with
  | none =>
    cases alloc with
    | false => simpa [VNodeMap.getVnodeShadowReverse] using hget
    | true => simp [VNodeMap.getVnodeShadowReverse]
  | some current =>
    by_cases hcurrent : vn' = current
    · simp [hcurrent, hget]
    · cases alloc <;> simp [hcurrent, Ne.symm hcurrent, VNodeMap.getVnodeShadowReverse]

/-- The removal of the first entry adds none. -/
theorem getDataByKey_removeFirst_of {m : DataMap Vnode Vnode}
    (h : m.removeFirstEntryAndReturnItsData.1.getDataByKey key = some x) :
    m.getDataByKey key = some x := by
  rw [DataMap.getDataByKey_removeFirst] at h
  split at h
  · cases h
  · exact h

/-- A round of the loop of the close leaves no new entry. -/
theorem getDataByKey_releaseRegion {released : RefMap}
    (h : (mapOf (releaseRegion m released).maps map).getDataByKey key = some x) :
    (mapOf m map).getDataByKey key = some x := by
  cases released <;> cases map
  case vnodeIo.vnodeIo => exact getDataByKey_removeFirst_of h
  case shadowReverse.shadowReverse => exact getDataByKey_removeFirst_of h
  all_goals exact h

omit [DecidableEq Thread] in
/-- A removal outside of the hooks adds no application data. -/
theorem getDataByKey_apply (e : MapEvent Vnode)
    (h : (mapOf (e.apply s).map map).getDataByKey key = some x) :
    (mapOf s.map map).getDataByKey key = some x := by
  cases e <;> cases map
  case removeVnodeIo.vnodeIo vn =>
    change (s.map.removeVnodeIo vn).1.getVnodeIo key = some x at h
    rw [VNodeMap.getVnodeIO_removeVnodeIo] at h
    -- the removed key has nothing; the others have what they had
    split at h
    · cases h
    · exact h
  case removeVnodeIo.shadowReverse vn =>
    change (s.map.removeVnodeIo vn).1.getVnodeShadowReverse key = some x at h
    rwa [VNodeMap.getVnodeShadowReverse_removeVnodeIo] at h
  case removeShadowReverse.vnodeIo vn =>
    change (s.map.removeShadowReverse vn).1.getVnodeIo key = some x at h
    rwa [VNodeMap.getVnodeIO_removeShadowReverse] at h
  case removeShadowReverse.shadowReverse vn =>
    change (s.map.removeShadowReverse vn).1.getVnodeShadowReverse key = some x at h
    rw [VNodeMap.getVnodeShadowReverse_removeShadowReverse] at h
    split at h
    · cases h
    · exact h
  case releaseVnodeIo.vnodeIo => exact getDataByKey_removeFirst_of h
  case releaseShadowReverse.shadowReverse => exact getDataByKey_removeFirst_of h
  all_goals exact h

/-- An entry that is there after a call is the one it adds, or was there before. -/
theorem getDataByKey_effect
    (h : (mapOf (Shared.effect t s o c).1.map map).getDataByKey key = some x) :
    o.adds? s.map c = some (map, key) ∨ (mapOf s.map map).getDataByKey key = some x := by
  cases o with
  | addVnodeIo vn vn' =>
    cases map with
    | shadowReverse =>
      change (s.map.addVnodeIo vn vn' c.alloc).1.getVnodeShadowReverse key = some x at h
      rw [VNodeMap.getVnodeShadowReverse_addVnodeIo] at h
      exact .inr h
    | vnodeIo =>
      change (s.map.addVnodeIo vn vn' c.alloc).1.getVnodeIo key = some x at h
      -- for the key of the call the entry is new or was there; for another it was there
      rcases eq_or_ne key vn with rfl | hkey
      · rw [VNodeMap.getVnodeIo_addVnodeIo_self] at h
        unfold KernelOp.adds?
        split at h
        · next hadds => exact .inl (if_pos hadds)
        · exact .inr h
      · rw [(VNodeMap.addVnodeIO_other hkey).vnodeIo] at h
        exact .inr h
  | addVnodeShadowReverse vn vn' =>
    cases map with
    | vnodeIo =>
      change (s.map.addVnodeShadowReverse vn vn' c.alloc).1.getVnodeIo key = some x at h
      rw [VNodeMap.getVnodeIO_addVnodeShadowReverse] at h
      exact .inr h
    | shadowReverse =>
      change (s.map.addVnodeShadowReverse vn vn' c.alloc).1.getVnodeShadowReverse key = some x at h
      rcases eq_or_ne key vn with rfl | hkey
      · rw [getVnodeShadowReverse_addVnodeShadowReverse_self] at h
        unfold KernelOp.adds?
        by_cases hget : s.map.getVnodeShadowReverse key = some vn'
        · rw [if_pos (.inr hget)] at h
          exact .inr (hget.trans h)
        · split at h
          · next hadds => exact .inl (if_pos ⟨hadds.resolve_right hget, hget⟩)
          · cases h
      · rw [(VNodeMap.addVnodeShadowReverse_other hkey).shadowReverse] at h
        exact .inr h
  | removeVnodeIo vn => exact .inr (getDataByKey_apply (.removeVnodeIo vn) h)
  | removeShadowReverse vn => exact .inr (getDataByKey_apply (.removeShadowReverse vn) h)
  | _ => exact .inr h

/-- The entry that a call adds is there after it. -/
theorem effect_adds (h : o.adds? s.map c = some (map, key)) :
    ∃ x, (mapOf (Shared.effect t s o c).1.map map).getDataByKey key = some x := by
  unfold KernelOp.adds? at h
  split at h
  · next vn vn' =>
    split at h
    · next hadds =>
      cases h
      refine ⟨vn', ?_⟩
      change (s.map.addVnodeIo key vn' c.alloc).1.getVnodeIo key = some vn'
      rw [VNodeMap.getVnodeIo_addVnodeIo_self, if_pos hadds]
    · cases h
  · next vn vn' =>
    split at h
    · next hadds =>
      cases h
      refine ⟨vn', ?_⟩
      change (s.map.addVnodeShadowReverse key vn' c.alloc).1.getVnodeShadowReverse key = some vn'
      rw [getVnodeShadowReverse_addVnodeShadowReverse_self, if_pos (.inl hadds.1)]
    · cases h
  · cases h

end Entries

-- ---------------------------------------------------------------------------
-- What a step does to a close
-- ---------------------------------------------------------------------------

section Steps

variable {s s' : Driver Thread Vnode} {a : DriverAction Thread Vnode} {t u : Thread}
  {c : Outcome Vnode} {map : RefMap} {key x : Vnode} {n : Nat}

/-- No entry is new. -/
def Driver.EntriesFrom (s s' : Driver Thread Vnode) : Prop :=
  ∀ map key x, s'.entry map key = some x → s.entry map key = some x

/-- The closes, what they have recorded, and who has added the entries stay as they are. -/
structure Driver.SameCloses (s s' : Driver Thread Vnode) : Prop where
  close : s'.close = s.close
  held : s'.held = s.held
  addedBy : s'.addedBy = s.addedBy

/-- A step at the gate neither begins nor ends a close, and adds no entry. -/
theorem same_of_stepGate {b : Client.GateAction Unit Thread} (h : s.stepGate b = some s') :
    s.SameCloses s' ∧ s.EntriesFrom s' := by
  unfold Driver.stepGate at h
  obtain ⟨gate, -, rfl⟩ := Option.map_eq_some_iff.mp h
  exact ⟨⟨rfl, rfl, rfl⟩, fun _ _ _ hentry => hentry⟩

/-- The hooks leave the closes alone. Entries are added by calls only. -/
theorem same_of_stepHooks
    {b : ThreadAction Thread (Nat × Request Vnode) (Outcome Vnode) (MapEvent Vnode)}
    (h : s.stepHooks b = some s') :
    s.SameCloses s' ∧ ((∀ t c, b ≠ .call t c) → s.EntriesFrom s') := by
  unfold Driver.stepHooks at h
  obtain ⟨hooks, hstep, rfl⟩ := Option.map_eq_some_iff.mp h
  refine ⟨⟨rfl, rfl, rfl⟩, fun hnot map key x hentry => ?_⟩
  obtain ⟨t, request, -, rfl⟩ | ⟨t, c, request, o, k, log, stack, rfl, -⟩ |
    ⟨t, request, x, log, stack, -, -, rfl⟩ | ⟨e, -, rfl⟩ := threadSystem_step_cases hstep
  · exact hentry
  · exact (hnot t c rfl).elim
  · exact hentry
  · exact getDataByKey_apply e hentry

/-- A call that a hook makes. -/
theorem stepHooks_call (h : s.stepHooks (.call t c) = some s') :
    ∃ o n, s.nextCall t = some o ∧ s.number t = some n ∧
      s'.hooks.shared = (Shared.effect t s.hooks.shared o c).1 := by
  unfold Driver.stepHooks at h
  obtain ⟨hooks, hstep, rfl⟩ := Option.map_eq_some_iff.mp h
  obtain ⟨_, _, hcall, -⟩ | ⟨u, c', request, o, k, log, stack, hcall, hstack, rfl⟩ |
    ⟨_, _, _, _, _, hcall, -⟩ | ⟨_, hcall, -⟩ := threadSystem_step_cases hstep
  case inr.inl =>
    cases hcall
    refine ⟨o, request.1, ?_, ?_, rfl⟩
    · rw [Driver.nextCall, hstack]
      rfl
    · rw [Driver.number, hstack]
      rfl
  all_goals cases hcall

/-- What a call does, when it adds an entry and when it does not. -/
theorem stepCall_cases (h : s.stepCall t c = some s') :
    s'.close = s.close ∧ s'.held = s.held ∧
    ((s.adds? t c = none ∧ s'.addedBy = s.addedBy ∧ s.EntriesFrom s') ∨
      ∃ n map key, s.number t = some n ∧ s.adds? t c = some (map, key) ∧
        s'.addedBy = Function.update s.addedBy map
          (Function.update (s.addedBy map) key (some (t, n))) ∧
        (∃ x, s'.entry map key = some x) ∧
        ∀ map' key' x, s'.entry map' key' = some x →
          (map', key') = (map, key) ∨ s.entry map' key' = some x) := by
  unfold Driver.stepCall at h
  obtain ⟨s₁, hstep, rfl⟩ := Option.map_eq_some_iff.mp h
  obtain ⟨o, n, hnext, hnumber, hshared⟩ := stepHooks_call hstep
  obtain ⟨⟨hclose, hheld, hadded⟩, -⟩ := same_of_stepHooks hstep
  -- whether the call adds is read off the hook's next operation
  have hadds : s.adds? t c = o.adds? s.map c := by
    rw [Driver.adds?, hnext]
    rfl
  -- what the maps have after the call was added by it or was there
  have hentries : ∀ map' key' x, s₁.entry map' key' = some x →
      o.adds? s.map c = some (map', key') ∨ s.entry map' key' = some x := by
    intro map' key' x hentry
    unfold Driver.entry Driver.map at hentry
    rw [hshared] at hentry
    exact getDataByKey_effect hentry
  split
  · next map key hsome =>
    refine ⟨hclose, hheld, .inr ⟨n, map, key, hnumber, hsome, ?_, ?_, ?_⟩⟩
    · rw [hnumber]
      rfl
    · rw [hadds] at hsome
      obtain ⟨x, hx⟩ := effect_adds (t := t) hsome
      refine ⟨x, ?_⟩
      change (mapOf s₁.hooks.shared.map map).getDataByKey key = some x
      rw [hshared]
      exact hx
    · intro map' key' x hentry
      obtain hnew | hold := hentries map' key' x hentry
      · rw [← hadds, hsome] at hnew
        exact .inl (Option.some.inj hnew).symm
      · exact .inr hold
  · next hnone =>
    refine ⟨hclose, hheld, .inl ⟨hnone, hadded, fun map' key' x hentry => ?_⟩⟩
    obtain hnew | hold := hentries map' key' x hentry
    · rw [← hadds, hnone] at hnew
      cases hnew
    · exact hold

/-- A call of a hook is the call itself, after which the hook may have another client. -/
theorem step_call (h : s.step (.call t c) = some s') :
    ∃ client s₁, s.stepCall t c = some s₁ ∧ s' = { s₁ with client } := by
  simp only [Driver.step] at h
  split at h
  · split at h
    · obtain ⟨s₁, hstep, rfl⟩ := Option.map_eq_some_iff.mp h
      exact ⟨_, s₁, hstep, rfl⟩
    · cases h
  · exact ⟨s'.client, s', h, rfl⟩

/-- A close gets past a loop only if the map is empty. -/
theorem stepClose_cases (h : s.stepClose u = some s') :
    ∃ u p, s'.close = Function.update s.close u p ∧ s'.held = s.held ∧
      s'.addedBy = s.addedBy ∧ s.EntriesFrom s' ∧
      ∀ map, p.Released map → (s.close u).Released map ∨ ∀ key, s.entry map key = none := by
  unfold Driver.stepClose at h
  have hsame : s.EntriesFrom s := fun _ _ _ hentry => hentry
  split at h
  · cases h
  · next map hclose =>
    split at h
    · next hempty =>
      -- the map was found empty, so close is past it
      have hnone := (DataMap.isEmpty_iff _).mp hempty
      cases map with
      | vnodeIo =>
        cases h
        refine ⟨u, _, rfl, rfl, rfl, hsame, fun map hreleased => ?_⟩
        cases map with
        | vnodeIo => exact .inr hnone
        | shadowReverse => exact hreleased.elim
      | shadowReverse =>
        cases h
        refine ⟨u, _, rfl, rfl, rfl, hsame, fun map hreleased => ?_⟩
        cases map with
        | vnodeIo =>
          rw [hclose]
          exact .inl trivial
        | shadowReverse => exact .inr hnone
    · cases h
      refine ⟨u, _, rfl, rfl, rfl, hsame, fun map' hreleased => .inl ?_⟩
      rw [hclose]
      cases map <;> cases map' <;> exact hreleased
  -- one entry is taken out and its vnode released
  · next map hclose =>
    cases h
    refine ⟨u, _, rfl, rfl, rfl, fun _ _ _ => getDataByKey_releaseRegion, fun map' hreleased =>
      .inl ?_⟩
    rw [hclose]
    cases map <;> cases map' <;> exact hreleased
  · next hclose =>
    obtain ⟨s₁, hstep, rfl⟩ := Option.map_eq_some_iff.mp h
    obtain ⟨⟨hsame, hheld, hadded⟩, hentries⟩ := same_of_stepGate hstep
    refine ⟨u, _, congrArg (Function.update · u _) hsame, hheld, hadded, hentries, fun map _ =>
      .inl ?_⟩
    rw [hclose]
    trivial
  · next hclose =>
    split at h
    · cases h
      refine ⟨u, _, rfl, rfl, rfl, hsame, fun map _ => .inl ?_⟩
      rw [hclose]
      trivial
    · cases h
  · next hclose =>
    cases h
    exact ⟨u, _, rfl, rfl, rfl, hsame, fun map hreleased => hreleased.elim⟩

/-- A step adds no entry and no close takes one; it is a call that adds an entry; a close
begins; or one goes on, past a loop only if the map is empty. -/
theorem driver_step_cases (h : s.step a = some s') :
    (s.SameCloses s' ∧ s.EntriesFrom s') ∨
    (∃ t c n map key, a = .call t c ∧ s.number t = some n ∧ s.adds? t c = some (map, key) ∧
      s'.close = s.close ∧ s'.held = s.held ∧
      s'.addedBy = Function.update s.addedBy map
        (Function.update (s.addedBy map) key (some (t, n))) ∧
      ∀ map' key' x, s'.entry map' key' = some x →
        (map', key') = (map, key) ∨ s.entry map' key' = some x) ∨
    (∃ u, s'.close = Function.update s.close u (.isEmpty .vnodeIo) ∧
      s'.held = Function.update s.held u s.holders ∧ s'.addedBy = s.addedBy ∧ s'.map = s.map) ∨
    (∃ u p, s'.close = Function.update s.close u p ∧ s'.held = s.held ∧
      s'.addedBy = s.addedBy ∧ s.EntriesFrom s' ∧
      ∀ map, p.Released map → (s.close u).Released map ∨ ∀ key, s.entry map key = none) := by
  cases a with
  -- the gate touches no map and no close
  | register t =>
    simp only [Driver.step] at h
    split at h
    · exact .inl (same_of_stepGate h)
    · cases h
  | gate t => exact .inl (same_of_stepGate h)
  | start t request =>
    simp only [Driver.step] at h
    split at h
    · obtain ⟨s₁, hstep, rfl⟩ := Option.map_eq_some_iff.mp h
      obtain ⟨⟨hclose, hheld, hadded⟩, hentries⟩ := same_of_stepHooks hstep
      exact .inl ⟨⟨hclose, hheld, hadded⟩, hentries fun _ _ hcall => by cases hcall⟩
    · cases h
  | getClient t =>
    simp only [Driver.step] at h
    split at h
    · obtain ⟨s₁, hstep, rfl⟩ := Option.map_eq_some_iff.mp h
      obtain ⟨⟨hclose, hheld, hadded⟩, hentries⟩ := same_of_stepGate hstep
      exact .inl ⟨⟨hclose, hheld, hadded⟩, hentries⟩
    · cases h
  | putClient t =>
    simp only [Driver.step] at h
    split at h
    · obtain ⟨s₁, hstep, rfl⟩ := Option.map_eq_some_iff.mp h
      obtain ⟨⟨hclose, hheld, hadded⟩, hentries⟩ := same_of_stepGate hstep
      exact .inl ⟨⟨hclose, hheld, hadded⟩, hentries⟩
    · cases h
  -- a hook's call on the kernel or the maps; it may add one entry
  | call t c =>
    obtain ⟨client, s₁, hstep, rfl⟩ := step_call h
    obtain ⟨hclose, hheld, ⟨-, hadded, hentries⟩ | ⟨n, map, key, hnumber, hadds, hadded, -,
      hentries⟩⟩ := stepCall_cases hstep
    · exact .inl ⟨⟨hclose, hheld, hadded⟩, hentries⟩
    · exact .inr (.inl ⟨t, c, n, map, key, rfl, hnumber, hadds, hclose, hheld, hadded, hentries⟩)
  | finish t =>
    obtain ⟨hsame, hentries⟩ := same_of_stepHooks h
    exact .inl ⟨hsame, hentries fun _ _ hcall => by cases hcall⟩
  -- a reclaim only removes entries
  | reclaim e =>
    simp only [Driver.step] at h
    split at h
    · obtain ⟨hsame, hentries⟩ := same_of_stepHooks h
      exact .inl ⟨hsame, hentries fun _ _ hcall => by cases hcall⟩
    · cases h
  | close t =>
    simp only [Driver.step] at h
    split at h
    · cases h
      exact .inr (.inr (.inl ⟨t, rfl, rfl, rfl, rfl⟩))
    · cases h
  -- close goes on: it tests a map, takes out one entry, or waits at the gate
  | advanceClose t => exact .inr (.inr (.inr (stepClose_cases h)))

-- ---------------------------------------------------------------------------
-- The release
-- ---------------------------------------------------------------------------

/-- An invocation that held the client when a close began adds its entries before the loop
of the close has found the map empty, or when the close has returned. -/
def AddsInTime (s : Driver Thread Vnode) : DriverAction Thread Vnode → Prop
  | .call t c => ∀ added ∈ s.adds? t c, ∀ n ∈ s.number t, ∀ u, s.held u t = some n →
      ¬ (s.close u).Released added.1
  | _ => True

instance [Fintype Thread] (s : Driver Thread Vnode) (a : DriverAction Thread Vnode) :
    Decidable (AddsInTime s a) :=
  match a with
  | .call .. => inferInstanceAs (Decidable (∀ _ ∈ _, ∀ _ ∈ _, ∀ _, _ = _ → ¬ _))
  | .register _ | .gate _ | .start .. | .getClient _ | .putClient _ | .finish _ | .reclaim _
  | .close _ | .advanceClose _ => inferInstanceAs (Decidable True)

/-- No entry of the map has been added by an invocation that held the client when the
close of the thread began. -/
def Driver.NoneLeft (s : Driver Thread Vnode) (u : Thread) (map : RefMap) : Prop :=
  ∀ key x t n, s.entry map key = some x → s.addedBy map key = some (t, n) → s.held u t ≠ some n

/-- When a close returns success, there are no such entries. -/
def ReleaseKept (s : Driver Thread Vnode) : Prop :=
  ∀ u, s.close u = .returning → ∀ map, s.NoneLeft u map

/-- Once the loop for a map is over, no such entry is in it. -/
def ReleasedInv (s : Driver Thread Vnode) : Prop :=
  ∀ u map, (s.close u).Released map → s.NoneLeft u map

omit [DecidableEq Thread] in
/-- A map that was released stays empty while no entry is added. -/
theorem Driver.NoneLeft.of_entriesFrom (h : s.NoneLeft u map) (hentries : s.EntriesFrom s')
    (hheld : s'.held u = s.held u) (hadded : s'.addedBy = s.addedBy) : s'.NoneLeft u map := by
  intro key x t n hentry hby
  rw [hadded] at hby
  rw [hheld]
  exact h key x t n (hentries map key x hentry) hby

/-- A step whose entries come in time keeps what a close has released. -/
theorem releasedInv_step (h : ReleasedInv s) (hguard : AddsInTime s a)
    (hstep : s.step a = some s') : ReleasedInv s' := by
  intro u map hreleased
  obtain ⟨⟨hclose, hheld, hadded⟩, hentries⟩ |
    ⟨t, c, n, map₀, key₀, rfl, hnumber, hadds, hclose, hheld, hadded, hentries⟩ |
    ⟨u₀, hclose, hheld, hadded, hmap⟩ | ⟨u₀, p, hclose, hheld, hadded, hentries, hpast⟩ :=
    driver_step_cases hstep
  -- the step adds no entry and moves no close
  · rw [hclose] at hreleased
    exact (h u map hreleased).of_entriesFrom hentries (congrFun hheld u) hadded
  -- the one entry that is added is in time, or is of another invocation
  · rw [hclose] at hreleased
    intro key x t' n' hentry hby
    rw [hheld]
    rw [hadded] at hby
    obtain heq | hold := hentries map key x hentry
    · -- the entry is the one that the call adds
      cases heq
      rw [Function.update_self, Function.update_self] at hby
      cases hby
      intro hholds
      exact hguard _ hadds n hnumber u hholds hreleased
    · rcases eq_or_ne map map₀ with rfl | hmap
      · rcases eq_or_ne key key₀ with rfl | hkey
        · rw [Function.update_self, Function.update_self] at hby
          cases hby
          intro hholds
          exact hguard _ hadds n hnumber u hholds hreleased
        · rw [Function.update_self, Function.update_of_ne hkey] at hby
          exact h u map hreleased key x t' n' hold hby
      · rw [Function.update_of_ne hmap] at hby
        exact h u map hreleased key x t' n' hold hby
  -- a close that begins has not been past any map
  · rcases eq_or_ne u u₀ with rfl | hu
    · rw [hclose, Function.update_self] at hreleased
      exact hreleased.elim
    · rw [hclose, Function.update_of_ne hu] at hreleased
      refine (h u map hreleased).of_entriesFrom (fun map' key x hentry => ?_) ?_ hadded
      · unfold Driver.entry at hentry ⊢
        rwa [hmap] at hentry
      · rw [hheld, Function.update_of_ne hu]
  · rcases eq_or_ne u u₀ with rfl | hu
    · rw [hclose, Function.update_self] at hreleased
      -- close has just found the map empty, or had been past it before
      obtain hbefore | hempty := hpast map hreleased
      · exact (h u map hbefore).of_entriesFrom hentries (congrFun hheld u) hadded
      · intro key x t n hentry
        have hnone := hentries map key x hentry
        rw [hempty key] at hnone
        cases hnone
    · rw [hclose, Function.update_of_ne hu] at hreleased
      exact (h u map hreleased).of_entriesFrom hentries (congrFun hheld u) hadded

/-- **The release is kept** in every run in which the invocations that held the client when
a close began add their entries in time. -/
theorem release_kept (h : ReachableBy (driverSystem Thread Vnode) AddsInTime s) :
    ReleaseKept s := by
  have hinv : ReleasedInv s := by
    refine h.invariant (fun s hs => ?_)
      fun s a s' hs hguard hstep => releasedInv_step hs hguard hstep
    obtain ⟨retainCount, rfl⟩ := hs
    exact fun u map hreleased => hreleased.elim
  intro u hreturning map
  refine hinv u map ?_
  rw [hreturning]
  trivial

/-- A step that does not meet the condition undoes the release of a close that is past its
loop: the condition leaves out nothing else. -/
theorem late_undoes (hlate : ¬ AddsInTime s a) (hstep : s.step a = some s') :
    ∃ u map, (s'.close u).Released map ∧ ¬ s'.NoneLeft u map := by
  cases a with
  | call t c =>
    unfold AddsInTime at hlate
    push Not at hlate
    obtain ⟨⟨map, key⟩, hadds, n, hnumber, u, hholds, hreleased⟩ := hlate
    obtain ⟨client, s₁, hcall, rfl⟩ := step_call hstep
    obtain ⟨hclose, hheld, ⟨hnone, -⟩ | ⟨n', map', key', hnumber', hadds', hadded, ⟨x, hx⟩, -⟩⟩ :=
      stepCall_cases hcall
    · rw [hnone] at hadds
      cases hadds
    -- the entry is added for an invocation that close has to wait for, in a map it is past
    · rw [hadds'] at hadds
      cases hadds
      rw [hnumber'] at hnumber
      cases hnumber
      refine ⟨u, map, ?_, fun hnone => ?_⟩
      · change (s₁.close u).Released map
        rwa [hclose]
      · refine hnone key x t n hx ?_ ?_
        · change s₁.addedBy map key = some (t, n)
          rw [hadded, Function.update_self, Function.update_self]
        · change s₁.held u t = some n
          rwa [hheld]
  | _ => exact (hlate trivial).elim

end Steps

-- ---------------------------------------------------------------------------
-- A lookup during a close
-- ---------------------------------------------------------------------------

namespace LookupDuringClose

/-- The shadow file is there, and the daemon says that the file is controlled. The thread
`false` is the client's, and `true` is the one of the application. -/
def answer : Outcome Nat := ⟨Ledger.success [], true⟩

/-- The client is registered, and an application looks up `/d/a`. Its thread holds the
client, which is asked whether the file is controlled. -/
def asking : List (DriverAction Bool Nat) :=
  [.register false] ++ List.replicate 4 (.gate false) ++
  [.start true (.lookup ⟨some [47, 114]⟩ 2 ⟨[47, 100, 47, 97], 4, [97], 1, .LOOKUP, true, 0⟩),
    .call true answer, .getClient true] ++ List.replicate 6 (.gate true) ++
  [.putClient true, .gate true] ++ List.replicate 6 (.call true answer) ++
  [.getClient true] ++ List.replicate 6 (.gate true)

/-- The answer comes, and the hook goes on until it has added the reverse entry for the
shadow file. -/
def adding : List (DriverAction Bool Nat) :=
  [.putClient true, .gate true] ++ List.replicate 8 (.call true answer)

/-- `unregisterUserClient` from where the client is taken down. -/
def waiting : List (DriverAction Bool Nat) :=
  List.replicate 5 (.gate false) ++ [.advanceClose false]

def loaded : Driver Bool Nat := Driver.initial fun _ => 1

end LookupDuringClose

open LookupDuringClose in
/-- The hook adds the entry before the close looks at the maps, and the close removes it. -/
theorem release_kept_inTime : ∃ s : Driver Bool Nat, s.close false = .returning ∧
    s.held false true = some 0 ∧ s.addedBy .shadowReverse 5 = some (true, 0) ∧ ReleaseKept s := by
  let actions : List (DriverAction Bool Nat) := asking ++ [.close false] ++ adding ++
    List.replicate 5 (.advanceClose false) ++ List.replicate 3 (.gate false) ++ waiting
  have hallowed : allowed (driverSystem Bool Nat) (fun s a => decide (AddsInTime s a))
      loaded actions = true := by decide +kernel
  have hrun : ((exec (driverSystem Bool Nat) loaded actions).any fun s =>
      s.close false = .returning ∧ s.held false true = some 0 ∧
      s.addedBy .shadowReverse 5 = some (true, 0)) = true := by decide +kernel
  rw [Option.any_eq_true] at hrun
  obtain ⟨s, hexec, hfacts⟩ := hrun
  obtain ⟨hreturning, hheld, hadded⟩ := of_decide_eq_true hfacts
  have hreach : ReachableBy (driverSystem Bool Nat) AddsInTime s :=
    ReachableBy.execBy (fun _ _ h => of_decide_eq_true h) (.init ⟨fun _ => 1, rfl⟩) actions
      hallowed hexec
  exact ⟨s, hreturning, hheld, hadded, release_kept hreach⟩

open LookupDuringClose in
/-- The maps are empty when the loops of the close come by. While the close waits for the
client to be put back, and before it returns, the hook adds an entry. -/
theorem release_kept_fails : ¬ ∀ s : Driver Bool Nat,
    Reachable (driverSystem Bool Nat) s → ReleaseKept s := by
  intro h
  let actions : List (DriverAction Bool Nat) := asking ++ [.close false] ++
    List.replicate 3 (.advanceClose false) ++ List.replicate 3 (.gate false) ++ adding ++ waiting
  have hrun : ((exec (driverSystem Bool Nat) loaded actions).any fun s =>
      s.close false = .returning ∧ s.entry .shadowReverse 5 = some 3 ∧
      s.addedBy .shadowReverse 5 = some (true, 0) ∧ s.held false true = some 0) = true := by
    decide +kernel
  rw [Option.any_eq_true] at hrun
  obtain ⟨s, hexec, hfacts⟩ := hrun
  obtain ⟨hreturning, hentry, hadded, hheld⟩ := of_decide_eq_true hfacts
  have hreach : Reachable (driverSystem Bool Nat) s :=
    ReachableBy.exec (.init ⟨fun _ => 1, rfl⟩) actions hexec
  exact h s hreach false hreturning .shadowReverse 5 3 true 0 hentry hadded hheld

end VfsRedirector
