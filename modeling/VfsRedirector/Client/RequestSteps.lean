import VfsRedirector.Client.Request

/-!
# VFSFilter0UserClient: what one step can do

A step moves one thread and changes at most one of the shared structures. For
each structure (the lock of the waiting list, the waiting list, the events the
threads wait for, `gPreOperationDataMap`, the requests under way) there is one
lemma here that says in which ways a step can change it and where the moving
thread then stands. The invariants are proved from these lemmas; none of them
unfolds `advance`.

## Results

* `step_cases` — a step is the start of a call, the next operation of one, or one of
  the queue.
* `advance_request` — a request ends only when it finishes.
* `advance_waitingList`, `advance_waitEvent`, `advance_preOperation` — what an
  operation does to the two lists and to the events.
-/

namespace VfsRedirector.Client

open Library

variable {Thread Id : Type}

def Caller.request? : Caller Id → Option (Request Id)
  | .request r _ => some r
  | .reply _ => none

def Caller.registered? : Caller Id → Option (Request Id)
  | .request r inserted => if inserted then some r else none
  | .reply _ => none

namespace RequestPc

/-- The request under way. -/
def request? : RequestPc Id → Option (Request Id)
  | .register r | .enter r _ | .send r _ | .removeRegistration r _ | .finish r
  | .waitLock r _ | .waitTest r _ | .waitAssert r _ | .waitUnlock r _ _ | .waitBlock r _ => some r
  | .signalLock _ c | .signalTest _ c | .signalWakeup _ c | .signalRemove _ c
  | .signalUnlock _ c => c.request?
  | .idle | .replyGet _ _ _ | .replyWrite _ _ _ _ => none

/-- The request under way, while it is registered in `gPreOperationDataMap`. -/
def registered? : RequestPc Id → Option (Request Id)
  | .enter r inserted | .send r inserted | .removeRegistration r inserted
  | .waitLock r inserted | .waitTest r inserted | .waitAssert r inserted
  | .waitUnlock r inserted _ | .waitBlock r inserted => if inserted then some r else none
  | .signalLock _ c | .signalTest _ c | .signalWakeup _ c | .signalRemove _ c
  | .signalUnlock _ c => c.registered?
  | .idle | .register _ | .finish _ | .replyGet _ _ _ | .replyWrite _ _ _ _ => none

/-- The thread has the lock of the waiting list. -/
def Critical : RequestPc Id → Prop
  | .waitTest _ _ | .waitAssert _ _ | .waitUnlock _ _ _
  | .signalTest _ _ | .signalWakeup _ _ | .signalRemove _ _ | .signalUnlock _ _ => True
  | _ => False

/-- In `signal`, between `thread_wakeup` and `removeKey`. -/
def Removing : RequestPc Id → Id → Prop
  | .signalRemove i _, id => i = id
  | _, _ => False

/-- In `wait`, past its `assert_wait`. -/
def Blocking : RequestPc Id → Id → Prop
  | .waitUnlock r _ true, id | .waitBlock r _, id => r.id = id
  | _, _ => False

/-- A request on `id` that has entered the waiting list and is on its way into
its wait, or still asleep in it. -/
def Held : RequestPc Id → Option Id → Id → Prop
  | .send r _, _, id | .waitLock r _, _, id | .waitTest r _, _, id
  | .waitAssert r _, _, id => r.id = id
  | .waitUnlock r _ true, event, id | .waitBlock r _, event, id => r.id = id ∧ event = some id
  | _, _, _ => False

/-- In `reply`, between `getDataByKey`, which returned the pointer `inData`,
and the write through it. -/
def Fetched : RequestPc Id → Id → Nat → Prop
  | .replyWrite i _ _ (some f), id, inData => i = id ∧ f = inData
  | _, _, _ => False

/-- About to enter the waiting list. -/
def Entering : RequestPc Id → Id → Prop
  | .enter r _, id => r.id = id
  | _, _ => False

/-- The thread has found the entry of `id` and has the lock still. -/
def Found : RequestPc Id → Id → Prop
  | .waitAssert r _, id => r.id = id
  | .signalWakeup i _, id | .signalRemove i _, id => i = id
  | _, _ => False

instance (p : RequestPc Id) (id : Id) [DecidableEq Id] : Decidable (p.Removing id) :=
  match p with
  | .signalRemove i _ => inferInstanceAs (Decidable (i = id))
  | .idle | .register _ | .enter _ _ | .send _ _ | .removeRegistration _ _ | .finish _
  | .waitLock _ _ | .waitTest _ _ | .waitAssert _ _ | .waitUnlock _ _ _ | .waitBlock _ _
  | .signalLock _ _ | .signalTest _ _ | .signalWakeup _ _ | .signalUnlock _ _
  | .replyGet _ _ _ | .replyWrite _ _ _ _ => isFalse not_false

/-- A registered request is under way. -/
theorem registered?_request {p : RequestPc Id} {r : Request Id} (h : p.registered? = some r) :
    p.request? = some r := by
  cases p <;>
    simp_all [registered?, request?, Caller.registered?.eq_def, Caller.request?.eq_def]
  all_goals
    split <;> simp_all

/-- A thread that has found an entry has the lock. -/
theorem Found.critical {p : RequestPc Id} {id : Id} (h : p.Found id) : p.Critical := by
  cases p <;> first | exact h.elim | trivial

/-- A thread that removes an entry has found it. -/
theorem Removing.found {p : RequestPc Id} {id : Id} (h : p.Removing id) : p.Found id := by
  cases p <;> first | exact h.elim | exact h

/-- A request stays on its way into its wait while its event is not taken from it. -/
theorem Held.event {p : RequestPc Id} {event event' : Option Id} {id : Id}
    (h : p.Held event id) (hevent : event = some id → event' = some id) : p.Held event' id := by
  cases p <;> first | exact h | skip
  case waitUnlock r inserted wait =>
    cases wait with
    | true => exact ⟨h.1, hevent h.2⟩
    | false => exact h
  case waitBlock r inserted => exact ⟨h.1, hevent h.2⟩

end RequestPc

open RequestPc

variable [DecidableEq Thread] [DecidableEq Id]
variable {owner : Id → Thread} {hasRoom : List (Message Id) → Nat → Bool}
variable {s s' : Requests Thread Id} {a : RequestAction Thread Id} {t u : Thread} {alloc : Bool}

/-- The lock, the events, both maps and the results of requests are as before. -/
structure SameShared (s s' : Requests Thread Id) : Prop where
  lock : s'.lock = s.lock
  waitEvent : s'.waitEvent = s.waitEvent
  waitingList : s'.gFileOpenWaitingList = s.gFileOpenWaitingList
  preOperation : s'.gPreOperationDataMap = s.gPreOperationDataMap
  returned : s'.returned = s.returned

/-- An idle thread starts on a request or on a reply. -/
inductive Start (owner : Id → Thread) (s s' : Requests Thread Id) (t : Thread) :
    RequestPc Id → Prop
  | request (op : Opcode) (id : Id) (length : Nat) (hid : owner id = t)
      (hnext : s'.nextRequest = s.nextRequest + 1) :
      Start owner s s' t (.register ⟨op, id, s.nextRequest, length⟩)
  | reply (id : Id) (isControlledFile : Bool) (origin : Option Nat)
      (hnext : s'.nextRequest = s.nextRequest) :
      Start owner s s' t (.replyGet id isControlledFile origin)

/-- A step is the next operation of a thread, the start of a call, or an event
that concerns the data queue only. -/
theorem step_cases (h : s.step owner hasRoom a = some s') :
    (∃ t alloc, a = .advance t alloc ∧ s.advance hasRoom t alloc = some s') ∨
    (∃ t p, s.pc t = .idle ∧ Start owner s s' t p ∧ s'.pc = Function.update s.pc t p ∧
      SameShared s s') ∨
    (s'.pc = s.pc ∧ s'.nextRequest = s.nextRequest ∧ SameShared s s') := by
  cases a with
  | advance t alloc => exact .inl ⟨t, alloc, rfl, h⟩
  -- a call of the driver or of the client begins
  | call t op id length =>
    simp only [Requests.step] at h
    split at h
    · rename_i hidle
      cases h
      exact .inr (.inl ⟨t, _, hidle.1, .request op id length hidle.2 rfl, rfl,
        ⟨rfl, rfl, rfl, rfl, rfl⟩⟩)
    · cases h
  | audit t length =>
    simp only [Requests.step] at h
    split at h <;> cases h
    exact .inr (.inr ⟨rfl, rfl, ⟨rfl, rfl, rfl, rfl, rfl⟩⟩)
  -- the queue's consumer touches no request
  | dequeue =>
    simp only [Requests.step] at h
    split at h <;> cases h
    exact .inr (.inr ⟨rfl, rfl, ⟨rfl, rfl, rfl, rfl, rfl⟩⟩)
  | replyTo t r isControlledFile =>
    simp only [Requests.step] at h
    split at h
    · rename_i hidle
      cases h
      exact .inr (.inl ⟨t, _, hidle.1, .reply r.id isControlledFile _ rfl, rfl,
        ⟨rfl, rfl, rfl, rfl, rfl⟩⟩)
    · cases h
  | reply t id isControlledFile =>
    simp only [Requests.step] at h
    split at h
    · rename_i hidle
      cases h
      exact .inr (.inl ⟨t, _, hidle, .reply id isControlledFile _ rfl, rfl,
        ⟨rfl, rfl, rfl, rfl, rfl⟩⟩)
    · cases h

/-- The branches of `advance`, derived once for the lemmas that go through them. -/
alias Requests.advance_cases := Requests.advance.fun_cases_unfolding

/-- A step moves one thread. -/
theorem advance_pc (h : s.advance hasRoom t alloc = some s') (hu : u ≠ t) :
    s'.pc u = s.pc u := by
  revert h
  fun_cases Requests.advance hasRoom s t alloc <;> intro h <;> cases h
  all_goals exact Function.update_of_ne hu _ _

/-- No request is numbered by moving on, and one returns only when it finishes. -/
theorem advance_request (h : s.advance hasRoom t alloc = some s') :
    s'.nextRequest = s.nextRequest ∧
    ((s'.returned = s.returned ∧ (s'.pc t).request? = (s.pc t).request?) ∨
      ∃ r, s.pc t = .finish r ∧ s'.pc t = .idle ∧ s'.returned =
        Function.update s.returned r.inData (some (s.inData r.inData).isControlledFile)) := by
  revert h
  fun_cases Requests.advance hasRoom s t alloc <;> intro h <;> cases h
  all_goals simp_all +zetaDelta [Requests.goto, request?, Caller.request?]

/-- A step that changes the lock takes it or gives it up, and the critical section with it. -/
theorem advance_lock (h : s.advance hasRoom t alloc = some s') :
    (s'.lock = s.lock ∧ ((s'.pc t).Critical ↔ (s.pc t).Critical)) ∨
    (s.lock = none ∧ s'.lock = some t ∧ (s'.pc t).Critical) ∨
    ((s.pc t).Critical ∧ s'.lock = none ∧ ¬ (s'.pc t).Critical) := by
  revert h
  fun_cases Requests.advance hasRoom s t alloc <;> intro h <;> cases h
  all_goals simp_all +zetaDelta [Requests.goto, Critical]

/-- The waiting list changes by an entry and by a removal. -/
theorem advance_waitingList (h : s.advance hasRoom t alloc = some s') :
    (s'.gFileOpenWaitingList = s.gFileOpenWaitingList ∧
      ∀ id, ¬ (s.pc t).Removing id) ∨
    (∃ r inserted, s.pc t = .enter r inserted ∧ s'.pc t = .send r inserted ∧
      s'.gFileOpenWaitingList = (s.gFileOpenWaitingList.addDataByKey r.id r.inData true).1) ∨
    (∃ id caller, s.pc t = .signalRemove id caller ∧ s'.pc t = .signalUnlock id caller ∧
      s'.gFileOpenWaitingList = s.gFileOpenWaitingList.removeKey id) := by
  revert h
  fun_cases Requests.advance hasRoom s t alloc <;> intro h <;> cases h
  all_goals simp_all +zetaDelta [Requests.goto, Removing]

/-- The events change by an assertion and by a wakeup. -/
theorem advance_waitEvent (h : s.advance hasRoom t alloc = some s') :
    (s'.waitEvent = s.waitEvent ∧ (∀ id, ¬ (s'.pc t).Removing id) ∧
      ∀ id, (s.pc t).Blocking id → (s'.pc t).Blocking id ∨ s.waitEvent t = none) ∨
    (∃ r inserted, s.pc t = .waitAssert r inserted ∧ s'.pc t = .waitUnlock r inserted true ∧
      s'.waitEvent = Function.update s.waitEvent t (some r.id)) ∨
    (∃ id caller, s.pc t = .signalWakeup id caller ∧ s'.pc t = .signalRemove id caller ∧
      s'.waitEvent = fun u => if s.waitEvent u = some id then none else s.waitEvent u) := by
  revert h
  fun_cases Requests.advance hasRoom s t alloc <;> intro h <;> cases h
  all_goals simp_all +zetaDelta [Requests.goto, Blocking, Removing]

/-- The registrations change by `register` and by their removal. -/
theorem advance_preOperation (h : s.advance hasRoom t alloc = some s') :
    (s'.gPreOperationDataMap = s.gPreOperationDataMap ∧
      (s'.pc t).registered? = (s.pc t).registered?) ∨
    (∃ r, s.pc t = .register r ∧ s'.pc t = .enter r true ∧
      s'.gPreOperationDataMap = (s.gPreOperationDataMap.addDataByKey r.id r.inData true).1) ∨
    (∃ r, s.pc t = .removeRegistration r true ∧ s'.pc t = .finish r ∧
      s'.gPreOperationDataMap = s.gPreOperationDataMap.removeKey r.id) := by
  revert h
  fun_cases Requests.advance hasRoom s t alloc <;> intro h <;> cases h
  all_goals simp_all +zetaDelta [Requests.goto, registered?, Caller.registered?]

/-- A request that is on its way into its wait stays so until it finds no
entry, or until it is woken. -/
theorem advance_held {id : Id} (h : s.advance hasRoom t alloc = some s')
    (hheld : (s.pc t).Held (s.waitEvent t) id) :
    (s'.pc t).Held (s'.waitEvent t) id ∨ s.gFileOpenWaitingList.getDataByKey id = none := by
  revert h
  fun_cases Requests.advance hasRoom s t alloc <;> intro h <;> cases h
  all_goals simp_all +zetaDelta [Requests.goto, Held, messageSize_ne_zero]

/-- A pointer is fetched by `getDataByKey`, which changes nothing. -/
theorem advance_fetched {id : Id} {f : Nat} (h : s.advance hasRoom t alloc = some s')
    (hfetched : (s'.pc t).Fetched id f) :
    (∃ isControlledFile origin, s.pc t = .replyGet id isControlledFile origin) ∧
      s.gPreOperationDataMap.getDataByKey id = some f := by
  revert h
  fun_cases Requests.advance hasRoom s t alloc <;> intro h <;> cases h
  case case21 id₀ isControlledFile origin hp =>
    simp only [Requests.goto, Function.update_self] at hfetched
    cases hget : s.gPreOperationDataMap.getDataByKey id₀ with
    | none =>
      rw [hget] at hfetched
      exact hfetched.elim
    | some f₀ =>
      rw [hget] at hfetched
      obtain ⟨rfl, rfl⟩ := hfetched
      exact ⟨⟨_, _, hp⟩, hget⟩
  all_goals simp_all [Requests.goto, Fetched]

/-- A request about to enter the waiting list enters it if the allocation succeeds. -/
theorem advance_entering {id : Id} (h : s.advance hasRoom t alloc = some s')
    (hentering : (s.pc t).Entering id) :
    s'.gFileOpenWaitingList.getDataByKey id ≠ none ∨ alloc = false := by
  revert h
  fun_cases Requests.advance hasRoom s t alloc <;> intro h <;> cases h
  all_goals simp_all +zetaDelta [Requests.goto, Entering]

/-- An entry is found where there is one. -/
theorem advance_found {id : Id} (h : s.advance hasRoom t alloc = some s')
    (hfound : (s'.pc t).Found id) :
    s.gFileOpenWaitingList.getDataByKey id ≠ none ∨ (s.pc t).Found id := by
  revert h
  fun_cases Requests.advance hasRoom s t alloc <;> intro h <;> cases h
  all_goals simp_all +zetaDelta [Requests.goto, Found, Option.isSome_iff_ne_none]

end VfsRedirector.Client
