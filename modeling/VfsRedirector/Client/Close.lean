import VfsRedirector.Client.GateSafety
import VfsRedirector.Client.RequestInv

/-!
# VFSFilter0UserClient::close: waiting for the threads that wait

`close`, which `clientClose` calls too when the client process has died, calls
`unregisterUserClient`, and that waits until no thread holds an invocation. A
thread that holds one may be asleep in `WaitingList::wait`, and only a `reply`
wakes it.

The model is the product of the two systems. A hook thread makes a request, or
sends an audit message, between its `getClient` and its `putClient`. The
client's calls stop with its `close`; a `reply` that is inside the kernel by
then runs to its end. There is one user client, as `open` lets one in only.

The close does not get stuck in the runs in which the client closes, and
requests go to sleep after that, only while each request asleep has a `reply`
under way (`close_not_stuck`); a client that dies with a request unanswered
makes it wait for ever (`close_not_stuck_fails`).

## Results

* `SleepersAnswered.step` — a sleeper keeps its reply.
* `close_not_stuck` — where each sleeper has a reply on its way, closing does not wait for
  threads that nobody wakes.
* `close_not_stuck_fails` — it can, when the daemon dies.
-/

namespace VfsRedirector.Client

open Library RequestPc

/-- com_VFSFilter0, its user client and the threads. -/
structure Service (Thread Id : Type) where
  gate : Gate Unit Thread
  requests : Requests Thread Id
  /-- The client has called `close`, or has died. -/
  closed : Bool

inductive ServiceAction (Thread Id : Type) where
  | gate (a : GateAction Unit Thread)
  | request (a : RequestAction Thread Id)
  | close (t : Thread)

namespace GatePc

/-- The thread holds an invocation of the client. -/
def Using : GatePc Unit → Prop
  | .inUse _ _ => True
  | _ => False

instance (p : GatePc Unit) : Decidable p.Using :=
  match p with
  | .inUse _ _ => isTrue trivial
  | .idle | .getTestClient | .getTestPending | .getIncrement | .getRead | .getSwapSame _
  | .getSwapNull _ _ | .getDecrement | .putTestClient | .registerTestPending _
  | .registerSwap _ | .registerRetain _ | .unregisterRead _ | .unregisterSetPending _
  | .unregisterSwap _ | .unregisterGiveUp | .unregisterSleep _ _ | .unregisterTest _ _
  | .unregisterRelease _ _ | .unregisterClearPending | .returned _ => isFalse not_false

/-- `unregisterUserClient` has taken the client down and waits for
`clientInvocations` to become zero. -/
def AwaitingThreads : GatePc Unit → Prop
  | .unregisterSleep _ _ | .unregisterTest _ _ => True
  | _ => False

end GatePc

namespace Service

variable {Thread Id : Type} [DecidableEq Thread] [DecidableEq Id]

def stepGate (s : Service Thread Id) (a : GateAction Unit Thread) : Option (Service Thread Id) :=
  (s.gate.step a).map fun gate => { s with gate := gate }

def stepRequest (owner : Id → Thread) (hasRoom : List (Message Id) → Nat → Bool)
    (s : Service Thread Id) (a : RequestAction Thread Id) : Option (Service Thread Id) :=
  (s.requests.step owner hasRoom a).map fun requests => { s with requests := requests }

def step (owner : Id → Thread) (hasRoom : List (Message Id) → Nat → Bool)
    (s : Service Thread Id) : ServiceAction Thread Id → Option (Service Thread Id)
  | .gate a =>
    match a with
    -- a thread puts the client back when its request has returned
    | .putClient t => if s.requests.pc t = .idle then s.stepGate a else none
    -- start registers the client; close alone unregisters it
    | .call _ (.registerUserClient _) => if s.closed then none else s.stepGate a
    | .call _ (.unregisterUserClient _) => none
    | _ => s.stepGate a
  | .request a =>
    match a with
    | .call t _ _ _ | .audit t _ =>
      if (s.gate.pc t).Using then s.stepRequest owner hasRoom a else none
    | .dequeue | .replyTo _ _ _ | .reply _ _ _ =>
      if s.closed then none else s.stepRequest owner hasRoom a
    | .advance _ _ => s.stepRequest owner hasRoom a
  | .close t =>
    (s.stepGate (.call t (.unregisterUserClient ()))).map fun s => { s with closed := true }

def initial (retainCount : Unit → Int) : Service Thread Id where
  gate := Gate.initial retainCount
  requests := Requests.initial
  closed := false

end Service

def serviceSystem {Thread Id : Type} [DecidableEq Thread] [DecidableEq Id] (owner : Id → Thread)
    (hasRoom : List (Message Id) → Nat → Bool) :
    System (Service Thread Id) (ServiceAction Thread Id) where
  init s := ∃ retainCount, s = Service.initial retainCount
  step := Service.step owner hasRoom

-- ---------------------------------------------------------------------------
-- Being stuck
-- ---------------------------------------------------------------------------

/-- In a `reply` or a `signal` for the id, before its `thread_wakeup`. -/
def RequestPc.Replying {Id : Type} : RequestPc Id → Id → Prop
  | .replyGet i _ _, id | .replyWrite i _ _ _, id | .signalLock i _, id | .signalTest i _, id
  | .signalWakeup i _, id => i = id
  | _, _ => False

instance {Id : Type} [DecidableEq Id] (p : RequestPc Id) (id : Id) : Decidable (p.Replying id) :=
  match p with
  | .replyGet i _ _ | .replyWrite i _ _ _ | .signalLock i _ | .signalTest i _
  | .signalWakeup i _ => inferInstanceAs (Decidable (i = id))
  | .idle | .register _ | .enter _ _ | .send _ _ | .removeRegistration _ _ | .finish _
  | .waitLock _ _ | .waitTest _ _ | .waitAssert _ _ | .waitUnlock _ _ _ | .waitBlock _ _
  | .signalRemove _ _ | .signalUnlock _ _ => isFalse not_false

variable {Thread Id : Type}

/-- Asleep in `WaitingList::wait` on the id, and not woken. -/
def SleepsOn (s : Requests Thread Id) (t : Thread) (id : Id) : Prop :=
  (∃ r inserted, s.pc t = .waitBlock r inserted) ∧ s.waitEvent t = some id

/-- The client has closed, `unregisterUserClient` waits for the threads that
hold an invocation, each of them is asleep, and no thread is on its way to
wake one. -/
structure Service.Stuck (s : Service Thread Id) : Prop where
  closed : s.closed = true
  waiting : ∃ u, (s.gate.pc u).AwaitingThreads
  held : ∃ t, (s.gate.pc t).Counted
  asleep : ∀ t, (s.gate.pc t).Counted → ∃ id, SleepsOn s.requests t id
  nobody : ∀ t id, SleepsOn s.requests t id → ∀ v, ¬ (s.requests.pc v).Replying id

/-- Every thread past its `assert_wait` has a `reply` under way. -/
def SleepersAnswered (s : Requests Thread Id) : Prop :=
  ∀ t id, s.waitEvent t = some id → ∃ v, (s.pc v).Replying id

/-- The client closes only while every request asleep has a `reply` under way,
and when it has closed a request goes to sleep only if it has one. -/
def ClosesAnswered (s : Service Thread Id) : ServiceAction Thread Id → Prop
  | .close _ => SleepersAnswered s.requests
  | .request (.advance t _) => s.closed = true → ∀ r inserted,
      s.requests.pc t = .waitAssert r inserted → ∃ v, (s.requests.pc v).Replying r.id
  | _ => True

variable [DecidableEq Thread] [DecidableEq Id]
variable {owner : Id → Thread} {hasRoom : List (Message Id) → Nat → Bool}
variable {t u : Thread}

section Requests

variable {s s' : Requests Thread Id}

/-- A `reply` that finds the entry of its id goes on until it wakes the id. -/
theorem advance_replying {alloc : Bool} {id : Id} (h : s.advance hasRoom t alloc = some s')
    (hreplying : (s.pc t).Replying id) :
    (s'.pc t).Replying id ∨ s.gFileOpenWaitingList.getDataByKey id = none ∨
      ∀ u, s'.waitEvent u ≠ some id := by
  revert h
  fun_cases Requests.advance hasRoom s t alloc <;> intro h <;> cases h
  case case27 id₀ caller hp =>
    rw [hp] at hreplying
    obtain rfl : id₀ = id := hreplying
    refine .inr (.inr fun u hu => ?_)
    by_cases hcleared : s.waitEvent u = some id₀
    · simp [hcleared] at hu
    · simp [hcleared] at hu
  all_goals simp_all [Requests.goto, RequestPc.Replying]

/-- A sleeper keeps its reply, unless a request goes to sleep without one. -/
theorem SleepersAnswered.step {a : RequestAction Thread Id} (hs : RequestInv owner s)
    (hanswered : SleepersAnswered s)
    (hok : ∀ t alloc, a = .advance t alloc → ∀ r inserted,
      s.pc t = .waitAssert r inserted → ∃ v, (s.pc v).Replying r.id)
    (h : s.step owner hasRoom a = some s') : SleepersAnswered s' := by
  intro u id hu
  rcases step_cases h with ⟨t, alloc, rfl, hadvance⟩ | ⟨t, p, hidle, -, hpc, hsame⟩ |
    ⟨hpc, -, hsame⟩
  · have hentry := hs.blocked_entered_advance hadvance hu
    -- the reply that the sleeper had before the step, or has at its assert_wait
    have hbefore : ∃ v, (s.pc v).Replying id := by
      rcases (hs.blocked_advance hadvance hu).2 with hold | ⟨-, r, inserted, hp, rfl⟩
      · exact hanswered u id hold
      · exact hok t alloc rfl r inserted hp
    obtain ⟨v, hv⟩ := hbefore
    rcases eq_or_ne v t with rfl | hvt
    · rcases advance_replying hadvance hv with hv' | hnone | hwoken
      · exact ⟨v, hv'⟩
      · rcases (hs.blocked_advance hadvance hu).2 with hold | ⟨-, r, inserted, hp, -⟩
        · exact absurd hnone (hs.blocked_entered u id hold)
        · rw [hp] at hv
          exact hv.elim
      · exact absurd hu (hwoken u)
    · exact ⟨v, by rwa [advance_pc hadvance hvt]⟩
  · rw [hsame.waitEvent] at hu
    obtain ⟨v, hv⟩ := hanswered u id hu
    have hvt : v ≠ t := fun heq => by
      rw [heq, hidle] at hv
      exact hv
    exact ⟨v, by rwa [hpc, Function.update_of_ne hvt]⟩
  · rw [hsame.waitEvent] at hu
    rw [hpc]
    exact hanswered u id hu

end Requests

variable {s s' : Service Thread Id}

omit [DecidableEq Id] in
/-- A step at the gate leaves the requests alone. -/
theorem stepGate_requests {a : GateAction Unit Thread} (h : s.stepGate a = some s') :
    s'.requests = s.requests ∧ s'.closed = s.closed := by
  simp only [Service.stepGate, Option.map_eq_some_iff] at h
  obtain ⟨gate, -, rfl⟩ := h
  exact ⟨rfl, rfl⟩

omit [DecidableEq Id] in
/-- The close of the client leaves the requests alone. -/
theorem stepClose_requests {a : GateAction Unit Thread}
    (h : (s.stepGate a).map (fun s => { s with closed := true }) = some s') :
    s'.requests = s.requests := by
  rw [Option.map_eq_some_iff] at h
  obtain ⟨s₁, hgate, rfl⟩ := h
  exact (stepGate_requests hgate).1

/-- A step of a request is one of the requests, and closes nothing. -/
theorem stepRequest_requests {a : RequestAction Thread Id}
    (h : s.stepRequest owner hasRoom a = some s') :
    s.requests.step owner hasRoom a = some s'.requests ∧ s'.closed = s.closed := by
  simp only [Service.stepRequest, Option.map_eq_some_iff] at h
  obtain ⟨requests, hstep, rfl⟩ := h
  exact ⟨hstep, rfl⟩

/-- A step of the service is a step of the requests or leaves them alone. -/
theorem service_requests {a : ServiceAction Thread Id} (h : s.step owner hasRoom a = some s') :
    (s'.requests = s.requests ∧ (s'.closed = s.closed ∨ ∃ t, a = .close t)) ∨
    ∃ b, a = .request b ∧ s.requests.step owner hasRoom b = some s'.requests ∧
      s'.closed = s.closed := by
  revert h
  fun_cases Service.step owner hasRoom s a <;> intro h
  all_goals first
    | contradiction
    | exact .inl ⟨(stepGate_requests h).1, .inl (stepGate_requests h).2⟩
    | exact .inr ⟨_, rfl, stepRequest_requests h⟩
    | exact .inl ⟨stepClose_requests h, .inr ⟨_, rfl⟩⟩

/-- In a run of the service the requests run as they do by themselves. -/
theorem Service.requests_reachable (h : Reachable (serviceSystem owner hasRoom) s) :
    Reachable (requestSystem owner hasRoom) s.requests := by
  refine h.map ?_ ?_
  · rintro s ⟨retainCount, rfl⟩
    exact rfl
  · intro s a s' _ _ hstep
    rcases service_requests hstep with ⟨hsame, -⟩ | ⟨b, -, hb, -⟩
    · exact .inl hsame
    · exact .inr ⟨b, trivial, hb⟩

/-- The client has closed, every request asleep has a `reply` under way. -/
theorem closed_answered
    (h : ReachableBy (serviceSystem owner hasRoom) ClosesAnswered s) (hclosed : s.closed = true) :
    SleepersAnswered s.requests := by
  revert hclosed
  refine h.invariant_of (I := fun s => s.closed = true → SleepersAnswered s.requests)
    (J := fun s => RequestInv owner s.requests)
    (fun s hr => .reachable (Service.requests_reachable hr.reachable)) ?_ ?_
  · rintro s ⟨retainCount, rfl⟩ hclosed
    cases hclosed
  · intro s a s' hinv hs _ hok hstep hclosed
    rcases service_requests hstep with ⟨hsame, hkept | ⟨t, rfl⟩⟩ | ⟨b, rfl, hb, hkept⟩
    · rw [hsame]
      exact hinv (hkept ▸ hclosed)
    · rw [hsame]
      exact hok
    · rw [hkept] at hclosed
      refine (hinv hclosed).step hs (fun t alloc hb' r inserted hp => ?_) hb
      subst hb'
      exact hok hclosed r inserted hp

/-- `unregisterUserClient` does not wait for threads that nobody will wake, if
the client closes, and requests go to sleep after that, only while each request
asleep has a `reply` under way. -/
theorem close_not_stuck (h : ReachableBy (serviceSystem owner hasRoom) ClosesAnswered s) :
    ¬ s.Stuck := by
  intro hstuck
  obtain ⟨t, ht⟩ := hstuck.held
  obtain ⟨id, hsleeps⟩ := hstuck.asleep t ht
  obtain ⟨v, hv⟩ := closed_answered h hstuck.closed t id hsleeps.2
  exact hstuck.nobody t id hsleeps v hv

/-- Thread 1 starts the user client; thread 0 obtains it, asks, and sleeps. -/
def serveAndAsk : List (ServiceAction (Fin 3) Nat) :=
  [.gate (.call 1 (.registerUserClient ())), .gate (.advance 1), .gate (.advance 1),
   .gate (.advance 1), .gate (.advance 1),
   .gate (.call 0 .getClient), .gate (.advance 0), .gate (.advance 0), .gate (.advance 0),
   .gate (.advance 0), .gate (.advance 0), .gate (.advance 0),
   .request (.call 0 .filter 10 3), .request (.advance 0 true), .request (.advance 0 true),
   .request (.advance 0 true), .request (.advance 0 true), .request (.advance 0 true),
   .request (.advance 0 true), .request (.advance 0 true), .request .dequeue]

/-- The client closes, and waits. -/
def closeAndWait : List (ServiceAction (Fin 3) Nat) :=
  [.close 2, .gate (.advance 2), .gate (.advance 2), .gate (.advance 2)]

/-- A check that is enough for `ClosesAnswered`, for runs of three threads. -/
def closesCheck (s : Service (Fin 3) Nat) : ServiceAction (Fin 3) Nat → Bool
  | .close _ =>
    decide (∀ t, ∀ id ∈ s.requests.waitEvent t, ∃ v, (s.requests.pc v).Replying id)
  | .request (.advance _ _) => !s.closed
  | _ => true

/-- What passes the check is a step that meets the condition. -/
theorem closesCheck_sound (s : Service (Fin 3) Nat) (a : ServiceAction (Fin 3) Nat)
    (h : closesCheck s a = true) : ClosesAnswered s a := by
  rcases a with b | b | t
  · trivial
  · cases b with
    | advance t alloc =>
      intro hclosed
      simp [closesCheck, hclosed] at h
    | _ => trivial
  · intro u id hu
    exact of_decide_eq_true h u id hu

/-- The client answers before it closes. -/
def answerAndClose : List (ServiceAction (Fin 3) Nat) :=
  serveAndAsk ++ .request (.replyTo 1 ⟨.filter, 10, 0, 3⟩ true) :: closeAndWait

/-- The close waits for thread 0, which has its answer and is about to return. -/
theorem close_not_stuck_run :
    ∃ s, exec (serviceSystem (fun _ : Nat => (0 : Fin 3)) fun _ _ => true)
        (Service.initial fun _ => 1) answerAndClose = some s ∧
      (s.gate.pc 2).AwaitingThreads ∧ ¬ s.Stuck := by
  have hrun : ∃ s, exec (serviceSystem (fun _ : Nat => (0 : Fin 3)) fun _ _ => true)
      (Service.initial fun _ => 1) answerAndClose = some s ∧
      s.gate.pc 2 = .unregisterSleep () 1 := ⟨_, rfl, rfl⟩
  obtain ⟨s, hexec, hpc⟩ := hrun
  have hinit : (serviceSystem (fun _ : Nat => (0 : Fin 3)) fun _ _ => true).init
      (Service.initial fun _ => 1) := ⟨_, rfl⟩
  have hr := ReachableBy.execBy closesCheck_sound (.init hinit) answerAndClose (by decide) hexec
  exact ⟨s, hexec, by rw [hpc]; trivial, close_not_stuck hr⟩

/-- The client dies with the request of thread 0 unanswered. -/
def dieAndClose : List (ServiceAction (Fin 3) Nat) :=
  serveAndAsk ++ closeAndWait

/-- Thread 0 sleeps on id 10, no reply is under way, and the close waits for thread 0. -/
theorem close_not_stuck_fails :
    ¬ ∀ s, Reachable (serviceSystem (fun _ : Nat => (0 : Fin 3)) fun _ _ => true) s →
      ¬ s.Stuck := by
  intro h
  -- the state that the run ends in, read off place by place
  have hrun : ∃ s, exec (serviceSystem (fun _ : Nat => (0 : Fin 3)) fun _ _ => true)
      (Service.initial fun _ => 1) dieAndClose = some s ∧ s.closed = true ∧
      (s.gate.pc 0 = .inUse () 1 ∧ s.gate.pc 1 = .idle ∧ s.gate.pc 2 = .unregisterSleep () 1) ∧
      (s.requests.pc 0 = .waitBlock ⟨.filter, 10, 0, 3⟩ true ∧ s.requests.pc 1 = .idle ∧
        s.requests.pc 2 = .idle) ∧ s.requests.waitEvent 0 = some 10 :=
    ⟨_, rfl, rfl, ⟨rfl, rfl, rfl⟩, ⟨rfl, rfl, rfl⟩, rfl⟩
  obtain ⟨s, hexec, hclosed, ⟨hg0, hg1, hg2⟩, ⟨hr0, hr1, hr2⟩, hevent⟩ := hrun
  refine h s (ReachableBy.exec (.init ⟨_, rfl⟩) dieAndClose hexec) ?_
  constructor
  case closed => exact hclosed
  case waiting => exact ⟨2, by rw [hg2]; trivial⟩
  case held => exact ⟨0, by rw [hg0]; trivial⟩
  case asleep =>
    intro t ht
    match t with
    | 0 => exact ⟨10, ⟨_, _, hr0⟩, hevent⟩
    | 1 =>
      rw [hg1] at ht
      exact ht.elim
    | 2 =>
      rw [hg2] at ht
      exact ht.elim
  case nobody =>
    intro t id _ v hv
    match v with
    | 0 =>
      rw [hr0] at hv
      exact hv.elim
    | 1 =>
      rw [hr1] at hv
      exact hv.elim
    | 2 =>
      rw [hr2] at hv
      exact hv.elim

end VfsRedirector.Client
