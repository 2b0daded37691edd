import VfsRedirector.Library.Count
import VfsRedirector.Client.RequestInv

/-!
# VFSFilter0UserClient: an honest client

The client is honest when it calls `reply` once for each message it dequeued
and never else; the runs considered here are those of an honest client in
which no allocation fails and the messages of requests find room.

In such a run a request that has been sent and not yet answered has exactly
one token: its message in the queue, or with the client, or the `reply` that
is under way for it. `HonestInv` says that whoever has the token has a request
that is asleep, with its entry in the waiting list and nobody removing it
(`Pending`), and that a request without its token has its answer.

One more assumption is needed (`ReturnsAfterRemoval`): a request does not
return while the `signal` that woke it has still to remove its entry. Without
it the entry that the thread's next request makes under the same id is the one
that is removed.

## Results

* `advance_asleep` — a request on its way to sleep gets there.
* `advance_answer` — only a `reply` writes an answer.
* `Pending.unique`, `Pending.at_owner` — a pending request is the only one of its id,
  on the thread of the id.
-/

namespace VfsRedirector.Client

open Library RequestPc

def Caller.origin? {Id : Type} : Caller Id → Option Nat
  | .request _ _ => none
  | .reply origin => origin

namespace RequestPc

variable {Id : Type}

/-- In its wait, and not woken. -/
def Asleep : RequestPc Id → Option Id → Request Id → Prop
  | .waitLock r' _, _, r | .waitTest r' _, _, r | .waitAssert r' _, _, r => r' = r
  | .waitUnlock r' _ true, event, r | .waitBlock r' _, event, r => r' = r ∧ event = some r.id
  | _, _, _ => False

/-- Past the sending of its message. -/
def Sent : RequestPc Id → Request Id → Prop
  | .waitLock r' _, r | .waitTest r' _, r | .waitAssert r' _, r | .waitUnlock r' _ _, r
  | .waitBlock r' _, r | .removeRegistration r' _, r | .finish r', r => r' = r
  | _, _ => False

/-- In the waiting list, so far as the request itself is concerned. -/
def Entered : RequestPc Id → Request Id → Prop
  | .send r' _, r | .waitLock r' _, r | .waitTest r' _, r | .waitAssert r' _, r
  | .waitUnlock r' _ _, r | .waitBlock r' _, r | .removeRegistration r' _, r
  | .finish r', r => r' = r
  | _, _ => False

/-- In the `reply` that answers the request `inData` of id `id`, before it has
woken it. -/
def Answering : RequestPc Id → Id → Nat → Prop
  | .replyGet i _ o, id, inData | .replyWrite i _ o _, id, inData => i = id ∧ o = some inData
  | .signalLock i c, id, inData | .signalTest i c, id, inData
  | .signalWakeup i c, id, inData => i = id ∧ c.origin? = some inData
  | _, _, _ => False

/-- In the `signal` of a `reply`, which has written its answer. -/
def Signalling : RequestPc Id → Nat → Prop
  | .signalLock _ c, inData | .signalTest _ c, inData | .signalWakeup _ c, inData =>
    c.origin? = some inData
  | _, _ => False

/-- A `reply` under way, or its `signal`, is for a message. -/
def Honest : RequestPc Id → Prop
  | .replyGet _ _ o | .replyWrite _ _ o _ => o ≠ none
  | .signalLock _ c | .signalTest _ c | .signalWakeup _ c | .signalRemove _ c
  | .signalUnlock _ c => c.origin? ≠ none
  | _ => True

/-- Who sleeps has a request under way. -/
theorem Asleep.request {p : RequestPc Id} {event : Option Id} {r : Request Id}
    (h : p.Asleep event r) : p.request? = some r := by
  cases p <;> try exact h.elim
  case waitUnlock r' inserted wait =>
    cases wait with
    | true => exact congrArg some h.1
    | false => exact h.elim
  case waitBlock r' inserted => exact congrArg some h.1
  all_goals exact congrArg some h

/-- A request sleeps on as long as its thread waits for its event. -/
theorem Asleep.event {p : RequestPc Id} {event event' : Option Id} {r : Request Id}
    (h : p.Asleep event r) (hevent : event = some r.id → event' = some r.id) :
    p.Asleep event' r := by
  cases p <;> first | exact h | skip
  case waitUnlock r' inserted wait =>
    cases wait with
    | true => exact ⟨h.1, hevent h.2⟩
    | false => exact h
  case waitBlock r' inserted => exact ⟨h.1, hevent h.2⟩

/-- Who has entered the waiting list has a request under way. -/
theorem Entered.request {p : RequestPc Id} {r : Request Id} (h : p.Entered r) :
    p.request? = some r := by
  cases p <;> first | exact congrArg some h | exact h.elim

end RequestPc

variable {Thread Id : Type} [DecidableEq Thread] [DecidableEq Id]
variable {owner : Id → Thread} {hasRoom : List (Message Id) → Nat → Bool}
variable {s s' : Requests Thread Id} {a : RequestAction Thread Id} {t u : Thread}

-- ---------------------------------------------------------------------------
-- What one step can do to messages and answers
-- ---------------------------------------------------------------------------

/-- A request on its way to sleep gets there if its entry is in the list. -/
theorem advance_asleep {alloc : Bool} {r : Request Id} (h : s.advance hasRoom t alloc = some s')
    (hasleep : (s.pc t).Asleep (s.waitEvent t) r)
    (hentry : s.gFileOpenWaitingList.getDataByKey r.id ≠ none) :
    (s'.pc t).Asleep (s'.waitEvent t) r := by
  revert h
  fun_cases Requests.advance hasRoom s t alloc <;> intro h <;> cases h
  all_goals simp_all +zetaDelta [Requests.goto, Asleep]

/-- Only the sending of a request changes the queue. -/
theorem advance_queue {alloc : Bool} (h : s.advance hasRoom t alloc = some s') :
    s'.held = s.held ∧
    ((s'.fDataQueue = s.fDataQueue ∧ ∀ r inserted, s.pc t ≠ .send r inserted) ∨
      ∃ r inserted, s.pc t = .send r inserted ∧ s'.pc t = .waitLock r inserted ∧
        s'.fDataQueue = enqueue hasRoom s.fDataQueue (.preOperation r)) := by
  revert h
  fun_cases Requests.advance hasRoom s t alloc <;> intro h <;> cases h
  all_goals simp_all [Requests.goto, messageSize_ne_zero]

/-- Only the write of a `reply` changes what is in a request, and it records the answer. -/
theorem advance_answer (h : s.advance hasRoom t true = some s') :
    (s'.answer = s.answer ∧ s'.inData = s.inData ∧
      ∀ id flag origin inData, s.pc t ≠ .replyWrite id flag origin inData) ∨
    ∃ id flag origin inData, s.pc t = .replyWrite id flag origin inData ∧
      s'.pc t = .signalLock id (.reply origin) ∧ s'.inData = s.writeAnswer inData flag ∧
      s'.answer = s.recordAnswer origin flag := by
  revert h
  fun_cases Requests.advance hasRoom s t true <;> intro h <;> cases h
  case case22 id flag origin inData hp =>
    exact .inr ⟨id, flag, origin, inData, hp, by simp [Requests.goto], rfl, rfl⟩
  all_goals simp_all +zetaDelta [Requests.goto]

/-- Nobody starts to answer by moving on. -/
theorem advance_answering {alloc : Bool} {id : Id} {f : Nat}
    (h : s.advance hasRoom t alloc = some s') :
    (s'.pc t).Answering id f → (s.pc t).Answering id f := by
  revert h
  fun_cases Requests.advance hasRoom s t alloc <;> intro h <;> cases h
  all_goals simp_all [Requests.goto, Answering, Caller.origin?]

/-- A filter request is registered by the operation of that name. -/
theorem advance_register {r : Request Id} (h : s.advance hasRoom t true = some s')
    (hp : s.pc t = .register r) (hop : r.op = .filter) :
    s'.gPreOperationDataMap.getDataByKey r.id = some r.inData := by
  revert h
  fun_cases Requests.advance hasRoom s t true <;> intro h <;> cases h
  all_goals simp_all +zetaDelta

/-- Who is about to send has just entered the waiting list. -/
theorem advance_sending {r : Request Id} {inserted : Bool}
    (h : s.advance hasRoom t true = some s') (hp' : s'.pc t = .send r inserted) :
    s.pc t = .enter r inserted ∧
      s'.gFileOpenWaitingList.getDataByKey r.id = some r.inData := by
  revert h
  fun_cases Requests.advance hasRoom s t true <;> intro h <;> cases h
  all_goals simp_all +zetaDelta [Requests.goto]

/-- The pointer that `reply` writes through is what the map had. -/
theorem advance_fetch {alloc flag : Bool} {id : Id} {origin inData : Option Nat}
    (h : s.advance hasRoom t alloc = some s')
    (hp' : s'.pc t = .replyWrite id flag origin inData) :
    s.pc t = .replyGet id flag origin ∧ inData = s.gPreOperationDataMap.getDataByKey id ∧
      s'.inData = s.inData := by
  revert h
  fun_cases Requests.advance hasRoom s t alloc <;> intro h <;> cases h
  case case21 id₀ flag₀ origin₀ hp =>
    simp only [Requests.goto, Function.update_self, replyWrite.injEq] at hp'
    obtain ⟨rfl, rfl, rfl, rfl⟩ := hp'
    exact ⟨hp, rfl, rfl⟩
  all_goals simp_all [Requests.goto]

/-- A `reply` stops answering when it has written its answer. -/
theorem advance_answered {alloc : Bool} {id : Id} {f : Nat}
    (h : s.advance hasRoom t alloc = some s') (hanswering : (s.pc t).Answering id f) :
    (s'.pc t).Answering id f ∨ (s.pc t).Signalling f := by
  revert h
  fun_cases Requests.advance hasRoom s t alloc <;> intro h <;> cases h
  all_goals simp_all [Requests.goto, Answering, Signalling, Caller.origin?]

/-- A `reply` signals after its write. -/
theorem advance_signalling {alloc : Bool} {f : Nat} (h : s.advance hasRoom t alloc = some s')
    (hsignalling : (s'.pc t).Signalling f) :
    (s.pc t).Signalling f ∨ ∃ id flag inData, s.pc t = .replyWrite id flag (some f) inData := by
  revert h
  fun_cases Requests.advance hasRoom s t alloc <;> intro h <;> cases h
  all_goals simp_all [Requests.goto, Signalling, Caller.origin?, messageSize_ne_zero]

/-- A request has sent its message after its sending. -/
theorem advance_sent {r : Request Id} (h : s.advance hasRoom t true = some s')
    (hhonest : (s.pc t).Honest) (hsent : (s'.pc t).Sent r) :
    (s.pc t).Sent r ∨ ∃ inserted, s.pc t = .send r inserted := by
  revert h
  fun_cases Requests.advance hasRoom s t true <;> intro h <;> cases h
  all_goals simp_all +zetaDelta [Requests.goto, Sent, Honest, Caller.origin?]

/-- Its entry is its own until it finishes. -/
theorem advance_entered {r : Request Id} (h : s.advance hasRoom t true = some s')
    (hentered : (s.pc t).Entered r) : (s'.pc t).Entered r ∨ s.pc t = .finish r := by
  revert h
  fun_cases Requests.advance hasRoom s t true <;> intro h <;> cases h
  all_goals simp_all +zetaDelta [Requests.goto, Entered, messageSize_ne_zero]

/-- An honest `reply` goes on as one. -/
theorem advance_honest {alloc : Bool} (h : s.advance hasRoom t alloc = some s')
    (hhonest : (s.pc t).Honest) : (s'.pc t).Honest := by
  revert h
  fun_cases Requests.advance hasRoom s t alloc <;> intro h <;> cases h
  all_goals simp_all [Requests.goto, Honest, Caller.origin?, messageSize_ne_zero]

-- ---------------------------------------------------------------------------
-- The invariant
-- ---------------------------------------------------------------------------

def Message.request? : Message Id → Option (Request Id)
  | .audit _ => none
  | .preOperation r => some r

/-- The requests whose messages are in the queue or with the client. -/
def Requests.outstanding (s : Requests Thread Id) : List (Request Id) :=
  (s.fDataQueue ++ s.held).filterMap Message.request?

/-- The entry of the request is in the waiting list, and nobody removes it. -/
def Kept (s : Requests Thread Id) (r : Request Id) : Prop :=
  s.gFileOpenWaitingList.getDataByKey r.id = some r.inData ∧ ∀ v, ¬ (s.pc v).Removing r.id

/-- The request is asleep, or on its way to sleep, and will stay so until its
reply wakes it. -/
def Pending (owner : Id → Thread) (s : Requests Thread Id) (r : Request Id) : Prop :=
  (s.pc (owner r.id)).Asleep (s.waitEvent (owner r.id)) r ∧ Kept s r

structure HonestInv (owner : Id → Thread) (s : Requests Thread Id) : Prop where
  honest : ∀ t, (s.pc t).Honest
  -- who has a token
  queued : ∀ r ∈ s.outstanding, Pending owner s r
  answering : ∀ u id f, (s.pc u).Answering id f → ∃ r, r.id = id ∧ r.inData = f ∧ Pending owner s r
  sending : ∀ t r inserted, s.pc t = .send r inserted → Kept s r
  -- a request has one token at most
  nodup : s.outstanding.Nodup
  apart : ∀ r ∈ s.outstanding, ∀ u, ¬ (s.pc u).Answering r.id r.inData
  single : ∀ u v id f, (s.pc u).Answering id f → (s.pc v).Answering id f → u = v
  -- what is registered and entered
  op_kept : ∀ t r, (s.pc t).request? = some r → (s.inData r.inData).op = r.op
  registered : ∀ t r, (s.pc t).request? = some r → r.op = .filter →
    s.pc t = .register r ∨ s.pc t = .finish r ∨
      s.gPreOperationDataMap.getDataByKey r.id = some r.inData
  entries : ∀ id f, s.gFileOpenWaitingList.getDataByKey id = some f →
    ∃ r, r.id = id ∧ r.inData = f ∧ (s.pc (owner id)).Entered r
  -- the answers
  fetched : ∀ u id flag f inData, s.pc u = .replyWrite id flag (some f) inData →
    (∀ g, inData = some g → g = f) ∧ ((s.inData f).op = .filter → inData = some f)
  fresh : ∀ f, s.nextRequest ≤ f → s.answer f = none
  answered : ∀ u f, (s.pc u).Signalling f → s.answer f ≠ none
  value : ∀ f b, s.answer f = some b → (s.inData f).op = .filter →
    (s.inData f).isControlledFile = b
  sent : ∀ t r, (s.pc t).Sent r →
    s.answer r.inData ≠ none ∨ r ∈ s.outstanding ∨ ∃ u, (s.pc u).Answering r.id r.inData
  returned : ∀ f b, s.returned f = some b →
    ∃ answer, s.answer f = some answer ∧ ((s.inData f).op = .filter → b = answer)

/-- The client calls `reply` for the messages it dequeued, once for each; no
allocation fails and the messages of requests find room. -/
def HonestRun (hasRoom : List (Message Id) → Nat → Bool) (s : Requests Thread Id) :
    RequestAction Thread Id → Prop
  | .advance t alloc =>
    alloc = true ∧ ∀ r inserted, s.pc t = .send r inserted →
      hasRoom s.fDataQueue (messageSize r.length) = true
  | .reply _ _ _ => False
  | _ => True

/-- A request returns only when the `signal` that woke it has removed its entry. -/
def ReturnsAfterRemoval (s : Requests Thread Id) : RequestAction Thread Id → Prop
  | .advance t _ => ∀ r, s.pc t = .finish r → ∀ v, ¬ (s.pc v).Removing r.id
  | _ => True

omit [DecidableEq Thread] in
/-- Two pending requests of one id are the same. -/
theorem Pending.unique {r r' : Request Id} (h : Pending owner s r) (h' : Pending owner s r')
    (hid : r.id = r'.id) : r = r' := by
  have hr := h.1.request
  have hr' := h'.1.request
  rw [hid, hr'] at hr
  exact (Option.some.inj hr).symm

omit [DecidableEq Thread] in
/-- A pending request is asleep on the thread that owns its id. -/
theorem Pending.at_owner {r : Request Id} (h : Pending owner s r) (hown : owner r.id = t) :
    (s.pc t).Asleep (s.waitEvent t) r :=
  hown ▸ h.1

end VfsRedirector.Client
