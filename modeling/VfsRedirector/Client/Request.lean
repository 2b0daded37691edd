import VfsRedirector.Library.Transition
import VfsRedirector.DataMap

/-!
# VFSFilter0UserClient: requests to the daemon and their replies

A hook thread that needs the daemon calls `preOperationCallbackAndWaitForReply`:
it registers the caller's `QvrPreOperationCallback` in `gPreOperationDataMap`
(for `VFSOpcode_Filter` only), enters its id in `gFileOpenWaitingList`, stores
a message in the data queue and waits. A thread of the daemon that enters the
kernel with `reply` fetches the registered pointer, writes the answer through
it and signals the id.

The id of a request is the address of a local variable, so an id belongs to
one thread (`owner`) and the next request of that thread may have the same id.

One action is one atomic step of one thread: an operation on a `DataMap` (which
has a lock of its own), taking or dropping the lock of the waiting list, one
write, one call of `assert_wait`, `thread_wakeup` or `thread_block`, one
`enqueue` under `queueLock`.

Ghosts, which no step reads:

* a request is numbered, and its number stands for the address of the caller's
  `QvrPreOperationCallback`: unlike the address it is never reused, so a write
  through a pointer whose request has returned can be told from a write to the
  request that has its place in memory now. Messages carry the number too, and
  the waiting list has it for the `this` which the source stores there;
* `answer` records the answer of the reply to a request's message, `returned`
  what a request found in its `isControlledFile` when it returned, `received`
  every message the client ever dequeued.
-/

namespace VfsRedirector.Client

open Library

/-- The values of `VFSOpcode` that `preOperationCallbackAndWaitForReply` handles. -/
inductive Opcode where
  | lookup
  | exchange
  | filter
  deriving DecidableEq, Repr

/-- The caller's `QvrPreOperationCallback`, so far as `reply` uses it. -/
structure PreOperationCallback where
  op : Opcode
  isControlledFile : Bool
  deriving DecidableEq, Repr

/-- A call of `preOperationCallbackAndWaitForReply`. `length` is the `strlen`
of the path that its message has last. -/
structure Request (Id : Type) where
  op : Opcode
  id : Id
  inData : Nat
  length : Nat
  deriving DecidableEq, Repr

/-- A `VFSFilter0UserClientData` in the data queue. -/
inductive Message (Id : Type) where
  | audit (size : Nat)
  | preOperation (r : Request Id)
  deriving DecidableEq, Repr

/-- `MAXPATHLEN` -/
def maxPathLen : Nat := 1024

/-- `sizeof( VFSFilter0UserClientData )` -/
def sizeofUserClientData : Nat := 3104

/-- The `size` that `sendVFSDataToClient` computes, in each of its branches:
the last path of the data is cut to its characters, or emptied if too long. -/
def messageSize (length : Nat) : Nat :=
  sizeofUserClientData - maxPathLen + (if length + 1 ≤ maxPathLen then length + 1 else 1)

/-- No message is empty. -/
theorem messageSize_ne_zero (length : Nat) : messageSize length ≠ 0 := by
  unfold messageSize sizeofUserClientData maxPathLen
  omega

def Message.size {Id : Type} : Message Id → Nat
  | .audit size => size
  | .preOperation r => messageSize r.length

/-- `IODataQueue::enqueue`: stores the message if there is room. -/
def enqueue {Id : Type} (hasRoom : List (Message Id) → Nat → Bool) (queue : List (Message Id))
    (m : Message Id) : List (Message Id) :=
  if hasRoom queue m.size then queue ++ [m] else queue

/-- Who called `WaitingList::signal`: a request that was not enqueued, or
`reply`, answering the message of the request `origin` if it answers one. -/
inductive Caller (Id : Type) where
  | request (r : Request Id) (inserted : Bool)
  | reply (origin : Option Nat)
  deriving DecidableEq, Repr

/-- A constructor names the next atomic operation of the thread. -/
inductive RequestPc (Id : Type) where
  | idle
  -- preOperationCallbackAndWaitForReply; inserted is insertedInPreOperationDataMap
  | register (r : Request Id)
  | enter (r : Request Id) (inserted : Bool)
  | send (r : Request Id) (inserted : Bool)
  | removeRegistration (r : Request Id) (inserted : Bool)
  | finish (r : Request Id)
  -- WaitingList::wait
  | waitLock (r : Request Id) (inserted : Bool)
  | waitTest (r : Request Id) (inserted : Bool)
  | waitAssert (r : Request Id) (inserted : Bool)
  | waitUnlock (r : Request Id) (inserted wait : Bool)
  | waitBlock (r : Request Id) (inserted : Bool)
  -- WaitingList::signal
  | signalLock (id : Id) (caller : Caller Id)
  | signalTest (id : Id) (caller : Caller Id)
  | signalWakeup (id : Id) (caller : Caller Id)
  | signalRemove (id : Id) (caller : Caller Id)
  | signalUnlock (id : Id) (caller : Caller Id)
  -- reply
  | replyGet (id : Id) (isControlledFile : Bool) (origin : Option Nat)
  | replyWrite (id : Id) (isControlledFile : Bool) (origin inData : Option Nat)
  deriving DecidableEq, Repr

structure Requests (Thread Id : Type) where
  gPreOperationDataMap : DataMap Id Nat
  gFileOpenWaitingList : DataMap Id Nat
  /-- The lock of the waiting list. -/
  lock : Option Thread
  /-- The event a thread waits for since its `assert_wait`. -/
  waitEvent : Thread → Option Id
  fDataQueue : List (Message Id)
  /-- The messages the client has dequeued and not answered. -/
  held : List (Message Id)
  inData : Nat → PreOperationCallback
  pc : Thread → RequestPc Id
  nextRequest : Nat
  answer : Nat → Option Bool
  returned : Nat → Option Bool
  received : List (Message Id)

inductive RequestAction (Thread Id : Type) where
  /-- A hook thread calls `preOperationCallbackAndWaitForReply`. -/
  | call (t : Thread) (op : Opcode) (id : Id) (length : Nat)
  /-- A hook thread calls `sendVFSDataToClient` for an audit message. -/
  | audit (t : Thread) (length : Nat)
  /-- The client takes a message from the queue. -/
  | dequeue
  /-- The client calls `reply` for a message it holds, and holds it no longer. -/
  | replyTo (t : Thread) (r : Request Id) (isControlledFile : Bool)
  /-- The client calls `reply` with an id of its choice. -/
  | reply (t : Thread) (id : Id) (isControlledFile : Bool)
  /-- The next atomic operation of a thread; `alloc` is whether the allocation
  that `addDataByKey` makes succeeds. -/
  | advance (t : Thread) (alloc : Bool)

namespace Requests

variable {Thread Id : Type} [DecidableEq Thread] [DecidableEq Id]

def goto (s : Requests Thread Id) (t : Thread) (p : RequestPc Id) : Requests Thread Id :=
  { s with pc := Function.update s.pc t p }

/-- The write of `reply` through the pointer it fetched. -/
def writeAnswer (s : Requests Thread Id) (inData : Option Nat) (isControlledFile : Bool) :
    Nat → PreOperationCallback :=
  match inData with
  | none => s.inData
  | some f =>
    match (s.inData f).op with
    | .filter =>
      Function.update s.inData f { s.inData f with isControlledFile := isControlledFile }
    | _ => s.inData

/-- The ghost record of an answer. -/
def recordAnswer (s : Requests Thread Id) (origin : Option Nat) (isControlledFile : Bool) :
    Nat → Option Bool :=
  match origin with
  | none => s.answer
  | some f => Function.update s.answer f (some isControlledFile)

/-- The next atomic operation of thread `t`. -/
def advance (hasRoom : List (Message Id) → Nat → Bool) (s : Requests Thread Id) (t : Thread)
    (alloc : Bool) : Option (Requests Thread Id) :=
  match s.pc t with
  | .idle => none
  | .register r =>
    if r.op = .filter then
      let added := s.gPreOperationDataMap.addDataByKey r.id r.inData alloc
      if added.2 then some { s.goto t (.enter r true) with gPreOperationDataMap := added.1 }
      else some { s.goto t (.enter r false) with
        inData := Function.update s.inData r.inData
          { s.inData r.inData with isControlledFile := false } }
    else some (s.goto t (.enter r false))
  | .enter r inserted =>
    let added := s.gFileOpenWaitingList.addDataByKey r.id r.inData alloc
    if added.2 then some { s.goto t (.send r inserted) with gFileOpenWaitingList := added.1 }
    else some (s.goto t (.removeRegistration r inserted))
  -- WasEnqueued is set whatever enqueue returns
  | .send r inserted =>
    if messageSize r.length ≠ 0 then
      some { s.goto t (.waitLock r inserted) with
        fDataQueue := enqueue hasRoom s.fDataQueue (.preOperation r) }
    else some (s.goto t (.signalLock r.id (.request r inserted)))
  | .waitLock r inserted =>
    if s.lock = none then some { s.goto t (.waitTest r inserted) with lock := some t } else none
  | .waitTest r inserted =>
    if (s.gFileOpenWaitingList.getDataByKey r.id).isSome then
      some (s.goto t (.waitAssert r inserted))
    else some (s.goto t (.waitUnlock r inserted false))
  | .waitAssert r inserted =>
    some { s.goto t (.waitUnlock r inserted true) with
      waitEvent := Function.update s.waitEvent t (some r.id) }
  | .waitUnlock r inserted true => some { s.goto t (.waitBlock r inserted) with lock := none }
  | .waitUnlock r inserted false =>
    some { s.goto t (.removeRegistration r inserted) with lock := none }
  -- thread_block returns at once if the event has been set since assert_wait
  | .waitBlock r inserted =>
    if s.waitEvent t = none then some (s.goto t (.removeRegistration r inserted)) else none
  | .removeRegistration r inserted =>
    if inserted then
      some { s.goto t (.finish r) with
        gPreOperationDataMap := s.gPreOperationDataMap.removeKey r.id }
    else some (s.goto t (.finish r))
  | .finish r =>
    some { s.goto t .idle with
      returned := Function.update s.returned r.inData (some (s.inData r.inData).isControlledFile) }
  | .replyGet id isControlledFile origin =>
    some (s.goto t
      (.replyWrite id isControlledFile origin (s.gPreOperationDataMap.getDataByKey id)))
  | .replyWrite id isControlledFile origin inData =>
    some { s.goto t (.signalLock id (.reply origin)) with
      inData := s.writeAnswer inData isControlledFile
      answer := s.recordAnswer origin isControlledFile }
  | .signalLock id caller =>
    if s.lock = none then some { s.goto t (.signalTest id caller) with lock := some t } else none
  | .signalTest id caller =>
    if (s.gFileOpenWaitingList.getDataByKey id).isSome then
      some (s.goto t (.signalWakeup id caller))
    else some (s.goto t (.signalUnlock id caller))
  | .signalWakeup id caller =>
    some { s.goto t (.signalRemove id caller) with
      waitEvent := fun u => if s.waitEvent u = some id then none else s.waitEvent u }
  | .signalRemove id caller =>
    some { s.goto t (.signalUnlock id caller) with
      gFileOpenWaitingList := s.gFileOpenWaitingList.removeKey id }
  | .signalUnlock _ (.request r inserted) =>
    some { s.goto t (.removeRegistration r inserted) with lock := none }
  | .signalUnlock _ (.reply _) => some { s.goto t .idle with lock := none }

def step (owner : Id → Thread) (hasRoom : List (Message Id) → Nat → Bool)
    (s : Requests Thread Id) : RequestAction Thread Id → Option (Requests Thread Id)
  | .call t op id length =>
    if s.pc t = .idle ∧ owner id = t then
      some { s.goto t (.register ⟨op, id, s.nextRequest, length⟩) with
        -- the callers zero the structure and set op
        inData := Function.update s.inData s.nextRequest ⟨op, false⟩
        nextRequest := s.nextRequest + 1 }
    else none
  | .audit t length =>
    if s.pc t = .idle then
      some { s with fDataQueue := enqueue hasRoom s.fDataQueue (.audit (messageSize length)) }
    else none
  | .dequeue =>
    match s.fDataQueue with
    | [] => none
    | m :: queue =>
      some { s with fDataQueue := queue, held := m :: s.held, received := m :: s.received }
  | .replyTo t r isControlledFile =>
    if s.pc t = .idle ∧ .preOperation r ∈ s.held then
      some { s.goto t (.replyGet r.id isControlledFile (some r.inData)) with
        held := s.held.erase (.preOperation r) }
    else none
  | .reply t id isControlledFile =>
    if s.pc t = .idle then some (s.goto t (.replyGet id isControlledFile none)) else none
  | .advance t alloc => s.advance hasRoom t alloc

/-- No request and no message yet. -/
def initial : Requests Thread Id where
  gPreOperationDataMap := .empty
  gFileOpenWaitingList := .empty
  lock := none
  waitEvent := fun _ => none
  fDataQueue := []
  held := []
  inData := fun _ => ⟨.filter, false⟩
  pc := fun _ => .idle
  nextRequest := 0
  answer := fun _ => none
  returned := fun _ => none
  received := []

end Requests

/-- Any number of hook threads and client threads. `owner` says on whose stack
an id lies, `hasRoom` when the data queue takes a message of a size. -/
def requestSystem {Thread Id : Type} [DecidableEq Thread] [DecidableEq Id] (owner : Id → Thread)
    (hasRoom : List (Message Id) → Nat → Bool) :
    System (Requests Thread Id) (RequestAction Thread Id) where
  init s := s = Requests.initial
  step := Requests.step owner hasRoom

end VfsRedirector.Client
