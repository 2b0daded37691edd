import VfsRedirector.Library.Transition

/-!
# com_VFSFilter0: publishing the user client

`com_VFSFilter0` publishes at most one user client in the field `userClient`.
Hook threads take the published client with `getClient`, use it, and hand it
back with `putClient`; `registerUserClient` publishes a client and
`unregisterUserClient` takes it back. There is no lock: the four functions
meet only in atomic reads, atomic increments and decrements and
compare-and-swaps of three fields, so the model takes one step for each of
those.

Ghost fields, read by no step:

* `registration` numbers the successful compare-and-swaps of
  `registerUserClient`, and the threads that obtained the client, or took it
  down, remember the number they met. The same object may be registered more
  than once, and the references have to balance for each registration;
* `dropped n` counts the references dropped for registration `n`.

`clientInvocations` is an integer here: the 32-bit counter of the source
holds at most the number of threads of the machine.
-/

namespace VfsRedirector.Client

open Library

inductive IOReturn where
  | success
  | error
  | noMemory
  | noDevice
  | badArgument
  deriving DecidableEq, Repr

/-- Where a thread stands in the functions of `com_VFSFilter0`. A constructor
names the next atomic operation of the thread; `n` is the number of the
registration it met. -/
inductive GatePc (Client : Type) where
  | idle
  -- getClient
  | getTestClient
  | getTestPending
  | getIncrement
  | getRead
  | getSwapSame (currentClient : Client)
  | getSwapNull (currentClient : Client) (n : Nat)
  | getDecrement
  /-- `getClient` returned the client, `putClient` has not decremented yet. -/
  | inUse (client : Client) (n : Nat)
  -- putClient, past its decrement to zero
  | putTestClient
  -- registerUserClient
  | registerTestPending (client : Client)
  | registerSwap (client : Client)
  | registerRetain (client : Client)
  -- unregisterUserClient
  | unregisterRead (client : Client)
  | unregisterSetPending (currentClient : Client)
  | unregisterSwap (currentClient : Client)
  | unregisterGiveUp
  | unregisterSleep (currentClient : Client) (n : Nat)
  | unregisterTest (currentClient : Client) (n : Nat)
  | unregisterRelease (currentClient : Client) (n : Nat)
  | unregisterClearPending
  | returned (rc : IOReturn)
  deriving DecidableEq, Repr

/-- The fields of `com_VFSFilter0`, the retain counts of the client objects,
and the threads. -/
structure Gate (Client Thread : Type) where
  userClient : Option Client
  pendingUnregistration : Bool
  clientInvocations : Int
  retainCount : Client → Int
  pc : Thread → GatePc Client
  registration : Nat
  dropped : Nat → Nat

/-- The functions a thread may call when it is in none of them. -/
inductive GateCall (Client : Type) where
  | getClient
  | registerUserClient (client : Client)
  | unregisterUserClient (client : Client)

inductive GateAction (Client Thread : Type) where
  /-- An idle thread calls a function. -/
  | call (t : Thread) (f : GateCall Client)
  /-- A thread that holds the client calls `putClient`, which decrements. -/
  | putClient (t : Thread)
  /-- The next atomic operation of a thread inside a function. -/
  | advance (t : Thread)

namespace Gate

variable {Client Thread : Type} [DecidableEq Client] [DecidableEq Thread]

def goto (s : Gate Client Thread) (t : Thread) (p : GatePc Client) : Gate Client Thread :=
  { s with pc := Function.update s.pc t p }

def enterCall : GateCall Client → GatePc Client
  | .getClient => .getTestClient
  | .registerUserClient c => .registerTestPending c
  | .unregisterUserClient c => .unregisterRead c

/-- The next atomic operation of thread `t`. -/
def advance (s : Gate Client Thread) (t : Thread) : Option (Gate Client Thread) :=
  match s.pc t with
  | .idle => none
  -- if( NULL == this->userClient || this->pendingUnregistration ) return NULL;
  | .getTestClient =>
    if s.userClient = none then some (s.goto t .idle) else some (s.goto t .getTestPending)
  | .getTestPending =>
    if s.pendingUnregistration then some (s.goto t .idle) else some (s.goto t .getIncrement)
  | .getIncrement =>
    some { s.goto t .getRead with clientInvocations := s.clientInvocations + 1 }
  | .getRead =>
    match s.userClient with
    | none => some (s.goto t .getDecrement)
    | some c => some (s.goto t (.getSwapSame c))
  | .getSwapSame c =>
    if s.userClient = some c then some (s.goto t (.getSwapNull c s.registration))
    else some (s.goto t .getDecrement)
  -- the swap of NULL for NULL succeeds when the pointer went NULL meanwhile
  | .getSwapNull c n =>
    if s.userClient = none then some (s.goto t .getDecrement) else some (s.goto t (.inUse c n))
  | .getDecrement =>
    some { s.goto t .idle with clientInvocations := s.clientInvocations - 1 }
  | .inUse _ _ => none
  -- the wakeup only shortens the sleep of unregisterUserClient
  | .putTestClient => some (s.goto t .idle)
  | .registerTestPending c =>
    if s.pendingUnregistration then some (s.goto t (.returned .error))
    else some (s.goto t (.registerSwap c))
  | .registerSwap c =>
    if s.userClient = none then
      some { s.goto t (.registerRetain c) with
        userClient := some c, registration := s.registration + 1 }
    else some (s.goto t (.returned .error))
  | .registerRetain c =>
    some { s.goto t (.returned .success) with
      retainCount := Function.update s.retainCount c (s.retainCount c + 1) }
  | .unregisterRead c =>
    if s.userClient = some c then some (s.goto t (.unregisterSetPending c))
    else some (s.goto t (.returned .error))
  | .unregisterSetPending c =>
    some { s.goto t (.unregisterSwap c) with pendingUnregistration := true }
  | .unregisterSwap c =>
    if s.userClient = some c then
      some { s.goto t (.unregisterSleep c s.registration) with userClient := none }
    else some (s.goto t .unregisterGiveUp)
  | .unregisterGiveUp =>
    some { s.goto t (.returned .error) with pendingUnregistration := false }
  -- msleep returns when it is woken and after a second at the latest
  | .unregisterSleep c n => some (s.goto t (.unregisterTest c n))
  | .unregisterTest c n =>
    if s.clientInvocations ≠ 0 then some (s.goto t (.unregisterSleep c n))
    else some (s.goto t (.unregisterRelease c n))
  | .unregisterRelease c n =>
    some { s.goto t .unregisterClearPending with
      retainCount := Function.update s.retainCount c (s.retainCount c - 1)
      dropped := Function.update s.dropped n (s.dropped n + 1) }
  | .unregisterClearPending =>
    some { s.goto t (.returned .success) with pendingUnregistration := false }
  | .returned _ => some (s.goto t .idle)

def step (s : Gate Client Thread) : GateAction Client Thread → Option (Gate Client Thread)
  | .call t f => if s.pc t = .idle then some (s.goto t (enterCall f)) else none
  | .putClient t =>
    match s.pc t with
    | .inUse _ _ =>
      some { s.goto t (if s.clientInvocations = 1 then .putTestClient else .idle) with
        clientInvocations := s.clientInvocations - 1 }
    | _ => none
  | .advance t => s.advance t

/-- No client is published and no thread is inside the functions. -/
def initial (retainCount : Client → Int) : Gate Client Thread where
  userClient := none
  pendingUnregistration := false
  clientInvocations := 0
  retainCount := retainCount
  pc := fun _ => .idle
  registration := 0
  dropped := fun _ => 0

end Gate

/-- com_VFSFilter0 with any number of threads and successive clients. -/
def gateSystem (Client Thread : Type) [DecidableEq Client] [DecidableEq Thread] :
    System (Gate Client Thread) (GateAction Client Thread) where
  init s := ∃ retainCount, s = Gate.initial retainCount
  step := Gate.step

end VfsRedirector.Client
