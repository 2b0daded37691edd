import VfsRedirector.Library.Transition

/-!
# Histories and atomic objects

A history is what can be seen of a run from outside: each step shows a list of events,
and the history is all of them in order. `History S event` are the runs of a system with
their histories, and `History.simulation` carries the histories of one system to another.

An object that several threads call is specified by what its operations do when they are
alone. `atomicObject` is the system in which they are: a thread calls an operation, the
operation takes effect in one step, and later the thread has its result. Code whose
histories are all histories of this system is linearizable: nobody can tell that its
operations take more than one step.

## Results

* `simulation` — histories of one system are histories of another.
-/

namespace VfsRedirector.Library

variable {σ τ α β ε : Type}

/-- The runs of `S`, with what they show. -/
inductive History (S : System σ α) (event : σ → α → List ε) : List ε → σ → Prop
  | init {s : σ} (hs : S.init s) : History S event [] s
  | step {h : List ε} {s s' : σ} {a : α} (hr : History S event h s)
      (hstep : S.step s a = some s') : History S event (h ++ event s a) s'

namespace History

variable {S : System σ α} {event : σ → α → List ε} {h : List ε} {s s' : σ}

/-- **Simulation rule for histories.** If each step of `S` is followed by `T`, in one step
that shows the same or, where nothing is shown, in none, then `T` has the histories of `S`. -/
theorem simulation {T : System τ β} {eventT : τ → β → List ε} {R : σ → τ → Prop}
    (hinit : ∀ s, S.init s → ∃ x, T.init x ∧ R s x)
    (hsim : ∀ s a s' x, R s x → S.step s a = some s' →
      (event s a = [] ∧ R s' x) ∨
        ∃ b x', T.step x b = some x' ∧ eventT x b = event s a ∧ R s' x')
    (hr : History S event h s) : ∃ x, History T eventT h x ∧ R s x := by
  induction hr with
  | init hs =>
    obtain ⟨x, hx, hR⟩ := hinit _ hs
    exact ⟨x, .init hx, hR⟩
  | @step h s s' a _ hstep ih =>
    obtain ⟨x, hx, hR⟩ := ih
    obtain ⟨hevent, hR⟩ | ⟨b, x', hb, hevent, hR⟩ := hsim s a s' x hR hstep
    · rw [hevent, List.append_nil]
      exact ⟨x, hx, hR⟩
    · rw [← hevent]
      exact ⟨x', hx.step hb, hR⟩

/-- A run of a list of actions, with its history. -/
theorem exec (hr : History S event h s) (as : List α) (hrun : exec S s as = some s') :
    ∃ h', History S event (h ++ h') s' := by
  induction as generalizing h s with
  | nil =>
    simp only [Library.exec, Option.some.injEq] at hrun
    exact ⟨[], by rw [List.append_nil]; exact hrun ▸ hr⟩
  | cons a as ih =>
    simp only [Library.exec, Option.bind_eq_some_iff] at hrun
    obtain ⟨s₁, hstep, hrest⟩ := hrun
    obtain ⟨h', hr'⟩ := ih (hr.step hstep) hrest
    exact ⟨event s a ++ h', by rw [← List.append_assoc]; exact hr'⟩

end History

-- ---------------------------------------------------------------------------
-- Atomic objects
-- ---------------------------------------------------------------------------

/-- Where a thread is with its call. -/
inductive Phase (Call Result : Type) where
  | idle
  | called (call : Call)
  | done (result : Result)
  deriving DecidableEq

/-- What a caller sees. -/
inductive CallEvent (Thread Call Result : Type) where
  | call (t : Thread) (call : Call)
  | ret (t : Thread) (result : Result)
  deriving DecidableEq

structure Atomic (Thread Object Call Result : Type) where
  object : Object
  phase : Thread → Phase Call Result

inductive AtomicAction (Thread Call Choice : Type) where
  | call (t : Thread) (call : Call)
  /-- The operation takes effect; `choice` is what the environment decides. -/
  | effect (t : Thread) (choice : Choice)
  | ret (t : Thread)

namespace Atomic

variable {Thread Object Call Result Choice : Type} [DecidableEq Thread]

def set (x : Atomic Thread Object Call Result) (t : Thread) (p : Phase Call Result) :
    Atomic Thread Object Call Result :=
  { x with phase := Function.update x.phase t p }

def step (apply : Object → Call → Choice → Object × Result)
    (x : Atomic Thread Object Call Result) :
    AtomicAction Thread Call Choice → Option (Atomic Thread Object Call Result)
  | .call t call =>
    match x.phase t with
    | .idle => some (x.set t (.called call))
    | _ => none
  | .effect t choice =>
    match x.phase t with
    | .called call =>
      some { x.set t (.done (apply x.object call choice).2) with
        object := (apply x.object call choice).1 }
    | _ => none
  | .ret t =>
    match x.phase t with
    | .done _ => some (x.set t .idle)
    | _ => none

def event (x : Atomic Thread Object Call Result) :
    AtomicAction Thread Call Choice → List (CallEvent Thread Call Result)
  | .call t call => [.call t call]
  | .effect _ _ => []
  | .ret t =>
    match x.phase t with
    | .done result => [.ret t result]
    | _ => []

end Atomic

/-- An object that starts as `start` and whose operations are `apply`. -/
def atomicObject {Thread Object Call Result Choice : Type} [DecidableEq Thread] (start : Object)
    (apply : Object → Call → Choice → Object × Result) :
    System (Atomic Thread Object Call Result) (AtomicAction Thread Call Choice) where
  init x := x = ⟨start, fun _ => .idle⟩
  step := Atomic.step apply

end VfsRedirector.Library
