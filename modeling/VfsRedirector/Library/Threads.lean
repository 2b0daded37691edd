import VfsRedirector.Library.Log
import VfsRedirector.Library.Transition

/-!
# Programs that run side by side

Every thread has a stack of invocations: the code of a request, with the calls
that it has made. A step is one call of the code on top of one thread's stack, in
the state that all threads share. While a call has not returned, its thread may be
given another request, which is served first. Everything else that happens to the
shared state is an action of its own.

What holds of one invocation, whatever comes back from its calls, is a statement
about its code alone (`Prog.Always`), and is carried over to all runs
(`ReachableBy.always`).

## Results

* `threadSystem_step_cases` — what a step can be.
* `ReachableBy.always` — an invocation goes as its code does on its own.
* `Served.always` — so does a request, given what held when it was made.
* `ReachableBy.nested` — a request gives back what it found.
-/

namespace VfsRedirector.Library

variable {Op : Type} {Res : Op → Type} {α β : Type}

-- ---------------------------------------------------------------------------
-- Code on its own
-- ---------------------------------------------------------------------------

/-- From `log` on, every call of the code satisfies `P`, and at the end `Q` holds, if its
calls return what `G` says. -/
def Prog.Always (P : Log Res → Op → Prop) (G : Log Res → (o : Op) → Res o → Prop)
    (Q : α → Log Res → Prop) : Prog Res α → Log Res → Prop
  | .pure a, log => Q a log
  | .call o k, log => P log o ∧ ∀ r, G log o r → (k r).Always P G Q (log ++ [⟨o, r⟩])

namespace Prog.Always

variable {P P' : Log Res → Op → Prop} {G : Log Res → (o : Op) → Res o → Prop}
  {Q Q' : α → Log Res → Prop} {R : β → Log Res → Prop} {p : Prog Res α} {f : α → Prog Res β}
  {log : Log Res} {o : Op}

/-- Code that returns goes as it should if its result does. -/
theorem pure {a : α} (h : Q a log) : (Pure.pure a : Prog Res α).Always P G Q log := h

/-- A call goes as it should if every result that `G` allows does. -/
theorem perform {Q : Res o → Log Res → Prop} (hP : P log o)
    (h : ∀ r, G log o r → Q r (log ++ [⟨o, r⟩])) : (Prog.perform o).Always P G Q log :=
  ⟨hP, h⟩

/-- Two programs go as they should, one after the other. -/
theorem bind (hp : p.Always P G Q log) (hf : ∀ a log, Q a log → (f a).Always P G R log) :
    (p >>= f).Always P G R log := by
  induction p generalizing log with
  | pure a => exact hf a log hp
  | call o k ih => exact ⟨hp.1, fun r hr => ih r (hp.2 r hr)⟩

/-- A call and what follows it go as they should. -/
theorem call {f : Res o → Prog Res β} (hP : P log o)
    (h : ∀ r, G log o r → (f r).Always P G R (log ++ [⟨o, r⟩])) :
    (Prog.perform o >>= f).Always P G R log := ⟨hP, h⟩

/-- What holds at the calls and at the end may be weakened. -/
theorem imp (hp : p.Always P G Q log) (hP : ∀ log o, P log o → P' log o)
    (hQ : ∀ a log, Q a log → Q' a log) : p.Always P' G Q' log := by
  induction p generalizing log with
  | pure a => exact hQ a log hp
  | call o k ih => exact ⟨hP log o hp.1, fun r hr => ih r (hp.2 r hr)⟩

theorem mono (hp : p.Always P G Q log) (hQ : ∀ a log, Q a log → Q' a log) :
    p.Always P G Q' log :=
  hp.imp (fun _ _ h => h) hQ

/-- What holds at every call and at the end, holds now. -/
theorem now {I : Log Res → Prop} (hp : p.Always P G Q log) (hP : ∀ o, P log o → I log)
    (hQ : ∀ a, Q a log → I log) : I log := by
  cases p with
  | pure a => exact hQ a hp
  | call o k => exact hP o hp.1

/-- What the calls keep, the code keeps. -/
theorem calls {C : Op → Prop} {I : Log Res → Prop} (hp : p.Calls C) (hI : I log)
    (hP : ∀ log o, C o → I log → P log o)
    (hstep : ∀ log o r, C o → I log → G log o r → I (log ++ [⟨o, r⟩])) :
    p.Always P G (fun _ => I) log := by
  induction p generalizing log with
  | pure a => exact hI
  | call o k ih =>
    exact ⟨hP log o hp.1 hI, fun r hr => ih r (hp.2 r) (hstep log o r hp.1 hI hr)⟩

end Prog.Always

/-- What the code returns, if it is at its end. -/
def Prog.result : Prog Res α → Option α
  | .pure a => some a
  | .call .. => none

/-- A program has a result if it has returned. -/
theorem Prog.result_eq_some {p : Prog Res α} {a : α} : p.result = some a ↔ p = .pure a := by
  cases p with
  | pure b => simp [Prog.result]
  | call o k => simp [Prog.result]

/-- The call that the code is about to make. -/
def Prog.nextCall : Prog Res α → Option Op
  | .pure _ => none
  | .call o _ => some o

/-- A program has a next call if it has not returned. -/
theorem Prog.nextCall_eq_some {p : Prog Res α} {o : Op} :
    p.nextCall = some o ↔ ∃ k, p = .call o k := by
  cases p with
  | pure b => simp [Prog.nextCall]
  | call o' k =>
    constructor
    · rintro ⟨⟩
      exact ⟨k, rfl⟩
    · rintro ⟨k, ⟨⟩⟩
      rfl

-- ---------------------------------------------------------------------------
-- The system
-- ---------------------------------------------------------------------------

variable {Thread σ χ ε Request : Type}

/-- A request that is served: what is left of its code, and the calls so far. -/
structure Invocation (Res : Op → Type) (Request α : Type) where
  request : Request
  code : Prog Res α
  log : Log Res

/-- What all threads do; the last invocation of a thread is the first of its stack. -/
structure Threads (Thread σ : Type) (Res : Op → Type) (Request α : Type) where
  shared : σ
  stack : Thread → List (Invocation Res Request α)

inductive ThreadAction (Thread Request χ ε : Type) where
  | start (t : Thread) (request : Request)
  | call (t : Thread) (answer : χ)
  | finish (t : Thread)
  | other (e : ε)

/-- The thread that takes the step. -/
def ThreadAction.thread : ThreadAction Thread Request χ ε → Option Thread
  | .start t _ | .call t _ | .finish t => some t
  | .other _ => none

/-- A thread is idle, or waits for a call. -/
def canStart : List (Invocation Res Request α) → Bool
  | [] => true
  | ⟨_, .call .., _⟩ :: _ => true
  | ⟨_, .pure _, _⟩ :: _ => false

variable [DecidableEq Thread]

/-- The thread has another stack, and all have another state. -/
def Threads.set (s : Threads Thread σ Res Request α) (t : Thread) (shared : σ)
    (stack : List (Invocation Res Request α)) : Threads Thread σ Res Request α :=
  ⟨shared, Function.update s.stack t stack⟩

@[simp] theorem Threads.set_shared (s : Threads Thread σ Res Request α) (t : Thread) (shared : σ)
    (stack : List (Invocation Res Request α)) : (s.set t shared stack).shared = shared := rfl

@[simp] theorem Threads.set_stack_self (s : Threads Thread σ Res Request α) (t : Thread)
    (shared : σ) (stack : List (Invocation Res Request α)) :
    (s.set t shared stack).stack t = stack := Function.update_self _ _ _

/-- A change of one thread leaves the stacks of the others. -/
theorem Threads.set_stack_of_ne {s : Threads Thread σ Res Request α} {t u : Thread} {shared : σ}
    {stack : List (Invocation Res Request α)} (h : u ≠ t) :
    (s.set t shared stack).stack u = s.stack u := Function.update_of_ne h _ _

/-- `code` is what is run for a request, `env` what a call does, and `other` what happens
besides the calls. -/
def threadSystem (init : σ → Prop) (env : Thread → Env Res σ χ) (code : Request → Prog Res α)
    (other : ε → σ → σ) :
    System (Threads Thread σ Res Request α) (ThreadAction Thread Request χ ε) where
  init s := init s.shared ∧ ∀ t, s.stack t = []
  step s
    | .start t request =>
      if canStart (s.stack t) then
        some (s.set t s.shared (⟨request, code request, []⟩ :: s.stack t))
      else none
    | .call t c =>
      match s.stack t with
      | ⟨request, .call o k, log⟩ :: stack =>
        let next := env t s.shared o c
        some (s.set t next.1 (⟨request, k next.2, log ++ [⟨o, next.2⟩]⟩ :: stack))
      | _ => none
    | .finish t =>
      match s.stack t with
      | ⟨_, .pure _, _⟩ :: stack => some (s.set t s.shared stack)
      | _ => none
    | .other e => some { s with shared := other e s.shared }

variable {init : σ → Prop} {env : Thread → Env Res σ χ} {code : Request → Prog Res α}
  {other : ε → σ → σ} {s s' : Threads Thread σ Res Request α}
  {a : ThreadAction Thread Request χ ε}

/-- Everything that a step can be. -/
theorem threadSystem_step_cases (h : (threadSystem init env code other).step s a = some s') :
    (∃ t request, a = .start t request ∧
      s' = s.set t s.shared (⟨request, code request, []⟩ :: s.stack t)) ∨
    (∃ t c request o k log stack, a = .call t c ∧
      s.stack t = ⟨request, .call o k, log⟩ :: stack ∧
      s' = s.set t (env t s.shared o c).1 (⟨request,
        k (env t s.shared o c).2, log ++ [⟨o, (env t s.shared o c).2⟩]⟩ :: stack)) ∨
    (∃ t request x log stack, a = .finish t ∧ s.stack t = ⟨request, .pure x, log⟩ :: stack ∧
      s' = s.set t s.shared stack) ∨
    ∃ e, a = .other e ∧ s' = { s with shared := other e s.shared } := by
  cases a with
  | start t request =>
    simp only [threadSystem] at h
    split at h
    · exact Or.inl ⟨t, request, rfl, (Option.some.inj h).symm⟩
    · exact absurd h.symm (Option.some_ne_none _)
  | call t c =>
    simp only [threadSystem] at h
    split at h
    · next request o k log stack hstack =>
      exact Or.inr (Or.inl ⟨t, c, request, o, k, log, stack, rfl, hstack, (Option.some.inj h).symm⟩)
    · exact absurd h.symm (Option.some_ne_none _)
  | finish t =>
    simp only [threadSystem] at h
    split at h
    · next request x log stack hstack =>
      exact Or.inr (Or.inr (Or.inl ⟨t, request, x, log, stack, rfl, hstack,
        (Option.some.inj h).symm⟩))
    · exact absurd h.symm (Option.some_ne_none _)
  | other e => exact Or.inr (Or.inr (Or.inr ⟨e, rfl, (Option.some.inj h).symm⟩))

/-- What the call of an action returns, with the request that it is made for. -/
def Threads.returned (env : Thread → Env Res σ χ) (s : Threads Thread σ Res Request α) :
    ThreadAction Thread Request χ ε → Option (Request × Σ o, Res o)
  | .call t c =>
    match s.stack t with
    | ⟨request, .call o _, _⟩ :: _ => some (request, ⟨o, (env t s.shared o c).2⟩)
    | _ => none
  | _ => none

omit [DecidableEq Thread] in
/-- A call that returns does so to the invocation on top. -/
theorem Threads.returned_call {t : Thread} {c : χ} {request : Request} {o : Op}
    {k : Res o → Prog Res α} {log : Log Res} {stack : List (Invocation Res Request α)}
    (h : s.stack t = ⟨request, .call o k, log⟩ :: stack) :
    s.returned env (.call t c : ThreadAction Thread Request χ ε) =
      some (request, ⟨o, (env t s.shared o c).2⟩) := by
  simp only [Threads.returned, h]

omit [DecidableEq Thread] in
/-- What has returned in a step is the result of its call. -/
theorem Threads.mem_returned {call : Request × Σ o, Res o} (h : call ∈ s.returned env a) :
    ∃ t c request o, a = .call t c ∧ call = (request, ⟨o, (env t s.shared o c).2⟩) := by
  unfold Threads.returned at h
  split at h
  · next t c =>
    split at h
    · next request o k log stack hstack =>
      exact ⟨t, c, request, o, rfl, (Option.some.inj h).symm⟩
    · exact absurd h (Option.not_mem_none call)
  · exact absurd h (Option.not_mem_none call)

/-- The invocations of a thread after a step are those before it, a new one, and the one
whose call has returned. -/
theorem mem_stack_step (h : (threadSystem init env code other).step s a = some s') {t : Thread}
    {v : Invocation Res Request α} (hv : v ∈ s'.stack t) :
    v ∈ s.stack t ∨ (∃ request, a = .start t request ∧ v = ⟨request, code request, []⟩) ∨
      ∃ c request o k log stack, a = .call t c ∧ s.stack t = ⟨request, .call o k, log⟩ :: stack ∧
        v = ⟨request, k (env t s.shared o c).2, log ++ [⟨o, (env t s.shared o c).2⟩]⟩ := by
  obtain ⟨u, request, rfl, rfl⟩ | ⟨u, c, request, o, k, log, stack, rfl, hstack, rfl⟩ |
    ⟨u, request, x, log, stack, rfl, hstack, rfl⟩ | ⟨e, rfl, rfl⟩ := threadSystem_step_cases h
  -- started
  · by_cases ht : t = u
    · subst ht
      rw [Threads.set_stack_self, List.mem_cons] at hv
      exact hv.elim (fun hv => Or.inr (Or.inl ⟨request, rfl, hv⟩)) Or.inl
    · rw [Threads.set_stack_of_ne ht] at hv
      exact Or.inl hv
  -- a call of the topmost invocation returned; those under it are the same
  · by_cases ht : t = u
    · subst ht
      rw [Threads.set_stack_self, List.mem_cons] at hv
      obtain rfl | hv := hv
      · exact Or.inr (Or.inr ⟨c, request, o, k, log, stack, rfl, hstack, rfl⟩)
      · rw [hstack]
        exact Or.inl (List.mem_cons_of_mem _ hv)
    · rw [Threads.set_stack_of_ne ht] at hv
      exact Or.inl hv
  -- finished: what was under it stays
  · by_cases ht : t = u
    · subst ht
      rw [Threads.set_stack_self] at hv
      rw [hstack]
      exact Or.inl (List.mem_cons_of_mem _ hv)
    · rw [Threads.set_stack_of_ne ht] at hv
      exact Or.inl hv
  · exact Or.inl hv

/-- If the guard sees to it that calls return what `G` says, every invocation goes as its
code does on its own. -/
theorem ReachableBy.always {P : Request → Log Res → Op → Prop}
    {G : Request → Log Res → (o : Op) → Res o → Prop} {Q : Request → α → Log Res → Prop}
    {ok : Threads Thread σ Res Request α → ThreadAction Thread Request χ ε → Prop}
    (hcode : ∀ request, (code request).Always (P request) (G request) (Q request) [])
    (hok : ∀ s t c request o k log stack, ok s (.call t c) →
      s.stack t = ⟨request, .call o k, log⟩ :: stack → G request log o (env t s.shared o c).2)
    (h : ReachableBy (threadSystem init env code other) ok s) :
    ∀ t, ∀ v ∈ s.stack t, v.code.Always (P v.request) (G v.request) (Q v.request) v.log := by
  refine h.invariant (I := fun s => ∀ t, ∀ v ∈ s.stack t,
    v.code.Always (P v.request) (G v.request) (Q v.request) v.log)
    (fun s hs t v hv => ?_) fun s a s' ih hok' hstep t v hv => ?_
  · rw [hs.2 t] at hv
    exact absurd hv List.not_mem_nil
  · obtain hv | ⟨request, rfl, rfl⟩ | ⟨c, request, o, k, log, stack, rfl, hstack, rfl⟩ :=
      mem_stack_step hstep hv
    · exact ih t v hv
    · exact hcode request
    · have hcall := ih t ⟨request, .call o k, log⟩ (hstack ▸ List.mem_cons_self)
      exact hcall.2 _ (hok s t c request o k log stack hok' hstack)

-- ---------------------------------------------------------------------------
-- A request from when it is made
-- ---------------------------------------------------------------------------

/-- In a run the thread was given the request, above the invocations `stack`, and in the state
it is still at it: the invocation is what has become of the request. Ever since `P` has held
of the state and the invocation. -/
inductive Served (S : System (Threads Thread σ Res Request α) (ThreadAction Thread Request χ ε))
    (ok : Threads Thread σ Res Request α → ThreadAction Thread Request χ ε → Prop) (t : Thread)
    (request : Request) (P : Threads Thread σ Res Request α → Invocation Res Request α → Prop)
    (stack : List (Invocation Res Request α)) :
    Threads Thread σ Res Request α → Invocation Res Request α → Prop
  | start {s s' : Threads Thread σ Res Request α} {v : Invocation Res Request α}
      (hr : ReachableBy S ok s) (hok : ok s (.start t request))
      (hstep : S.step s (.start t request) = some s') (hstack : s'.stack t = v :: stack)
      (hP : P s' v) : Served S ok t request P stack s' v
  | step {s s' : Threads Thread σ Res Request α} {a : ThreadAction Thread Request χ ε}
      {v v' : Invocation Res Request α} {upper : List (Invocation Res Request α)}
      (h : Served S ok t request P stack s v) (hok : ok s a) (hstep : S.step s a = some s')
      (hstack : s'.stack t = upper ++ v' :: stack) (hP : P s' v') :
      Served S ok t request P stack s' v'

section Served

variable {ok : Threads Thread σ Res Request α → ThreadAction Thread Request χ ε → Prop}
  {t : Thread} {request : Request}
  {P : Threads Thread σ Res Request α → Invocation Res Request α → Prop}
  {stack : List (Invocation Res Request α)} {v v' : Invocation Res Request α}

/-- An invocation that stays on its stack is the same after a step, or its call has returned. -/
theorem invocation_step {upper upper' : List (Invocation Res Request α)}
    (h : (threadSystem init env code other).step s a = some s')
    (hs : s.stack t = upper ++ v :: stack) (hs' : s'.stack t = upper' ++ v' :: stack) :
    v' = v ∨ ∃ c request o k log, a = .call t c ∧ v = ⟨request, .call o k, log⟩ ∧
      s.stack t = v :: stack ∧ v' = ⟨request, k (env t s.shared o c).2,
        log ++ [⟨o, (env t s.shared o c).2⟩]⟩ := by
  -- the two invocations have the same number of others under them
  have hsame : ∀ above : List (Invocation Res Request α), s'.stack t = above ++ v :: stack →
      v' = v := by
    intro above habove
    have htail := List.append_inj_right' (hs'.symm.trans habove) rfl
    exact (List.cons.inj htail).1
  obtain ⟨u, request, rfl, rfl⟩ | ⟨u, c, request, o, k, log, rest, rfl, hstack, rfl⟩ |
    ⟨u, request, x, log, rest, rfl, hstack, rfl⟩ | ⟨e, rfl, rfl⟩ := threadSystem_step_cases h
  · by_cases ht : t = u
    · subst ht
      refine Or.inl (hsame (⟨request, code request, []⟩ :: upper) ?_)
      rw [Threads.set_stack_self, hs, List.cons_append]
    · exact Or.inl (hsame upper ((Threads.set_stack_of_ne ht).trans hs))
  · by_cases ht : t = u
    · subst ht
      cases upper with
      | nil =>
        rw [hs, List.nil_append] at hstack
        obtain ⟨rfl, rfl⟩ := List.cons.inj hstack
        rw [Threads.set_stack_self] at hs'
        have htail := List.append_inj_right' ((List.nil_append _).trans hs') rfl
        refine Or.inr ⟨c, request, o, k, log, rfl, rfl, hs, ?_⟩
        exact (List.cons.inj htail).1.symm
      | cons top upper =>
        rw [hs, List.cons_append] at hstack
        obtain ⟨-, rfl⟩ := List.cons.inj hstack
        refine Or.inl (hsame (⟨request, k (env t s.shared o c).2,
          log ++ [⟨o, (env t s.shared o c).2⟩]⟩ :: upper) ?_)
        rw [Threads.set_stack_self, List.cons_append]
    · exact Or.inl (hsame upper ((Threads.set_stack_of_ne ht).trans hs))
  · by_cases ht : t = u
    · subst ht
      rw [Threads.set_stack_self] at hs'
      cases upper with
      | nil =>
        -- the invocation is done, and its place is gone
        rw [hs, List.nil_append] at hstack
        have hlength := congrArg List.length (hs'.symm.trans (List.cons.inj hstack).2.symm)
        rw [List.length_append, List.length_cons] at hlength
        omega
      | cons top upper =>
        rw [hs, List.cons_append] at hstack
        obtain ⟨-, rfl⟩ := List.cons.inj hstack
        exact Or.inl (hsame upper (Threads.set_stack_self _ _ _ _))
    · exact Or.inl (hsame upper ((Threads.set_stack_of_ne ht).trans hs))
  · exact Or.inl (hsame upper hs)

omit [DecidableEq Thread] in
/-- A served invocation is on its stack, below the calls that are nested in it. -/
theorem Served.stack_eq
    {S : System (Threads Thread σ Res Request α) (ThreadAction Thread Request χ ε)}
    (h : Served S ok t request P stack s v) : ∃ upper, s.stack t = upper ++ v :: stack := by
  cases h with
  | start _ _ _ hstack _ => exact ⟨[], hstack⟩
  | step _ _ _ hstack _ => exact ⟨_, hstack⟩

omit [DecidableEq Thread] in
/-- What is kept over the history holds now. -/
theorem Served.holds
    {S : System (Threads Thread σ Res Request α) (ThreadAction Thread Request χ ε)}
    (h : Served S ok t request P stack s v) : P s v := by
  cases h with
  | start _ _ _ _ hP => exact hP
  | step _ _ _ _ hP => exact hP

/-- If the guard, and what holds before and after a call of the request, see to it that the
call returns what `G` says, the request goes as its code does on its own. -/
theorem Served.always {C : Log Res → Op → Prop} {G : Log Res → (o : Op) → Res o → Prop}
    {Q : α → Log Res → Prop} (hcode : (code request).Always C G Q [])
    (hcall : ∀ s s' c o k log, ok s (.call t c) →
      s.stack t = ⟨request, .call o k, log⟩ :: stack → P s ⟨request, .call o k, log⟩ →
      P s' ⟨request, k (env t s.shared o c).2, log ++ [⟨o, (env t s.shared o c).2⟩]⟩ →
      G log o (env t s.shared o c).2)
    (h : Served (threadSystem init env code other) ok t request P stack s v) :
    v.request = request ∧ v.code.Always C G Q v.log := by
  -- from the start of the request through the steps to this state
  induction h with
  | @start s s' v _ _ hstep hstack _ =>
    obtain ⟨u, _, hstart, rfl⟩ | ⟨_, _, _, _, _, _, _, hstart, -⟩ |
      ⟨_, _, _, _, _, hstart, -⟩ | ⟨_, hstart, -⟩ := threadSystem_step_cases hstep
    · cases hstart
      rw [Threads.set_stack_self] at hstack
      obtain ⟨rfl, -⟩ := List.cons.inj hstack
      exact ⟨rfl, hcode⟩
    · cases hstart
    · cases hstart
    · cases hstart
  | @step s s' a v v' upper h hok hstep hstack hP ih =>
    obtain ⟨below, hbelow⟩ := h.stack_eq
    -- the invocation made a call, or waited while others stepped
    obtain rfl | ⟨c, r, o, k, log, rfl, rfl, hs, rfl⟩ := invocation_step hstep hbelow hstack
    · exact ih
    · obtain ⟨rfl, halways⟩ := ih
      exact ⟨rfl, halways.2 _ (hcall s s' c o k log hok hs h.holds hP)⟩

/-- Whether `P` holds, in every state of a run, of the first invocation of a thread. -/
def keeps (S : System (Threads Thread σ Res Request α) (ThreadAction Thread Request χ ε))
    (t : Thread) (P : Threads Thread σ Res Request α → Invocation Res Request α → Prop)
    [∀ s v, Decidable (P s v)] :
    Threads Thread σ Res Request α → List (ThreadAction Thread Request χ ε) → Bool
  | _, [] => true
  | s, a :: as =>
    match S.step s a with
    | some s' => (s'.stack t).getLast?.any (fun v => decide (P s' v)) && keeps S t P s' as
    | none => false

omit [DecidableEq Thread] in
/-- A check of a list of actions begins with that of the first. -/
theorem keeps_cons {S : System (Threads Thread σ Res Request α) (ThreadAction Thread Request χ ε)}
    [∀ s v, Decidable (P s v)] {as : List (ThreadAction Thread Request χ ε)}
    (h : keeps S t P s (a :: as) = true) :
    ∃ s' v, S.step s a = some s' ∧ (s'.stack t).getLast? = some v ∧ P s' v ∧
      keeps S t P s' as = true := by
  simp only [keeps] at h
  split at h
  · next s' hstep =>
    rw [Bool.and_eq_true, Option.any_eq_true] at h
    obtain ⟨⟨v, hv, hP⟩, hrest⟩ := h
    exact ⟨s', v, hstep, hv, of_decide_eq_true hP, hrest⟩
  · cases h

omit [DecidableEq Thread] in
/-- A list of actions that passes the check leaves the request of an idle thread served. -/
theorem Served.exec {S : System (Threads Thread σ Res Request α) (ThreadAction Thread Request χ ε)}
    [∀ s v, Decidable (P s v)] (h : Served S ok t request P [] s v)
    (as : List (ThreadAction Thread Request χ ε)) (hok : ∀ a ∈ as, ∀ s, ok s a)
    (hkeeps : keeps S t P s as = true) (hrun : Library.exec S s as = some s') :
    ∃ v', Served S ok t request P [] s' v' ∧ (s'.stack t).getLast? = some v' := by
  induction as generalizing s v with
  | nil =>
    obtain rfl := Option.some.inj hrun
    obtain ⟨upper, hupper⟩ := h.stack_eq
    exact ⟨v, h, by rw [hupper, List.getLast?_concat]⟩
  | cons a as ih =>
    rw [List.forall_mem_cons] at hok
    obtain ⟨s₁, v₁, hstep, hlast, hP, hrest⟩ := keeps_cons hkeeps
    simp only [Library.exec, hstep, Option.bind_some] at hrun
    obtain ⟨upper, hupper⟩ := List.getLast?_eq_some_iff.mp hlast
    exact ih (h.step (hok.1 s) hstep hupper hP) hok.2 hrest hrun

/-- A list of actions that passes the check serves a request from the state in which it is made. -/
theorem Served.run [∀ s v, Decidable (P s v)]
    (hr : ReachableBy (threadSystem init env code other) ok s) (hidle : s.stack t = [])
    (as : List (ThreadAction Thread Request χ ε))
    (hok : ∀ a ∈ .start t request :: as, ∀ s, ok s a)
    (hkeeps : keeps (threadSystem init env code other) t P s (.start t request :: as) = true)
    (hrun : Library.exec (threadSystem init env code other) s (.start t request :: as) = some s') :
    ∃ v, Served (threadSystem init env code other) ok t request P [] s' v ∧
      (s'.stack t).getLast? = some v := by
  rw [List.forall_mem_cons] at hok
  obtain ⟨s₁, v, hstep, hlast, hP, hrest⟩ := keeps_cons hkeeps
  rw [Library.exec, hstep] at hrun
  have hstack : s₁.stack t = [v] := by
    obtain ⟨_, _, hstart, rfl⟩ | ⟨_, _, _, _, _, _, _, hstart, -⟩ |
      ⟨_, _, _, _, _, hstart, -⟩ | ⟨_, hstart, -⟩ := threadSystem_step_cases hstep
    · cases hstart
      rw [Threads.set_stack_self, hidle, List.getLast?_singleton] at hlast
      rw [Threads.set_stack_self, hidle, Option.some.inj hlast]
    · cases hstart
    · cases hstart
    · cases hstart
  exact (Served.start hr (hok.1 s) hstep hstack hP).exec as hok.2 hrest hrun

end Served

-- ---------------------------------------------------------------------------
-- What a thread has of its own
-- ---------------------------------------------------------------------------

section Own

variable {M : Type} (update : Op → M → M)

/-- What a thread has after the calls of an invocation that found `m`. -/
def Log.after (m : M) (log : Log Res) : M := log.foldl (fun m call => update call.1 m) m

@[simp] theorem Log.after_nil (m : M) : Log.after update m ([] : Log Res) = m := rfl

@[simp] theorem Log.after_append (m : M) (log : Log Res) (call : Σ o, Res o) :
    Log.after update m (log ++ [call]) = update call.1 (Log.after update m log) := by
  simp [Log.after]

/-- The invocations of a thread, the last one first: each goes as its code does, from what
the one below it has, and gives it back. -/
def Nested (P : Request → M → Log Res → Op → Prop)
    (G : Request → M → Log Res → (o : Op) → Res o → Prop) (m₀ : M) :
    M → List (Invocation Res Request α) → Prop
  | m, [] => m = m₀
  | m, v :: stack => ∃ entry, Nested P G m₀ entry stack ∧ Log.after update entry v.log = m ∧
    v.code.Always (P v.request entry) (G v.request entry)
      (fun _ log => Log.after update entry log = entry) v.log

variable {update} {m₀ : M} {P : Request → M → Log Res → Op → Prop}
  {G : Request → M → Log Res → (o : Op) → Res o → Prop}
  {ok : Threads Thread σ Res Request α → ThreadAction Thread Request χ ε → Prop}

/-- Only the thread itself changes what it has, and a request gives back what it found. -/
theorem ReachableBy.nested (own : σ → Thread → M) (hinit : ∀ s, init s → ∀ t, own s t = m₀)
    (hother : ∀ e s t, own (other e s) t = own s t)
    (henv : ∀ s t c o, ok s (.call t c) → ∀ u, own (env t s.shared o c).1 u =
      if u = t then update o (own s.shared t) else own s.shared u)
    (hcode : ∀ request m, (code request).Always (P request m) (G request m)
      (fun _ log => Log.after update m log = m) [])
    (hok : ∀ s t c request o k log stack m, ok s (.call t c) →
      s.stack t = ⟨request, .call o k, log⟩ :: stack → Log.after update m log = own s.shared t →
      G request m log o (env t s.shared o c).2)
    (h : ReachableBy (threadSystem init env code other) ok s) (t : Thread) :
    Nested update P G m₀ (own s.shared t) (s.stack t) := by
  refine h.invariant (I := fun s => ∀ t, Nested update P G m₀ (own s.shared t) (s.stack t))
    (fun s hs t => ?_) (fun s a s' ih hok' hstep t => ?_) t
  · rw [hs.2 t]
    exact hinit _ hs.1 t
  · obtain ⟨u, request, rfl, rfl⟩ | ⟨u, c, request, o, k, log, stack, rfl, hstack, rfl⟩ |
      ⟨u, request, x, log, stack, rfl, hstack, rfl⟩ | ⟨e, rfl, rfl⟩ := threadSystem_step_cases hstep
    -- a new invocation is entered with what the thread owns now
    · by_cases ht : t = u
      · subst ht
        rw [Threads.set_stack_self, Threads.set_shared]
        exact ⟨own s.shared t, ih t, rfl, hcode request _⟩
      · rw [Threads.set_stack_of_ne ht, Threads.set_shared]
        exact ih t
    · rw [Threads.set_shared, henv s u c o hok']
      by_cases ht : t = u
      · subst ht
        have hnested := ih t
        rw [hstack] at hnested
        obtain ⟨entry, hrest, hafter, halways⟩ := hnested
        rw [Threads.set_stack_self, if_pos rfl]
        -- a call changes what its own thread owns, as the log records
        have hreturned := hok s t c request o k log stack entry hok' hstack hafter
        refine ⟨entry, hrest, ?_, halways.2 _ hreturned⟩
        rw [Log.after_append, hafter]
      · rw [Threads.set_stack_of_ne ht, if_neg ht]
        exact ih t
    · by_cases ht : t = u
      · subst ht
        have hnested := ih t
        rw [hstack] at hnested
        obtain ⟨entry, hrest, hafter, halways⟩ := hnested
        -- an invocation leaves what the thread owned when it was entered
        have hback : Log.after update entry log = entry := halways
        rw [Threads.set_stack_self, Threads.set_shared, ← hafter, hback]
        exact hrest
      · rw [Threads.set_stack_of_ne ht, Threads.set_shared]
        exact ih t
    · rw [hother]
      exact ih t

end Own

end VfsRedirector.Library
