import VfsRedirector.Library.Threads

/-!
# Traces

A trace of a program is the list of calls that it makes, each with its result,
until it ends with a value. The results are any: what holds for all traces holds
in every environment, as a run leaves a trace (`Runs.trace`). A list of calls is
the trace of at most one run (`Trace.unique`), so that what a part of a program
has returned can be read off it.

## Results

* `trace_bind` — the trace of two programs.
* `Trace.unique` — the calls and their results decide what is returned.
* `Runs.trace` — a run leaves a trace.
-/

namespace VfsRedirector.Library

variable {Op α β σ χ : Type} {Res : Op → Type}

/-- `p` makes the calls of the list, which return what it says, and ends with `a`. -/
inductive Prog.Trace : Prog Res α → Log Res → α → Prop
  | pure {a : α} : Trace (.pure a) [] a
  | call {o : Op} {k : Res o → Prog Res α} {r : Res o} {log : Log Res} {a : α}
      (h : Trace (k r) log a) : Trace (.call o k) (⟨o, r⟩ :: log) a

namespace Prog

section Rules

variable {p : Prog Res α} {f : α → Prog Res β} {log log' rest rest' : Log Res} {a a' : α} {o : Op}
  {P : Op → Prop} {Q : α → Prop}

@[simp] theorem trace_pure : (Pure.pure a : Prog Res α).Trace log a' ↔ log = [] ∧ a' = a := by
  constructor
  · rintro ⟨⟩
    exact ⟨rfl, rfl⟩
  · rintro ⟨rfl, rfl⟩
    exact .pure

/-- The trace of code that begins with a call begins with the call and its result. -/
theorem trace_call {k : Res o → Prog Res α} :
    (Prog.call o k).Trace log a ↔ ∃ r rest, log = ⟨o, r⟩ :: rest ∧ (k r).Trace rest a := by
  constructor
  · rintro ⟨⟩
    exact ⟨_, _, rfl, ‹_›⟩
  · rintro ⟨r, rest, rfl, h⟩
    exact .call h

@[simp] theorem trace_perform {r : Res o} :
    (perform o : Prog Res (Res o)).Trace log r ↔ log = [⟨o, r⟩] := by
  unfold perform
  rw [trace_call]
  constructor
  · rintro ⟨r', rest, rfl, h⟩
    obtain ⟨rfl, rfl⟩ := trace_pure.mp h
    rfl
  · rintro rfl
    exact ⟨r, [], rfl, .pure⟩

/-- The trace of two programs is that of the first and then that of the second. -/
theorem trace_bind {b : β} : (p >>= f).Trace log b ↔
    ∃ a first rest, log = first ++ rest ∧ p.Trace first a ∧ (f a).Trace rest b := by
  induction p generalizing log with
  | pure a =>
    constructor
    · intro h
      exact ⟨a, [], log, rfl, .pure, h⟩
    · rintro ⟨_, _, rest, rfl, ⟨⟩, h⟩
      exact h
  | call o k ih =>
    have hbind : (.call o k >>= f : Prog Res β) = .call o fun r => k r >>= f := rfl
    rw [hbind, trace_call]
    constructor
    · rintro ⟨r, log', rfl, h⟩
      obtain ⟨a, first, rest, rfl, hk, hf⟩ := (ih r).mp h
      exact ⟨a, ⟨o, r⟩ :: first, rest, rfl, .call hk, hf⟩
    · rintro ⟨a, first, rest, rfl, hk, hf⟩
      obtain ⟨r, first', rfl, hfirst⟩ := trace_call.mp hk
      exact ⟨r, first' ++ rest, rfl, (ih r).mpr ⟨a, first', rest, rfl, hfirst, hf⟩⟩

/-- The trace of a call with what follows it. -/
theorem trace_perform_bind {f : Res o → Prog Res β} {b : β} :
    (perform o >>= f).Trace log b ↔ ∃ r rest, log = ⟨o, r⟩ :: rest ∧ (f r).Trace rest b :=
  trace_call

/-- The first calls of a list decide what a program returns that makes them. -/
theorem Trace.unique (h : p.Trace log a) (h' : p.Trace log' a')
    (heq : log ++ rest = log' ++ rest') : log = log' ∧ a = a' := by
  induction h generalizing log' with
  | pure =>
    obtain ⟨rfl, rfl⟩ := trace_pure.mp h'
    exact ⟨rfl, rfl⟩
  | call h ih =>
    obtain ⟨r', log'', rfl, hlog⟩ := trace_call.mp h'
    rw [List.cons_append, List.cons_append, List.cons.injEq, Sigma.mk.injEq] at heq
    obtain ⟨⟨-, hr⟩, heq⟩ := heq
    obtain rfl := eq_of_heq hr
    obtain ⟨rfl, rfl⟩ := ih hlog heq
    exact ⟨rfl, rfl⟩

/-- A run leaves a trace behind what was in the log. -/
theorem Runs.trace {env : Env Res σ χ} {allow : Op → χ → Prop} {s s' : σ × Log Res}
    (h : Runs (logged env) allow p s a s') : ∃ log, s'.2 = s.2 ++ log ∧ p.Trace log a := by
  induction h with
  | pure => exact ⟨[], (List.append_nil _).symm, .pure⟩
  | @call o k s s' a c hc h ih =>
    obtain ⟨log, hlog, htrace⟩ := ih
    refine ⟨⟨o, (env s.1 o c).2⟩ :: log, ?_, .call htrace⟩
    rw [hlog]
    exact List.append_assoc _ _ _

/-- The trace that is left when every call of an operation returns the same. -/
def play (answer : (o : Op) → Res o) : Prog Res α → Log Res × α
  | .pure a => ([], a)
  | .call o k => (⟨o, answer o⟩ :: (play answer (k (answer o))).1, (play answer (k (answer o))).2)

/-- To play a program with given answers makes a trace of it. -/
theorem trace_play (answer : (o : Op) → Res o) (p : Prog Res α) :
    p.Trace (p.play answer).1 (p.play answer).2 := by
  induction p with
  | pure a => exact .pure
  | call o k ih => exact .call (ih _)

/-- A program that is played gets the given answers. -/
theorem mem_play {answer : (o : Op) → Res o} {r : Res o} (h : ⟨o, r⟩ ∈ (p.play answer).1) :
    r = answer o := by
  induction p with
  | pure a => cases h
  | call o' k ih =>
    obtain heq | h := List.mem_cons.mp h
    · cases heq
      rfl
    · exact ih _ h

/-- Every call of a trace is one that the program can make. -/
theorem Calls.of_trace (hp : p.Calls P) (h : p.Trace log a) : ∀ call ∈ log, P call.1 := by
  induction h with
  | pure => simp
  | call h ih => exact List.forall_mem_cons.mpr ⟨hp.1, ih (hp.2 _)⟩

/-- What a trace returns is what the program can return. -/
theorem Returns.of_trace (hp : p.Returns Q) (h : p.Trace log a) : Q a := by
  induction h with
  | pure => exact hp
  | call h ih => exact ih (hp _)

/-- In a trace whose calls return what they are to return, the code goes as it says. -/
theorem Always.of_trace {P : Log Res → Op → Prop} {G : (o : Op) → Res o → Prop}
    {Q : α → Log Res → Prop} (hp : p.Always P (fun _ => G) Q rest) (h : p.Trace log a)
    (hG : ∀ call ∈ log, G call.1 call.2) : Q a (rest ++ log) := by
  induction h generalizing rest with
  | pure =>
    rw [List.append_nil]
    exact hp
  | @call o k r log a h ih =>
    rw [List.append_cons]
    exact ih (hp.2 r (hG ⟨o, r⟩ List.mem_cons_self))
      fun call hcall => hG call (List.mem_cons_of_mem _ hcall)

end Rules

end Prog

end VfsRedirector.Library
