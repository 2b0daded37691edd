import VfsRedirector.Library.Prog

/-!
# The calls of a run

`logged env` behaves as `env`, and keeps the calls that were made, with what came
back, in their order. What a program has called is then a statement about the
state it ends in.

## Results

* `Prog.Runs.withLog`, `Prog.Runs.unlogged` — the runs with a log are the runs.
* `Prog.Calls.log` — what a program cannot call is not in its part of the log.
-/

namespace VfsRedirector.Library

open Prog

variable {Op α σ χ : Type} {Res : Op → Type}

abbrev Log (Res : Op → Type) : Type := List (Σ o, Res o)

def logged (env : Env Res σ χ) : Env Res (σ × Log Res) χ := fun s o c =>
  (((env s.1 o c).1, s.2 ++ [⟨o, (env s.1 o c).2⟩]), (env s.1 o c).2)

variable {env : Env Res σ χ} {allow : Op → χ → Prop} {p : Prog Res α} {P : Op → Prop}

/-- A run is one of the environment alone. -/
theorem Prog.Runs.unlogged {s s' : σ × Log Res} {a : α} (h : Runs (logged env) allow p s a s') :
    Runs env allow p s.1 a s'.1 := by
  induction h with
  | pure => exact .pure
  | call hc h ih => exact .call hc ih

/-- Every run is one with a log. -/
theorem Prog.Runs.withLog {s s' : σ} {a : α} (h : Runs env allow p s a s') (log : Log Res) :
    ∃ log', Runs (logged env) allow p (s, log) a (s', log') := by
  induction h generalizing log with
  | pure => exact ⟨log, .pure⟩
  | @call o k s s' a c hc h ih =>
    obtain ⟨log', hrun⟩ := ih (log ++ [⟨o, (env s o c).2⟩])
    exact ⟨log', .call hc hrun⟩

/-- Of a program that makes certain calls only, the new part of the log has these only. -/
theorem Prog.Calls.log (hp : p.Calls P) {s s' : σ × Log Res} {a : α}
    (hrun : Runs (logged env) allow p s a s') :
    ∃ calls, s'.2 = s.2 ++ calls ∧ ∀ call ∈ calls, P call.1 := by
  induction hrun with
  | pure => exact ⟨[], (List.append_nil _).symm, by simp⟩
  | @call o k s s' a c hc hrun ih =>
    obtain ⟨calls, hlog, hcalls⟩ := ih (hp.2 _)
    refine ⟨⟨o, (env s.1 o c).2⟩ :: calls, ?_, List.forall_mem_cons.mpr ⟨hp.1, hcalls⟩⟩
    rw [hlog]
    exact List.append_assoc _ _ _

theorem Prog.Calls.trivial (p : Prog Res α) : p.Calls fun _ => True := by
  induction p with
  | pure a => exact True.intro
  | call o k ih => exact ⟨True.intro, ih⟩

/-- What is in the log stays there. -/
theorem triple_mem_log (p : Prog Res α) (call : Σ o, Res o) :
    Triple (logged env) allow (fun s => call ∈ s.2) p fun _ s => call ∈ s.2 := by
  intro s a s' hcall hrun
  obtain ⟨calls, hlog, -⟩ := (Prog.Calls.trivial p).log hrun
  rw [hlog]
  exact List.mem_append_left _ hcall

/-- A call is in the log, with what it returns. -/
theorem triple_perform_log {pre : σ × Log Res → Prop} (o : Op) :
    Triple (logged env) allow pre (Prog.perform o) fun r s => ⟨o, r⟩ ∈ s.2 :=
  Triple.perform fun _ _ _ _ => List.mem_append_right _ (List.mem_singleton_self _)

/-- What is picked from the log does not change if none of it is called. -/
theorem triple_filterMap_log {β : Type} {pick : (Σ o, Res o) → Option β} {picked : List β}
    (hp : p.Calls fun o => ∀ r, pick ⟨o, r⟩ = none) :
    Triple (logged env) allow (fun s => s.2.filterMap pick = picked) p
      fun _ s => s.2.filterMap pick = picked := by
  intro s a s' hpicked hrun
  obtain ⟨calls, hlog, hcalls⟩ := hp.log hrun
  have hnone : calls.filterMap pick = [] :=
    List.filterMap_eq_nil_iff.mpr fun call hcall => hcalls call hcall call.2
  rw [hlog, List.filterMap_append, hpicked, hnone, List.append_nil]

end VfsRedirector.Library
