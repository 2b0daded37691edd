import Mathlib.Algebra.Order.Ring.Nat
import Mathlib.Logic.Function.Basic
import Mathlib.Data.Option.Basic

/-!
# Transition systems and guarded runs

A `System` is a set of initial states and a partial step function: `step s a`
is `none` when the action `a` is not enabled in `s`. Everything a concurrent
program can do is then a list of actions, one per atomic step of one of its
threads.

Two ways to speak of the runs are used side by side:

* `ReachableBy S ok` is the set of states reached by runs *all of whose steps
  meet the guard* `ok`. Guards are how an assumption about a run is stated (an
  honest peer, a branch that is never taken): the guard reads the state before
  the step and the action, never the state after it. `Reachable S` is the
  unguarded case.
* `exec S s as` runs a concrete list of actions, so that a particular schedule
  can be evaluated, and `allowed S ok s as` checks a guard along it.

The rules are the usual ones: `ReachableBy.invariant` (what holds initially
and is preserved by a step holds in every reached state), and
`ReachableBy.map` (a step-by-step simulation carries reachable states to
reachable states).

## Results

* `ReachableBy.invariant` — the invariant rule.
* `ReachableBy.map` — the simulation rule.
* `lock_iff_step` — a lock and the threads in its sections.
-/

namespace VfsRedirector.Library

/-- A transition system over states `σ` and actions `α`. -/
structure System (σ α : Type) where
  init : σ → Prop
  step : σ → α → Option σ

variable {σ τ α β : Type}

/-- States reached by a run all of whose steps meet the guard `ok`. -/
inductive ReachableBy (S : System σ α) (ok : σ → α → Prop) : σ → Prop
  | init {s : σ} (hs : S.init s) : ReachableBy S ok s
  | step {s s' : σ} {a : α} (hr : ReachableBy S ok s) (hok : ok s a)
      (hstep : S.step s a = some s') : ReachableBy S ok s'

/-- States reached by any run. -/
abbrev Reachable (S : System σ α) : σ → Prop :=
  ReachableBy S fun _ _ => True

namespace ReachableBy

variable {S : System σ α} {ok ok' : σ → α → Prop} {s s' : σ}

/-- **Invariant rule.** -/
theorem invariant {I : σ → Prop} (hinit : ∀ s, S.init s → I s)
    (hpres : ∀ s a s', I s → ok s a → S.step s a = some s' → I s')
    (h : ReachableBy S ok s) : I s := by
  induction h with
  | init hs => exact hinit _ hs
  | step _ hok hstep ih => exact hpres _ _ _ ih hok hstep

/-- **Invariant rule, relative form**: an invariant `J` that is already known
to hold of every reached state may be used on both sides of the step. -/
theorem invariant_of {I J : σ → Prop} (hJ : ∀ s, ReachableBy S ok s → J s)
    (hinit : ∀ s, S.init s → I s)
    (hpres : ∀ s a s', I s → J s → J s' → ok s a → S.step s a = some s' → I s')
    (h : ReachableBy S ok s) : I s := by
  induction h with
  | init hs => exact hinit _ hs
  | step hr hok hstep ih =>
    exact hpres _ _ _ ih (hJ _ hr) (hJ _ (hr.step hok hstep)) hok hstep

/-- A run that meets a guard meets every weaker one. -/
theorem mono (hle : ∀ s a, ok s a → ok' s a) (h : ReachableBy S ok s) :
    ReachableBy S ok' s := by
  induction h with
  | init hs => exact .init hs
  | step _ hok hstep ih => exact ih.step (hle _ _ hok) hstep

/-- A guarded run is a run. -/
theorem reachable (h : ReachableBy S ok s) : Reachable S s :=
  h.mono fun _ _ _ => trivial

/-- **Simulation rule.** If `f` sends initial states to initial states and
every guarded step of `S` to a guarded step of `T` or to no step at all, it
sends reachable states to reachable states. -/
theorem map {T : System τ β} {okT : τ → β → Prop} {f : σ → τ}
    (hinit : ∀ s, S.init s → T.init (f s))
    (hsim : ∀ s a s', ReachableBy S ok s → ok s a → S.step s a = some s' →
      f s' = f s ∨ ∃ b, okT (f s) b ∧ T.step (f s) b = some (f s'))
    (h : ReachableBy S ok s) : ReachableBy T okT (f s) := by
  induction h with
  | init hs => exact .init (hinit _ hs)
  | step hr hok hstep ih =>
    rcases hsim _ _ _ hr hok hstep with heq | ⟨b, hb, hT⟩
    · rw [heq]
      exact ih
    · exact ih.step hb hT

end ReachableBy

-- ---------------------------------------------------------------------------
-- Running a schedule
-- ---------------------------------------------------------------------------

/-- Run a list of actions. -/
def exec (S : System σ α) : σ → List α → Option σ
  | s, [] => some s
  | s, a :: as => (S.step s a).bind fun s' => exec S s' as

/-- Whether every step of a list of actions is enabled and meets a check. -/
def allowed (S : System σ α) (ok : σ → α → Bool) : σ → List α → Bool
  | _, [] => true
  | s, a :: as =>
    ok s a && match S.step s a with
      | some s' => allowed S ok s' as
      | none => false

/-- What a list of actions leads to can be reached. -/
theorem ReachableBy.exec {S : System σ α} {s s' : σ} (h : Reachable S s) (as : List α)
    (hrun : exec S s as = some s') : Reachable S s' := by
  induction as generalizing s with
  | nil =>
    simp only [Library.exec, Option.some.injEq] at hrun
    exact hrun ▸ h
  | cons a as ih =>
    simp only [Library.exec, Option.bind_eq_some_iff] at hrun
    obtain ⟨s₁, hstep, hrest⟩ := hrun
    exact ih (h.step trivial hstep) hrest

/-- A list of actions that meet the guard in every state is a guarded run. -/
theorem ReachableBy.execAll {S : System σ α} {ok : σ → α → Prop} {s s' : σ}
    (h : ReachableBy S ok s) (as : List α) (hok : ∀ a ∈ as, ∀ s, ok s a)
    (hrun : Library.exec S s as = some s') : ReachableBy S ok s' := by
  induction as generalizing s with
  | nil =>
    simp only [Library.exec, Option.some.injEq] at hrun
    exact hrun ▸ h
  | cons a as ih =>
    simp only [Library.exec, Option.bind_eq_some_iff] at hrun
    obtain ⟨s₁, hstep, hrest⟩ := hrun
    rw [List.forall_mem_cons] at hok
    exact ih (h.step (hok.1 s) hstep) hok.2 hrest

/-- A list of actions that passes a check which implies the guard is a guarded
run. -/
theorem ReachableBy.execBy {S : System σ α} {ok : σ → α → Prop} {okb : σ → α → Bool}
    (hok : ∀ s a, okb s a = true → ok s a) {s s' : σ} (h : ReachableBy S ok s) (as : List α)
    (hallowed : allowed S okb s as = true) (hrun : Library.exec S s as = some s') :
    ReachableBy S ok s' := by
  induction as generalizing s with
  | nil =>
    simp only [Library.exec, Option.some.injEq] at hrun
    exact hrun ▸ h
  | cons a as ih =>
    simp only [Library.exec, Option.bind_eq_some_iff] at hrun
    obtain ⟨s₁, hstep, hrest⟩ := hrun
    simp only [allowed, hstep, Bool.and_eq_true] at hallowed
    exact ih (h.step (hok _ _ hallowed.1) hstep) hallowed.2 hrest

-- ---------------------------------------------------------------------------
-- Locks
-- ---------------------------------------------------------------------------

/-- A lock and the threads in its critical sections agree after a step of one
thread that leaves both alone, takes the free lock, or gives it back. -/
theorem lock_iff_step {Thread : Type} {lock lock' : Option Thread} {P Q : Thread → Prop}
    {t : Thread} (h : ∀ u, P u ↔ lock = some u) (hother : ∀ u, u ≠ t → (Q u ↔ P u))
    (hstep : (lock' = lock ∧ (Q t ↔ P t)) ∨ (lock = none ∧ lock' = some t ∧ Q t) ∨
      (P t ∧ lock' = none ∧ ¬ Q t)) (u : Thread) : Q u ↔ lock' = some u := by
  have hu := h u
  rcases hstep with ⟨hlock, hcrit⟩ | ⟨hfree, hlock, hcrit⟩ | ⟨hcrit, hlock, hleft⟩
  · rw [hlock]
    rcases eq_or_ne u t with rfl | hut
    · rw [hcrit, hu]
    · rw [hother u hut, hu]
  · rw [hlock]
    rcases eq_or_ne u t with rfl | hut
    · exact iff_of_true hcrit rfl
    · rw [hother u hut, hu, hfree]
      simp [hut.symm]
  · rw [hlock]
    rcases eq_or_ne u t with rfl | hut
    · simpa using hleft
    · rw [hother u hut, hu, (h t).mp hcrit]
      simp [hut.symm]

end VfsRedirector.Library
