import Mathlib.Algebra.Order.Ring.Nat
import Mathlib.Data.Prod.Basic

/-!
# Programs over an environment

A `Prog` is code that calls its environment: each call has a result, and the
code goes on from it. What a call does is the business of an `Env`, which may
decide in more than one way: `env s o c` is the effect of the call `o` in the
state `s` when the environment answers `c`, for instance with an error. The same
code can be run in environments that keep track of different things.

`exec` runs a program with given answers. `Runs` is the relation for any answers
that `allow` permits, and the rules below take it apart along the code. A
statement about all runs of a program is a `Triple`.

## Results

* `Triple.bind` — triples compose.
* `Calls.triple` — what each call keeps, the program keeps.
* `Returns.of_runs` — what a program can return, as a fact about its runs.
-/

namespace VfsRedirector.Library

/-- Code with calls `o : Op`, each with a result in `Res o`. -/
inductive Prog {Op : Type} (Res : Op → Type) (α : Type) : Type
  | pure (a : α)
  | call (o : Op) (k : Res o → Prog Res α)

/-- An environment with states `σ` and answers `χ`. -/
abbrev Env {Op : Type} (Res : Op → Type) (σ χ : Type) : Type := σ → (o : Op) → χ → σ × Res o

namespace Prog

variable {Op α β σ χ : Type} {Res : Op → Type}

def bind : Prog Res α → (α → Prog Res β) → Prog Res β
  | .pure a, f => f a
  | .call o k, f => .call o fun r => (k r).bind f

instance : Monad (Prog Res) where
  pure := .pure
  bind := bind

/-- A single call. -/
def perform (o : Op) : Prog Res (Res o) := .call o .pure

/-- Runs a program; the `i`-th call is answered by `answers i`. -/
def exec (env : Env Res σ χ) (answers : Nat → Op → χ) : Prog Res α → Nat → σ → σ × α
  | .pure a, _, s => (s, a)
  | .call o k, i, s =>
    let next := env s o (answers i o)
    exec env answers (k next.2) (i + 1) next.1

/-- From `s` the program can end with `a` in `s'`. -/
inductive Runs (env : Env Res σ χ) (allow : Op → χ → Prop) : Prog Res α → σ → α → σ → Prop
  | pure {a : α} {s : σ} : Runs env allow (.pure a) s a s
  | call {o : Op} {k : Res o → Prog Res α} {s s' : σ} {a : α} {c : χ} (hc : allow o c)
      (h : Runs env allow (k (env s o c).2) (env s o c).1 a s') : Runs env allow (.call o k) s a s'

section Rules

variable {env : Env Res σ χ} {allow : Op → χ → Prop} {p : Prog Res α} {f : α → Prog Res β}
  {s s' : σ} {a b : α} {o : Op}

/-- A run with answers that are all allowed. -/
theorem runs_exec {answers : Nat → Op → χ} (h : ∀ i o, allow o (answers i o)) (p : Prog Res α)
    (i : Nat) (s : σ) :
    Runs env allow p s (exec env answers p i s).2 (exec env answers p i s).1 := by
  induction p generalizing i s with
  | pure a => exact .pure
  | call o k ih => exact .call (h i o) (ih _ _ _)

@[simp] theorem runs_pure : Runs env allow (Pure.pure a : Prog Res α) s b s' ↔ b = a ∧ s' = s := by
  constructor
  · rintro ⟨⟩
    exact ⟨rfl, rfl⟩
  · rintro ⟨rfl, rfl⟩
    exact .pure

/-- A run begins with the answer to the first call. -/
theorem runs_call {k : Res o → Prog Res α} : Runs env allow (.call o k) s a s' ↔
    ∃ c, allow o c ∧ Runs env allow (k (env s o c).2) (env s o c).1 a s' := by
  constructor
  · rintro ⟨⟩
    exact ⟨_, ‹_›, ‹_›⟩
  · rintro ⟨c, hc, h⟩
    exact .call hc h

@[simp] theorem runs_perform {r : Res o} : Runs env allow (perform o) s r s' ↔
    ∃ c, allow o c ∧ r = (env s o c).2 ∧ s' = (env s o c).1 := by
  simp only [perform, runs_call]
  exact exists_congr fun c => and_congr_right fun _ => runs_pure

@[simp] theorem runs_bind {b : β} : Runs env allow (p >>= f) s b s' ↔
    ∃ a t, Runs env allow p s a t ∧ Runs env allow (f a) t b s' := by
  induction p generalizing s with
  | pure a =>
    constructor
    · intro h
      exact ⟨a, s, .pure, h⟩
    · rintro ⟨_, _, ⟨⟩, h⟩
      exact h
  | call o k ih =>
    have hbind : (.call o k >>= f : Prog Res β) = .call o fun r => k r >>= f := rfl
    rw [hbind, runs_call]
    constructor
    · rintro ⟨c, hc, h⟩
      obtain ⟨a, t, hk, hf⟩ := (ih _).mp h
      exact ⟨a, t, .call hc hk, hf⟩
    · rintro ⟨a, t, hk, hf⟩
      obtain ⟨c, hc, hk⟩ := runs_call.mp hk
      exact ⟨c, hc, (ih _).mpr ⟨a, t, hk, hf⟩⟩

/-- A run that begins with a single call. -/
theorem runs_perform_bind {k : Res o → Prog Res α} : Runs env allow (perform o >>= k) s a s' ↔
    ∃ c, allow o c ∧ Runs env allow (k (env s o c).2) (env s o c).1 a s' :=
  runs_call

end Rules

-- ---------------------------------------------------------------------------
-- Triples
-- ---------------------------------------------------------------------------

/-- From a state with `pre`, every run ends with `post`. -/
def Triple (env : Env Res σ χ) (allow : Op → χ → Prop) (pre : σ → Prop) (p : Prog Res α)
    (post : α → σ → Prop) : Prop :=
  ∀ s a s', pre s → Runs env allow p s a s' → post a s'

namespace Triple

variable {env : Env Res σ χ} {allow : Op → χ → Prop} {p : Prog Res α} {f : α → Prog Res β}
  {pre pre' : σ → Prop} {post : α → σ → Prop} {post' : β → σ → Prop} {o : Op} {a : α}

/-- A triple for code that returns. -/
theorem pure (h : ∀ s, pre s → post a s) : Triple env allow pre (Pure.pure a) post := by
  intro s b s' hs hrun
  obtain ⟨rfl, rfl⟩ := runs_pure.mp hrun
  exact h _ hs

/-- A triple for a call, whose answer is any that is allowed. -/
theorem perform {post : Res o → σ → Prop}
    (h : ∀ s c, allow o c → pre s → post (env s o c).2 (env s o c).1) :
    Triple env allow pre (Prog.perform o) post := by
  intro s r s' hs hrun
  obtain ⟨c, hc, rfl, rfl⟩ := runs_perform.mp hrun
  exact h s c hc hs

/-- The triples of two programs compose. -/
theorem bind (hp : Triple env allow pre p post) (hf : ∀ a, Triple env allow (post a) (f a) post') :
    Triple env allow pre (p >>= f) post' := by
  intro s b s' hs hrun
  obtain ⟨a, t, hrun, hrest⟩ := runs_bind.mp hrun
  exact hf a t b s' (hp s a t hs hrun) hrest

/-- The postcondition of a triple may be weakened. -/
theorem weaken (hp : Triple env allow pre p post) {post' : α → σ → Prop}
    (h : ∀ a s, post a s → post' a s) : Triple env allow pre p post' :=
  fun s a s' hs hrun => h a s' (hp s a s' hs hrun)

/-- The precondition of a triple may be strengthened. -/
theorem strengthen (hp : Triple env allow pre p post) (h : ∀ s, pre' s → pre s) :
    Triple env allow pre' p post :=
  fun s a s' hs hrun => hp s a s' (h s hs) hrun

end Triple

-- ---------------------------------------------------------------------------
-- Programs that make certain calls only
-- ---------------------------------------------------------------------------

/-- Every call that `p` can make satisfies `P`. -/
def Calls (P : Op → Prop) : Prog Res α → Prop
  | .pure _ => True
  | .call o k => P o ∧ ∀ r, (k r).Calls P

namespace Calls

variable {env : Env Res σ χ} {allow : Op → χ → Prop} {p : Prog Res α} {f : α → Prog Res β}
  {P Q : Op → Prop} {o : Op} {a : α}

/-- Code that returns makes no call. -/
theorem pure : (Pure.pure a : Prog Res α).Calls P := trivial

/-- A single call is the one that is made. -/
theorem perform (h : P o) : (Prog.perform o : Prog Res (Res o)).Calls P := ⟨h, fun _ => trivial⟩

/-- The calls of two programs are those of the first and of the second. -/
theorem bind (hp : p.Calls P) (hf : ∀ a, (f a).Calls P) : (p >>= f).Calls P := by
  induction p with
  | pure a => exact hf a
  | call o k ih => exact ⟨hp.1, fun r => ih r (hp.2 r)⟩

theorem mono (h : ∀ o, P o → Q o) (hp : p.Calls P) : p.Calls Q := by
  induction p with
  | pure a => trivial
  | call o k ih => exact ⟨h o hp.1, fun r => ih r (hp.2 r)⟩

/-- What each call keeps, the program keeps. -/
theorem triple {I : σ → Prop} (hstep : ∀ s o c, P o → I s → I (env s o c).1) (hp : p.Calls P) :
    Triple env allow I p fun _ => I := by
  intro s b s' hs hrun
  induction hrun with
  | pure => exact hs
  | call hc h ih => exact ih (hp.2 _) (hstep _ _ _ hp.1 hs)

end Calls

-- ---------------------------------------------------------------------------
-- What a program can return
-- ---------------------------------------------------------------------------

/-- Whatever its calls return, `p` ends with a value that satisfies `P`. -/
def Returns (P : α → Prop) : Prog Res α → Prop
  | .pure a => P a
  | .call _ k => ∀ r, (k r).Returns P

namespace Returns

variable {env : Env Res σ χ} {allow : Op → χ → Prop} {p : Prog Res α} {f : α → Prog Res β}
  {P P' : α → Prop} {Q : β → Prop} {s s' : σ} {o : Op} {a : α}

/-- What is returned is the value. -/
theorem pure (h : P a) : (Pure.pure a : Prog Res α).Returns P := h

theorem trivial (p : Prog Res α) : p.Returns fun _ => True := by
  induction p with
  | pure a => exact True.intro
  | call o k ih => exact ih

/-- What the second of two programs returns, given what the first one does. -/
theorem bind (hp : p.Returns P) (hf : ∀ a, P a → (f a).Returns Q) : (p >>= f).Returns Q := by
  induction p with
  | pure a => exact hf a hp
  | call o k ih => exact fun r => ih r (hp r)

theorem mono (h : ∀ a, P a → P' a) (hp : p.Returns P) : p.Returns P' := by
  induction p with
  | pure a => exact h a hp
  | call o k ih => exact fun r => ih r (hp r)

/-- The result of a run is one that the program can return. -/
theorem of_runs (hp : p.Returns P) (h : Runs env allow p s a s') : P a := by
  induction h with
  | pure => exact hp
  | call hc h ih => exact ih (hp _)

/-- What a program can return, as a triple. -/
theorem triple {pre : σ → Prop} (hp : p.Returns P) : Triple env allow pre p fun a _ => P a :=
  fun _ _ _ _ hrun => hp.of_runs hrun

end Returns

end Prog

end VfsRedirector.Library
