import Mathlib.Tactic.Abel
import VfsRedirector.Library.Prog

/-!
# What a program holds

An environment counts resources: `held s` is how much of each is held in `s`, in a
commutative group. `Accounts pre p P post` says that a program which starts with
`pre` in its hands ends with `post`, which its result determines, and that nothing
else is gained or lost. It does not look at what others hold: a program is
accounted for with what it is given, inside of any larger one (`Accounts.bind`).

## Results

* `bind` — what one program does not take goes with what it gives to the next.
* `conseq` — an account with other names for what is held.
-/

namespace VfsRedirector.Library

open Prog

variable {Op α β σ χ H : Type} {Res : Op → Type} [AddCommGroup H]

/-- From `pre` every run of `p` ends with a result that has `P`, and with `post` of it. -/
def Accounts (env : Env Res σ χ) (allow : Op → χ → Prop) (held : σ → H) (pre : H) (p : Prog Res α)
    (P : α → Prop) (post : α → H) : Prop :=
  ∀ s a s', Runs env allow p s a s' → P a ∧ held s' = held s + (post a - pre)

namespace Accounts

variable {env : Env Res σ χ} {allow : Op → χ → Prop} {held : σ → H} {pre cur : H} {p : Prog Res α}
  {f : α → Prog Res β} {P P' : α → Prop} {Q : β → Prop} {mid post : α → H} {post' : β → H} {a : α}
  {o : Op}

/-- Code that returns leaves what is held. -/
theorem pure (hP : P a) (hpost : post a = cur) :
    Accounts env allow held cur (Pure.pure a : Prog Res α) P post := by
  intro s b s' hrun
  obtain ⟨rfl, rfl⟩ := runs_pure.mp hrun
  refine ⟨hP, ?_⟩
  rw [hpost, sub_self, add_zero]

/-- A call gives what it gives for what it takes, on top of what else is held. -/
theorem perform {P : Res o → Prop} {post : Res o → H}
    (h : ∀ s c, allow o c →
      P (env s o c).2 ∧ held (env s o c).1 = held s + (post (env s o c).2 - pre)) :
    Accounts env allow held pre (Prog.perform o) P post := by
  intro s r s' hrun
  obtain ⟨c, hc, rfl, rfl⟩ := runs_perform.mp hrun
  exact h s c hc

/-- What `p` does not take goes with what it gives. -/
theorem bind (hp : Accounts env allow held pre p P mid)
    (hf : ∀ a, P a → Accounts env allow held (cur - pre + mid a) (f a) Q post') :
    Accounts env allow held cur (p >>= f) Q post' := by
  intro s b s' hrun
  obtain ⟨a, t, hrun, hrest⟩ := runs_bind.mp hrun
  obtain ⟨hP, hmid⟩ := hp s a t hrun
  obtain ⟨hQ, hpost⟩ := hf a hP t b s' hrest
  refine ⟨hQ, ?_⟩
  rw [hpost, hmid]
  abel

/-- An account with other names for what is held. -/
theorem conseq (hp : Accounts env allow held pre p P mid)
    (h : ∀ a, P a → P' a ∧ post a = cur - pre + mid a) :
    Accounts env allow held cur p P' post := by
  intro s a s' hrun
  obtain ⟨hP, hmid⟩ := hp s a s' hrun
  obtain ⟨hP', hpost⟩ := h a hP
  refine ⟨hP', ?_⟩
  rw [hmid, hpost]
  abel

end Accounts

end VfsRedirector.Library
