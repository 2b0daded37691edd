import Mathlib.Data.Fintype.Basic
import VfsRedirector.VNodeHook.Original
import VfsRedirector.Reclaim.Ownership

/-!
# Reclaim: a reclaimed vnode is forgotten

Nothing of a vnode may outlive it: the address is used again, and the next file
there would be redirected as the one before. `QvrFsdReclaimHookEx2` is to see to
that, and it runs only if the vector of the vnode is hooked when the vnode is
reclaimed. The vector is hooked for as long as *counted* vnodes need it, but
vnodes enter the maps without being counted, and a vnode counted in an entry
that exists already is not recorded in `InstanceForHookedVnodes`.

`reclaimed_forgotten` says when nothing is left behind: an entry is made for a
vnode only while the reclamations of its vector are hooked, and a vector is
given back only when nothing is kept about its vnodes. `reclaimed_forgotten_fails`
is a run in which a vector is given back although a vnode of it is associated.

## Results

* `associated_step` — a vnode is associated only while its reclamation is hooked.
* `KeyInv.progress_step` — a reclamation empties one map after the other.
* `KeyInv.covered_before`, `KeyInv.reclaimed_step` — what is kept is live, and what is
  reclaimed is not kept.
* `reclaimed_forgotten` — in a run that meets `KeepsHooked` no map has a reclaimed vnode.
-/

namespace VfsRedirector.Reclaim

open Library VNodeHook ReclaimPc

variable {Thread Vnode OpVec App : Type} [DecidableEq Vnode]

namespace Vnodes

def isHooked (s : Vnodes Thread Vnode OpVec App) (v : Vnode) : Prop :=
  s.hooks.instanceForHookedVnodes.getDataByKey v ≠ none

/-- Nothing is kept about the vnodes of a vector, except what the reclamations
that are under way are going to remove. -/
def Unneeded (s : Vnodes Thread Vnode OpVec App) (w : OpVec) : Prop :=
  ∀ v, s.vOp v = w → ¬ s.isHooked v ∧ (s.life v = .live → ¬ s.maps.Associated v)

/-- What has been removed so far in a reclamation. -/
def Progress (s : Vnodes Thread Vnode OpVec App) : ReclaimPc Vnode → Prop
  | .unhookParent v _ | .removeVnodeAppData v => ¬ s.isHooked v
  | .removeVnodeIo v => ¬ s.isHooked v ∧ s.maps.getVnodeAppData v = none
  | .removeShadowReverse v => ¬ s.isHooked v ∧ s.maps.getVnodeAppData v = none ∧
      s.maps.getVnodeIo v = none
  | .origVnop v => ¬ s.isHooked v ∧ ¬ s.maps.Associated v
  | .idle | .hook _ | .getOriginal _ | .unhook _ => True

end Vnodes

/-- The condition on a step: an entry is made for a vnode only while the
reclamations of its vector are hooked, and the entry of a vector is taken out of
the hooks table only when the vector is not needed. -/
def KeepsHooked (k : VNodeHook.Kernel) (s : Vnodes Thread Vnode OpVec App) :
    VnodeAction Thread Vnode OpVec App → Prop
  | .inner t alloc =>
    (∀ v, s.hooks.pc t = .hookAddVnode v → alloc.isSome = true → s.hooks.ReclaimHooked k v.vOp) ∧
    (∀ v, s.hooks.pc t = .unhookRemove v → s.hooks.sVnodeHooksHashTable v.vOp ≠ none →
      s.Unneeded v.vOp)
  | .addVnodeAppData v _ alloc | .addVnodeIo v _ alloc | .addVnodeShadowReverse v _ alloc =>
    alloc = true → s.hooks.ReclaimHooked k (s.vOp v)
  | .hook _ _ _ | .advance _ _ | .reclaim _ _ | .recycle _ _ _ => True

structure KeyInv (k : VNodeHook.Kernel) (s : Vnodes Thread Vnode OpVec App) : Prop where
  covered : ∀ v, s.life v = .live → s.isHooked v ∨ s.maps.Associated v →
    s.hooks.ReclaimHooked k (s.vOp v)
  recorded : ∀ v, s.isHooked v → s.hooks.sVnodeHooksHashTable (s.vOp v) ≠ none ∧
    s.vtype v = .vreg ∧ s.life v ≠ .reclaimed
  tracked : ∀ t v, s.pc t = .unhook v → s.isHooked v → (s.hooks.pc t).Recorded (s.arg v)
  progress : ∀ t, s.Progress (s.pc t)
  reclaimed : ∀ v, s.life v = .reclaimed → ¬ s.maps.Associated v

variable {k : VNodeHook.Kernel} {initialOps : OpVec → Nat → Nat}
variable {s s' : Vnodes Thread Vnode OpVec App} {t u : Thread} {v : Vnode}

/-- The invariant holds before the first step. -/
theorem KeyInv.initial (hs : Vnodes.Initial initialOps s) : KeyInv k s := by
  obtain ⟨hhooks, hmaps, -, -, hpc⟩ := hs
  have hhooked : ∀ v, ¬ s.isHooked v := fun v hv => by
    simp [Vnodes.isHooked, hhooks, Hooks.initial] at hv
  constructor
  case covered =>
    intro v _ hkept
    rw [hmaps] at hkept
    rcases hkept with h | h
    · exact (hhooked v h).elim
    · exact (VNodeMap.not_associated_empty v h).elim
  case recorded => exact fun v hv => (hhooked v hv).elim
  case tracked => exact fun t v _ hv => (hhooked v hv).elim
  case progress =>
    intro t
    rw [hpc]
    trivial
  case reclaimed =>
    intro v _
    rw [hmaps]
    exact VNodeMap.not_associated_empty v

/-- What has been removed stays so if nothing is added for the vnode. -/
theorem progress_mono {p : ReclaimPc Vnode}
    (hkeep : ∀ v, p.reclaims? = some v → (¬ s.isHooked v → ¬ s'.isHooked v) ∧
      (s.maps.getVnodeAppData v = none → s'.maps.getVnodeAppData v = none) ∧
      (s.maps.getVnodeIo v = none → s'.maps.getVnodeIo v = none) ∧
      (s.maps.getVnodeShadowReverse v = none → s'.maps.getVnodeShadowReverse v = none))
    (h : s.Progress p) : s'.Progress p := by
  cases p with
  | idle => trivial
  | hook v => trivial
  | getOriginal v => trivial
  | unhook v => trivial
  | unhookParent v parent => exact (hkeep v rfl).1 h
  | removeVnodeAppData v => exact (hkeep v rfl).1 h
  | removeVnodeIo v =>
    obtain ⟨hhooked, happ, -, -⟩ := hkeep v rfl
    exact ⟨hhooked h.1, happ h.2⟩
  | removeShadowReverse v =>
    obtain ⟨hhooked, happ, hio, -⟩ := hkeep v rfl
    exact ⟨hhooked h.1, happ h.2.1, hio h.2.2⟩
  | origVnop v =>
    obtain ⟨hhooked, happ, hio, hshadow⟩ := hkeep v rfl
    obtain ⟨hnone, hnot⟩ := h
    rw [VNodeMap.not_associated_iff] at hnot
    refine ⟨hhooked hnone, ?_⟩
    rw [VNodeMap.not_associated_iff]
    exact ⟨happ hnot.1, hio hnot.2.1, hshadow hnot.2.2⟩

variable [DecidableEq Thread] [DecidableEq OpVec] {a : VnodeAction Thread Vnode OpVec App}

/-- A vnode is recorded as hooked by the thread that hooks it. -/
theorem isHooked_step (ho : OwnerInv s) (h : s.step k a = some s') (hv : s'.isHooked v) :
    s.isHooked v ∨
    (∃ t alloc x, a = .inner t alloc ∧ s.hooks.pc t = .hookAddVnode x ∧ alloc.isSome = true ∧
      x = s.arg v ∧ s.vtype v = .vreg ∧ s.life v = .live) := by
  unfold Vnodes.isHooked at hv ⊢
  rcases inner_step h with ⟨t, alloc, ha, hadv, -⟩ | ⟨t, p, -, -, hhooks, -⟩ | ⟨hhooks, -⟩
  · rcases advance_hooked hadv with hsame | ⟨x, hp, halloc, hadd⟩ | ⟨x, e, hp, hremove⟩
    · rw [hsame] at hv
      exact .inl hv
    · rw [hadd, DataMap.getDataByKey_addDataByKey] at hv
      by_cases hx : v = x.vnode
      · obtain ⟨hpc, harg, hreg⟩ := ho.hookArg t x (by rw [hp]; rfl)
        have hlive := ho.held t x.vnode (by rw [hpc]; rfl)
        subst hx
        refine .inr ⟨t, alloc, x, ha, hp, halloc, harg, ?_, hlive⟩
        rw [harg] at hreg
        exact hreg
      · rw [if_neg hx] at hv
        exact .inl hv
    · rw [hremove, DataMap.getDataByKey_removeKey] at hv
      by_cases hx : v = x.vnode
      · rw [if_pos hx] at hv
        exact (hv rfl).elim
      · rw [if_neg hx] at hv
        exact .inl hv
  · rw [hhooks] at hv
    exact .inl hv
  · rw [hhooks] at hv
    exact .inl hv

/-- A vnode that is not live is associated with nothing new. -/
theorem maps_shrink (h : s.step k a = some s') (hlive : s.life v ≠ .live) :
    (s.maps.getVnodeAppData v = none → s'.maps.getVnodeAppData v = none) ∧
    (s.maps.getVnodeIo v = none → s'.maps.getVnodeIo v = none) ∧
    (s.maps.getVnodeShadowReverse v = none → s'.maps.getVnodeShadowReverse v = none) := by
  have hsame : VNodeMap.SameAt s.maps s'.maps v →
      (s.maps.getVnodeAppData v = none → s'.maps.getVnodeAppData v = none) ∧
      (s.maps.getVnodeIo v = none → s'.maps.getVnodeIo v = none) ∧
      (s.maps.getVnodeShadowReverse v = none → s'.maps.getVnodeShadowReverse v = none) := by
    rintro ⟨happ, hio, hshadow⟩
    rw [happ, hio, hshadow]
    exact ⟨id, id, id⟩
  have hne : ∀ {v₀}, s.life v₀ = .live → v ≠ v₀ := fun h₀ heq => hlive (heq ▸ h₀)
  rcases maps_step h with hmaps | ⟨v₀, data, alloc, -, hv₀, rfl⟩ | ⟨v₀, io, alloc, -, hv₀, rfl⟩ |
    ⟨v₀, w, alloc, -, hv₀, rfl⟩ | ⟨t, v₀, -, rfl⟩ | ⟨t, v₀, -, rfl⟩ | ⟨t, v₀, -, rfl⟩
  · exact hsame ⟨by rw [hmaps], by rw [hmaps], by rw [hmaps]⟩
  · exact hsame (VNodeMap.addVnodeAppData_other (hne hv₀))
  · exact hsame (VNodeMap.addVnodeIO_other (hne hv₀))
  · exact hsame (VNodeMap.addVnodeShadowReverse_other (hne hv₀))
  · simp +contextual
  · simp +contextual
  · simp +contextual

/-- Under the condition, a vnode is associated with something new only while it
is live and the reclamations of its vector are hooked. -/
theorem associated_step (hok : KeepsHooked k s a) (h : s.step k a = some s')
    (hv : s'.maps.Associated v) :
    s.maps.Associated v ∨
    (s.life v = .live ∧ s.hooks.ReclaimHooked k (s.vOp v) ∧ s'.hooks = s.hooks) := by
  by_cases hlive : s.life v = .live
  -- only a live vnode is added, and only where its vector is hooked
  · rcases maps_step h with hmaps | ⟨v₀, data, alloc, rfl, hv₀, rfl⟩ |
      ⟨v₀, io, alloc, rfl, hv₀, rfl⟩ | ⟨v₀, w, alloc, rfl, hv₀, rfl⟩ | ⟨t, v₀, -, rfl⟩ |
      ⟨t, v₀, -, rfl⟩ | ⟨t, v₀, -, rfl⟩
    · rw [hmaps] at hv
      exact .inl hv
    · rcases eq_or_ne v v₀ with rfl | hne
      · cases alloc with
        | false => exact .inl hv
        | true => exact .inr ⟨hlive, hok rfl, rfl⟩
      · exact .inl ((VNodeMap.addVnodeAppData_other hne).associated_iff.mp hv)
    · rcases eq_or_ne v v₀ with rfl | hne
      · cases alloc with
        | false =>
          rw [VNodeMap.addVnodeIO_fail] at hv
          exact .inl hv
        | true => exact .inr ⟨hlive, hok rfl, rfl⟩
      · exact .inl ((VNodeMap.addVnodeIO_other hne).associated_iff.mp hv)
    · rcases eq_or_ne v v₀ with rfl | hne
      · cases alloc with
        | false => exact .inl (VNodeMap.addVnodeShadowReverse_fail hv)
        | true => exact .inr ⟨hlive, hok rfl, rfl⟩
      · exact .inl ((VNodeMap.addVnodeShadowReverse_other hne).associated_iff.mp hv)
    · exact .inl (VNodeMap.associated_removeVnodeAppData hv)
    · exact .inl (VNodeMap.associated_removeVnodeIo hv)
    · exact .inl (VNodeMap.associated_removeShadowReverse hv)
  -- for any other vnode the maps only lose
  · obtain ⟨happ, hio, hshadow⟩ := maps_shrink h hlive
    exact .inl (hv.imp (fun h' h0 => h' (happ h0))
      (Or.imp (fun h' h0 => h' (hio h0)) fun h' h0 => h' (hshadow h0)))

section Step

variable (hs : KeyInv k s) (ho : OwnerInv s) (hv : VectorInv k initialOps s.hooks)
variable (hok : KeepsHooked k s a) (h : s.step k a = some s')

include hs ho hok h

/-- A live vnode about which something is kept: it was live before, with the
same vector, and the reclamations of the vector were hooked. -/
theorem KeyInv.covered_before (hlive : s'.life v = .live)
    (hkept : s'.isHooked v ∨ s'.maps.Associated v) :
    s.life v = .live ∧ s'.arg v = s.arg v ∧ s.hooks.ReclaimHooked k (s.vOp v) := by
  -- the vnode was kept before, or was added just now, while its vector was hooked
  have hwas : s.isHooked v ∨ s.maps.Associated v ∨
      (s.life v = .live ∧ s.hooks.ReclaimHooked k (s.vOp v)) := by
    rcases hkept with hkept | hkept
    · rcases isHooked_step ho h hkept with hold | ⟨t, alloc, x, rfl, hp, halloc, hx, -, hlive'⟩
      · exact .inl hold
      · have hcov := hok.1 x hp halloc
        rw [hx] at hcov
        exact .inr (.inr ⟨hlive', hcov⟩)
    · rcases associated_step hok h hkept with hold | ⟨hlive', hcov, -⟩
      · exact .inr (.inl hold)
      · exact .inr (.inr ⟨hlive', hcov⟩)
  -- it was live before too, with the same vector
  have hlives : s.life v = .live ∧ s'.arg v = s.arg v := by
    have hnot : s.life v ≠ .reclaimed := by
      intro hreclaimed
      rcases hwas with hold | hold | ⟨hlive', -⟩
      · exact (hs.recorded v hold).2.2 hreclaimed
      · exact hs.reclaimed v hreclaimed hold
      · rw [hreclaimed] at hlive'
        cases hlive'
    cases outer_step h with
    | stay t _ _ _ hlife _ harg => exact ⟨hlife ▸ hlive, by rw [harg]⟩
    | get t _ v₀ _ _ _ _ hlife _ harg => exact ⟨hlife ▸ hlive, by rw [harg]⟩
    | put t _ v₀ _ _ _ hlife _ harg => exact ⟨hlife ▸ hlive, by rw [harg]⟩
    | maps _ hlife _ harg => exact ⟨hlife ▸ hlive, by rw [harg]⟩
    | reclaim t _ v₀ _ _ _ _ hlife _ harg =>
      rw [hlife, Function.update_apply] at hlive
      split at hlive
      · cases hlive
      · exact ⟨hlive, by rw [harg]⟩
    | finish t _ v₀ _ _ hlife _ harg =>
      rw [hlife, Function.update_apply] at hlive
      split at hlive
      · cases hlive
      · exact ⟨hlive, by rw [harg]⟩
    | lose v₀ _ _ _ _ hlife _ harg =>
      rw [hlife, Function.update_apply] at hlive
      split at hlive
      · cases hlive
      · exact ⟨hlive, by rw [harg]⟩
    -- a recycled vnode was reclaimed, and is not kept
    | recycle v₀ _ hreclaimed hlife _ harg =>
      have hne : v ≠ v₀ := fun heq => hnot (heq ▸ hreclaimed)
      rw [hlife, Function.update_of_ne hne] at hlive
      exact ⟨hlive, harg v hne⟩
  refine ⟨hlives.1, hlives.2, ?_⟩
  rcases hwas with hold | hold | ⟨-, hcov⟩
  · exact hs.covered v hlives.1 (.inl hold)
  · exact hs.covered v hlives.1 (.inr hold)
  · exact hcov

include hv in
/-- About a live vnode something is kept only while its reclamations are hooked. -/
theorem KeyInv.covered_step (hlive : s'.life v = .live)
    (hkept : s'.isHooked v ∨ s'.maps.Associated v) :
    s'.hooks.ReclaimHooked k (s'.vOp v) := by
  obtain ⟨hlive₀, harg, hcov⟩ := hs.covered_before ho hok h hlive hkept
  have hvOp : s'.vOp v = s.vOp v := congrArg VnodeT.vOp harg
  rw [hvOp]
  rcases inner_step h with ⟨t, alloc, rfl, hadv, hs'⟩ | ⟨t, p, -, -, hhooks, -⟩ | ⟨hhooks, -⟩
  · refine reclaimHooked_advance hv hadv hcov fun x hp heq => ?_
    -- the vector would be given back although v needs it
    have hunneeded := hok.2 x hp (by rw [heq]; exact hcov.1)
    obtain ⟨hnot, hnone⟩ := hunneeded v heq.symm
    rcases hkept with hkept | hkept
    · rcases isHooked_step ho h hkept with hold | ⟨t', alloc', x', ha, hp', -⟩
      · exact hnot hold
      · cases ha
        rw [hp] at hp'
        cases hp'
    · rw [hs'] at hkept
      exact hnone hlive₀ hkept
  · rw [hhooks]
    exact hcov
  · rw [hhooks]
    exact hcov

/-- A recorded vnode has a vector with an entry, is a regular file and not reclaimed. -/
theorem KeyInv.recorded_step (hhooked : s'.isHooked v) :
    s'.hooks.sVnodeHooksHashTable (s'.vOp v) ≠ none ∧ s'.vtype v = .vreg ∧
      s'.life v ≠ .reclaimed := by
  have hbefore : s.hooks.sVnodeHooksHashTable (s.vOp v) ≠ none ∧ s.vtype v = .vreg ∧
      s.life v ≠ .reclaimed := by
    rcases isHooked_step ho h hhooked with hold | ⟨t, alloc, x, rfl, hp, halloc, hx, hreg, hlive⟩
    · exact hs.recorded v hold
    · have hcov := hok.1 x hp halloc
      rw [hx] at hcov
      exact ⟨hcov.1, hreg, by simp [hlive]⟩
  obtain ⟨htable, hreg, hlife⟩ := hbefore
  have hlives : s'.arg v = s.arg v ∧ s'.life v ≠ .reclaimed := by
    cases outer_step h with
    | stay t _ _ _ hlife' _ harg => exact ⟨by rw [harg], hlife' ▸ hlife⟩
    | get t _ v₀ _ _ _ _ hlife' _ harg => exact ⟨by rw [harg], hlife' ▸ hlife⟩
    | put t _ v₀ _ _ _ hlife' _ harg => exact ⟨by rw [harg], hlife' ▸ hlife⟩
    | maps _ hlife' _ harg => exact ⟨by rw [harg], hlife' ▸ hlife⟩
    | reclaim t _ v₀ _ _ _ _ hlife' _ harg =>
      refine ⟨by rw [harg], ?_⟩
      rw [hlife', Function.update_apply]
      split
      · simp
      · exact hlife
    | finish t _ v₀ hp _ hlife' _ harg =>
      refine ⟨by rw [harg], ?_⟩
      rw [hlife', Function.update_apply]
      split
      · rename_i heq
        subst heq
        -- the thread has removed it from the map
        have hprogress := hs.progress t
        rw [hp] at hprogress
        rcases isHooked_step ho h hhooked with hold | ⟨_, _, _, _, _, _, _, _, hlive⟩
        · exact (hprogress.1 hold).elim
        · rw [ho.reclaiming t v (by rw [hp]; rfl)] at hlive
          cases hlive
      · exact hlife
    | lose v₀ _ hlive _ hslot hlife' _ harg =>
      refine ⟨by rw [harg], ?_⟩
      rw [hlife', Function.update_apply]
      split
      · rename_i heq
        subst heq
        rcases isHooked_step ho h hhooked with hold | ⟨t, alloc, x, rfl, hp, halloc, hx, -, -⟩
        · exact (hslot (hs.covered v hlive (.inl hold)).2).elim
        · have hcov := hok.1 x hp halloc
          rw [hx] at hcov
          exact (hslot hcov.2).elim
      · exact hlife
    | recycle v₀ _ hreclaimed hlife' _ harg =>
      have hne : v ≠ v₀ := fun heq => hlife (heq ▸ hreclaimed)
      rw [hlife', Function.update_of_ne hne]
      exact ⟨harg v hne, hlife⟩
  have hvOp : s'.vOp v = s.vOp v := congrArg VnodeT.vOp hlives.1
  have hvtype : s'.vtype v = s.vtype v := congrArg VnodeT.vtype hlives.1
  rw [hvOp, hvtype]
  refine ⟨?_, hreg, hlives.2⟩
  rcases inner_step h with ⟨t, alloc, rfl, hadv, -⟩ | ⟨t, p, -, -, hhooks, -⟩ | ⟨hhooks, -⟩
  · refine entry_advance hadv htable fun x hp heq => ?_
    obtain ⟨hnot, -⟩ := hok.2 x hp (by rw [heq]; exact htable) v heq.symm
    rcases isHooked_step ho h hhooked with hold | ⟨t', alloc', x', ha, hp', -⟩
    · exact hnot hold
    · cases ha
      rw [hp] at hp'
      cases hp'
  · rw [hhooks]
    exact htable
  · rw [hhooks]
    exact htable

omit hs hok in
/-- A vnode that is not live is not recorded as hooked anew. -/
theorem not_isHooked_step (hlive : s.life v ≠ .live) (hnot : ¬ s.isHooked v) :
    ¬ s'.isHooked v := by
  intro hhooked
  rcases isHooked_step ho h hhooked with hold | ⟨_, _, _, _, _, _, _, _, hlive'⟩
  · exact hnot hold
  · exact hlive hlive'

omit hok in
/-- The hook that unhooks a recorded vnode is on its way to forget it. -/
theorem KeyInv.tracked_step (hp : s'.pc t = .unhook v) (hhooked : s'.isHooked v) :
    (s'.hooks.pc t).Recorded (s'.arg v) := by
  have houter := outer_step h
  -- what was true of a thread that has not moved outside
  have hbefore : s'.pc t = s.pc t →
      s.isHooked v ∧ (s.hooks.pc t).Recorded (s.arg v) ∧ s'.arg v = s.arg v := by
    intro hpc
    rw [hpc] at hp
    have hrec : (s.pc t).reclaims? = some v := by
      rw [hp]
      rfl
    have hlife := ho.reclaiming t v hrec
    have hold : s.isHooked v := by
      by_contra hnot
      exact not_isHooked_step ho h (by simp [hlife]) hnot hhooked
    exact ⟨hold, hs.tracked t v hp hold, ho.arg_step houter (.inr hrec)⟩
  rcases inner_step h with ⟨u, alloc, rfl, hadv, hs'⟩ | ⟨u, p, -, hcall, hhooks, hother⟩ |
    ⟨hhooks, hother⟩
  · obtain ⟨hold, hrec, harg⟩ := hbefore (by rw [hs'])
    rw [harg]
    rcases eq_or_ne t u with rfl | htu
    · rcases advance_recorded hadv hrec with hrec' | hgone | hreg | htable
      · exact hrec'
      · exact (hhooked hgone).elim
      · exact (hreg (hs.recorded v hold).2.1).elim
      · exact ((hs.recorded v hold).1 htable).elim
    · rw [advance_pc hadv htu]
      exact hrec
  · rcases eq_or_ne t u with rfl | htu
    · have hself : s'.hooks.pc t = p := by
        rw [hhooks]
        exact Function.update_self _ _ _
      rw [hself]
      cases hcall with
      | unhook v' hp' =>
        rw [hp] at hp'
        cases hp'
        exact rfl
      | none v' hp' =>
        rw [hp] at hp'
        cases hp'
      | hook v' hp' =>
        rw [hp] at hp'
        cases hp'
      | getOriginal v' indx hp' =>
        rw [hp] at hp'
        cases hp'
      | unhookParent v' parent hp' =>
        rw [hp] at hp'
        cases hp'
    · obtain ⟨-, hrec, harg⟩ := hbefore (hother t htu)
      have hself : s'.hooks.pc t = s.hooks.pc t := by
        rw [hhooks]
        exact Function.update_of_ne htu _ _
      rw [harg, hself]
      exact hrec
  · rcases hother t with ⟨-, hnot⟩ | hpc
    · exact (hnot v hp).elim
    · obtain ⟨-, hrec, harg⟩ := hbefore hpc
      rw [harg, hhooks]
      exact hrec

omit hok in
/-- A thread that does not move loses nothing of its progress. -/
theorem KeyInv.progress_still (hpc : s'.pc t = s.pc t) : s'.Progress (s'.pc t) := by
  rw [hpc]
  refine progress_mono (fun v hp => ?_) (hs.progress t)
  have hlive : s.life v ≠ .live := by
    rw [ho.reclaiming t v hp]
    simp
  exact ⟨not_isHooked_step ho h hlive, maps_shrink h hlive⟩

omit hok in
/-- What a reclamation has removed stays removed. -/
theorem KeyInv.progress_step : s'.Progress (s'.pc t) := by
  -- other threads' steps put nothing back for a vnode that is being reclaimed
  have hstill := hs.progress_still (t := t) ho h
  have hprogress := hs.progress t
  cases a with
  | hook u v isRecycled =>
    simp only [Vnodes.step] at h
    split at h
    · obtain ⟨hooks, -, rfl⟩ := callHooks_eq h
      rcases eq_or_ne t u with rfl | htu
      · simp [Vnodes.goto, Vnodes.Progress]
      · exact hstill (goto_other t htu)
    · cases h
  | reclaim u v =>
    simp only [Vnodes.step] at h
    split at h
    · split at h
      · obtain ⟨hooks, -, rfl⟩ := callHooks_eq h
        rcases eq_or_ne t u with rfl | htu
        · simp [Vnodes.goto, Vnodes.Progress]
        · exact hstill (goto_other t htu)
      · cases h
        exact hstill rfl
    · cases h
  | advance u parent =>
    simp only [Vnodes.step] at h
    split at h
    · rename_i hidle
      rcases eq_or_ne t u with rfl | htu
      · unfold Vnodes.advance at h
        have htracked := hs.tracked t
        cases hp : s.pc t <;> rw [hp] at h hprogress
        case idle => cases h
        case hook v =>
          cases h
          simp [Vnodes.goto, Vnodes.Progress]
        case getOriginal v =>
          obtain ⟨hooks, -, rfl⟩ := callHooks_eq h
          simp [Vnodes.goto, Vnodes.Progress]
        case unhook v =>
          -- an unhooking call that is over has removed the record
          have hnot : ¬ s.isHooked v := by
            intro hhooked
            have hrec := htracked v hp hhooked
            rw [hidle] at hrec
            exact hrec
          cases parent with
          | none =>
            cases h
            simpa [Vnodes.goto, Vnodes.Progress, Vnodes.isHooked] using hnot
          | some parent =>
            simp only at h
            split at h
            · obtain ⟨hooks, hcall, rfl⟩ := callHooks_eq h
              obtain ⟨-, rfl⟩ := step_unhook hcall
              simpa [Vnodes.goto, Vnodes.Progress, Vnodes.isHooked, Vnodes.vnodeGet,
                Hooks.goto] using hnot
            · cases h
        case unhookParent v parent =>
          cases h
          simpa [Vnodes.goto, Vnodes.Progress, Vnodes.isHooked, Vnodes.vnodePut] using hprogress
        -- each removal adds its map to those that are clean
        case removeVnodeAppData v =>
          cases h
          simpa [Vnodes.goto, Vnodes.Progress, Vnodes.isHooked] using hprogress
        case removeVnodeIo v =>
          cases h
          simpa [Vnodes.goto, Vnodes.Progress, Vnodes.isHooked] using hprogress
        case removeShadowReverse v =>
          cases h
          simpa [Vnodes.goto, Vnodes.Progress, Vnodes.isHooked,
            VNodeMap.not_associated_iff] using hprogress
        case origVnop v =>
          cases h
          simp [Vnodes.goto, Vnodes.Progress]
      · exact hstill (advance_other h htu)
    · cases h
  | inner u alloc =>
    obtain ⟨hooks, -, rfl⟩ := callHooks_eq h
    exact hstill rfl
  | _ =>
    simp only [Vnodes.step] at h
    split at h <;> cases h
    exact hstill rfl

/-- About a reclaimed vnode nothing is kept. -/
theorem KeyInv.reclaimed_step (hreclaimed : s'.life v = .reclaimed) : ¬ s'.maps.Associated v := by
  intro hassoc
  -- a vnode that was reclaimed before has nothing, and nothing is added for it
  have hold : s.life v = .reclaimed → False := by
    intro hlife
    rcases associated_step hok h hassoc with hold | ⟨hlive, -⟩
    · exact hs.reclaimed v hlife hold
    · rw [hlife] at hlive
      cases hlive
  cases outer_step h with
  | stay t _ _ _ hlife => exact hold (hlife ▸ hreclaimed)
  | get t _ v₀ _ _ _ _ hlife => exact hold (hlife ▸ hreclaimed)
  | put t _ v₀ _ _ _ hlife => exact hold (hlife ▸ hreclaimed)
  | maps _ hlife => exact hold (hlife ▸ hreclaimed)
  | reclaim t _ v₀ _ _ _ _ hlife =>
    rw [hlife, Function.update_apply] at hreclaimed
    split at hreclaimed
    · cases hreclaimed
    · exact hold hreclaimed
  -- the thread has been through all four maps
  | finish t _ v₀ hp _ hlife =>
    rw [hlife, Function.update_apply] at hreclaimed
    split at hreclaimed
    · rename_i heq
      subst heq
      have hprogress := hs.progress t
      rw [hp] at hprogress
      rcases associated_step hok h hassoc with hold | ⟨hlive, -⟩
      · exact hprogress.2 hold
      · rw [ho.reclaiming t v (by rw [hp]; rfl)] at hlive
        cases hlive
    · exact hold hreclaimed
  -- reclaimed without the hook: such a vnode was not kept
  | lose v₀ _ hlive _ hslot hlife =>
    rw [hlife, Function.update_apply] at hreclaimed
    split at hreclaimed
    · rename_i heq
      subst heq
      rcases associated_step hok h hassoc with hold | ⟨-, hcov, -⟩
      · exact hslot (hs.covered v hlive (.inr hold)).2
      · exact hslot hcov.2
    · exact hold hreclaimed
  | recycle v₀ _ _ hlife =>
    rw [hlife, Function.update_apply] at hreclaimed
    split at hreclaimed
    · cases hreclaimed
    · exact hold hreclaimed

include hv in
/-- Every step that meets the condition keeps the invariant. -/
theorem KeyInv.step : KeyInv k s' where
  covered := fun _ hlive hkept => hs.covered_step ho hv hok h hlive hkept
  recorded := fun _ hhooked => hs.recorded_step ho hok h hhooked
  tracked := fun _ _ hp hhooked => hs.tracked_step ho h hp hhooked
  progress := fun _ => hs.progress_step ho h
  reclaimed := fun _ hreclaimed => hs.reclaimed_step ho hok h hreclaimed

end Step

/-- A call is a step of `hookSystem`. -/
theorem Call.step {p : HookPc Vnode OpVec} (hidle : s.hooks.pc t = .idle) (hcall : Call s' t p) :
    ∃ b, s.hooks.step k b = some (s.hooks.goto t p) := by
  cases hcall with
  | none v hp =>
    refine ⟨.hook t (s.arg v) true, ?_⟩
    simp only [Hooks.step, Hooks.goto, ← hidle, Function.update_eq_self]
    simp
  | hook v hp hreg =>
    refine ⟨.hook t (s'.arg v) false, ?_⟩
    simp [Hooks.step, hidle, Vnodes.arg, hreg]
  | getOriginal v indx hp =>
    refine ⟨.getOriginal t (s'.arg v) indx, ?_⟩
    simp [Hooks.step, hidle]
  | unhook v hp =>
    refine ⟨.unhook t (s'.arg v), ?_⟩
    simp [Hooks.step, hidle]
  | unhookParent v parent hp =>
    refine ⟨.unhook t (s'.arg parent), ?_⟩
    simp [Hooks.step, hidle]

/-- Inside VNodeHook the threads take the steps of `hookSystem`. -/
theorem hooks_reachable (h : Reachable (vnodeSystem App k initialOps) s) :
    Reachable (hookSystem k initialOps) s.hooks := by
  refine ReachableBy.map (f := Vnodes.hooks) ?_ (fun s a s' _ _ hstep => ?_) h
  · exact fun s hs => Vnodes.Initial.hooks hs
  · rcases inner_step hstep with ⟨t, alloc, -, hadv, -⟩ | ⟨t, p, hidle, hcall, hhooks, -⟩ |
      ⟨hhooks, -⟩
    · exact .inr ⟨.advance t alloc, trivial, hadv⟩
    · obtain ⟨b, hb⟩ := hcall.step (k := k) hidle
      rw [hhooks]
      exact .inr ⟨b, trivial, hb⟩
    · exact .inl hhooks

/-- The ownership holds in every state that can be reached. -/
theorem OwnerInv.reachable (h : Reachable (vnodeSystem App k initialOps) s) : OwnerInv s :=
  ReachableBy.invariant (fun _ hs => .initial hs) (fun _ _ _ hs _ hstep => hs.step hstep) h

/-- The invariant holds in every state of a run that meets the condition. -/
theorem KeyInv.reachable (h : ReachableBy (vnodeSystem App k initialOps) (KeepsHooked k) s) :
    KeyInv k s := by
  refine ReachableBy.invariant_of
    (J := fun s => OwnerInv s ∧ VectorInv k initialOps s.hooks) (fun s hs => ?_)
    (fun s hs => .initial hs)
    (fun s a s' hs hJ _ hok hstep => hs.step hJ.1 hJ.2 hok hstep) h
  exact ⟨OwnerInv.reachable hs.reachable, VectorInv.reachable (hooks_reachable hs.reachable)⟩

/-- **A reclaimed vnode is forgotten**, in every run whose steps all meet
`KeepsHooked`. -/
theorem reclaimed_forgotten
    (h : ReachableBy (vnodeSystem App k initialOps) (KeepsHooked k) s)
    (hv : s.life v = .reclaimed) :
    s.hooks.instanceForHookedVnodes.getDataByKey v = none ∧ s.maps.getVnodeAppData v = none ∧
      s.maps.getVnodeIo v = none ∧ s.maps.getVnodeShadowReverse v = none := by
  have hs := KeyInv.reachable h
  refine ⟨?_, VNodeMap.not_associated_iff.mp (hs.reclaimed v hv)⟩
  by_contra hhooked
  exact (hs.recorded v hhooked).2.2 hv

-- ---------------------------------------------------------------------------
-- Two runs
-- ---------------------------------------------------------------------------

/-- `KeepsHooked` as a check, for finitely many vnodes. -/
def keepsHooked [Fintype Vnode] [DecidableEq App] (k : VNodeHook.Kernel)
    (s : Vnodes Thread Vnode OpVec App) : VnodeAction Thread Vnode OpVec App → Bool
  | .inner t alloc =>
    match s.hooks.pc t with
    | .hookAddVnode v => !alloc.isSome || s.hooks.ReclaimHooked k v.vOp
    | .unhookRemove v => s.hooks.sVnodeHooksHashTable v.vOp = none || decide (∀ u, s.vOp u = v.vOp →
        s.hooks.instanceForHookedVnodes.getDataByKey u = none ∧
          (s.life u = .live → ¬ s.maps.Associated u))
    | _ => true
  | .addVnodeAppData v _ alloc | .addVnodeIo v _ alloc | .addVnodeShadowReverse v _ alloc =>
    !alloc || s.hooks.ReclaimHooked k (s.vOp v)
  | _ => true

omit [DecidableEq Thread] in
/-- The check decides the condition for finitely many vnodes. -/
theorem keepsHooked_sound [Fintype Vnode] [DecidableEq App]
    (h : keepsHooked k s a = true) : KeepsHooked k s a := by
  cases a with
  | inner t alloc =>
    simp only [keepsHooked] at h
    refine ⟨fun v hp halloc => ?_, fun v hp htable => ?_⟩
    · rw [hp] at h
      simpa [halloc] using h
    · rw [hp] at h
      have hneeded := of_decide_eq_true
        ((Bool.or_eq_true_iff.mp h).resolve_left (by simpa using htable))
      exact fun u hu => ⟨fun hhooked => hhooked (hneeded u hu).1, (hneeded u hu).2⟩
  | addVnodeAppData v data alloc =>
    intro halloc
    simpa [keepsHooked, halloc] using h
  | addVnodeIo v vnodeIo alloc =>
    intro halloc
    simpa [keepsHooked, halloc] using h
  | addVnodeShadowReverse vnodeShadow v alloc =>
    intro halloc
    simpa [keepsHooked, halloc] using h
  | _ => trivial

/-- Three live regular files of one file system. -/
def threeFiles : Vnodes Unit (Fin 3) Unit Unit where
  hooks := Hooks.initial fun _ offset => offset
  maps := .empty
  vOp := fun _ => ()
  vtype := fun _ => .vreg
  life := fun _ => .live
  iocount := fun _ => 0
  pc := fun _ => .idle

/-- The runs begin with three files of which nothing is known. -/
theorem threeFiles_initial : Vnodes.Initial (fun _ offset => offset) threeFiles :=
  ⟨rfl, rfl, fun _ => by simp [threeFiles], fun _ => rfl, fun _ => rfl⟩

/-- Hook a vnode whose vector is not hooked yet. -/
def hookVnode (v : Fin 3) : List (VnodeAction Unit (Fin 3) Unit Unit) :=
  [.hook () v false] ++ List.replicate 21 (.inner () (some 0)) ++ [.advance () none]

/-- Reclaim a vnode that is the only one counted for its vector. -/
def reclaimVnode (v : Fin 3) : List (VnodeAction Unit (Fin 3) Unit Unit) :=
  [.reclaim () v] ++ List.replicate 4 (.inner () none) ++ [.advance () none] ++
    List.replicate 24 (.inner () none) ++ List.replicate 5 (.advance () none)

/-- The data of vnode 0 and its backing vnode, vnode 2, are forgotten with it. -/
theorem reclaimed_forgotten_run :
    ∃ s : Vnodes Unit (Fin 3) Unit Unit,
      ReachableBy (vnodeSystem Unit .inOrder fun _ offset => offset) (KeepsHooked .inOrder) s ∧
      s.life 0 = .reclaimed ∧ s.maps.getVnodeIo 0 = none ∧
      s.maps.getVnodeAppData 0 = none ∧ s.hooks.sVnodeHooksHashTable () = none := by
  have hrun : ((exec (vnodeSystem Unit .inOrder fun _ offset => offset) threeFiles
      (hookVnode 0 ++ [.addVnodeIo 0 2 true, .addVnodeAppData 0 () true] ++ reclaimVnode 0)).any
      fun s => s.life 0 = .reclaimed ∧ s.hooks.sVnodeHooksHashTable () = none) = true := by
    decide +kernel
  rw [Option.any_eq_true] at hrun
  obtain ⟨s, hexec, hfacts⟩ := hrun
  obtain ⟨hlife, htable⟩ := of_decide_eq_true hfacts
  have hallowed : allowed (vnodeSystem Unit .inOrder fun _ offset => offset)
      (keepsHooked .inOrder) threeFiles
      (hookVnode 0 ++ [.addVnodeIo 0 2 true, .addVnodeAppData 0 () true] ++ reclaimVnode 0) =
        true := by
    decide +kernel
  have hreach := ReachableBy.execBy (fun _ _ => keepsHooked_sound) (.init threeFiles_initial) _
    hallowed hexec
  obtain ⟨-, happ, hio, -⟩ := reclaimed_forgotten hreach hlife
  exact ⟨s, hreach, hlife, hio, happ, htable⟩

/-- Vnode 0 is hooked; vnode 1, of the same file system, is associated with data
and with the backing vnode 2. The reclamation of vnode 0 gives the vector back,
so that of vnode 1 finds the reclaim function of the file system in its slot. -/
theorem reclaimed_forgotten_fails :
    ¬ ∀ (s : Vnodes Unit (Fin 3) Unit Unit) (v : Fin 3),
      Reachable (vnodeSystem Unit .inOrder fun _ offset => offset) s → s.life v = .reclaimed →
        s.hooks.instanceForHookedVnodes.getDataByKey v = none ∧ s.maps.getVnodeAppData v = none ∧
          s.maps.getVnodeIo v = none ∧ s.maps.getVnodeShadowReverse v = none := by
  intro h
  have hrun : ((exec (vnodeSystem Unit .inOrder fun _ offset => offset) threeFiles
      (hookVnode 0 ++ [.addVnodeIo 1 2 true, .addVnodeAppData 1 () true] ++ reclaimVnode 0 ++
        [.reclaim () 1])).any
      fun s => s.life 1 = .reclaimed ∧ s.maps.getVnodeIo 1 = some 2) = true := by
    decide +kernel
  rw [Option.any_eq_true] at hrun
  obtain ⟨s, hexec, hfacts⟩ := hrun
  obtain ⟨hlife, hio⟩ := of_decide_eq_true hfacts
  obtain ⟨-, -, hnone, -⟩ := h s 1 (ReachableBy.exec (.init threeFiles_initial) _ hexec) hlife
  rw [hnone] at hio
  cases hio

end VfsRedirector.Reclaim
