import VfsRedirector.Reclaim.Steps

/-!
# Reclaim: who works on a vnode

`OwnerInv` holds in every run. A vnode on which a thread has an iocount for a
call is live; a vnode that is being reclaimed is reclaimed by one thread; and a
thread inside a function of VNodeHook is there on behalf of the call that it
makes outside, with the vector and the type that the vnode has still.

## Results

* `OwnerInv.reclaims_step`, `OwnerInv.held_step` — who reclaims a vnode, and who holds
  one, after a step.
* `OwnerInv.step` — every step keeps the ownership.
-/

namespace VfsRedirector.Reclaim

open Library VNodeHook ReclaimPc

variable {Thread Vnode OpVec App : Type}

structure OwnerInv (s : Vnodes Thread Vnode OpVec App) : Prop where
  used : ∀ v, HasCard (fun t => (s.pc t).holds? = some v) (s.iocount v)
  held : ∀ t v, (s.pc t).holds? = some v → s.life v = .live
  reclaiming : ∀ t v, (s.pc t).reclaims? = some v → s.life v = .reclaiming
  alone : ∀ t u v, (s.pc t).reclaims? = some v → (s.pc u).reclaims? = some v → t = u
  hookArg : ∀ t v, (s.hooks.pc t).hookArg? = some v →
    s.pc t = .hook v.vnode ∧ v = s.arg v.vnode ∧ v.vtype = .vreg
  unhookArg : ∀ t v, (s.hooks.pc t).unhookArg? = some v →
    (s.pc t = .unhook v.vnode ∨ ∃ u, s.pc t = .unhookParent u v.vnode) ∧ v = s.arg v.vnode

variable {k : VNodeHook.Kernel} {initialOps : OpVec → Nat → Nat}
variable {s s' : Vnodes Thread Vnode OpVec App} {t u : Thread} {v : Vnode}

/-- The invariant holds before the first step. -/
theorem OwnerInv.initial (hs : Vnodes.Initial initialOps s) : OwnerInv s := by
  obtain ⟨hhooks, -, -, hiocount, hpc⟩ := hs
  constructor
  case used =>
    intro v
    rw [hiocount]
    exact HasCard.zero fun t ht => by simp [hpc, holds?] at ht
  case held =>
    intro t v h
    simp [hpc, holds?] at h
  case reclaiming =>
    intro t v h
    simp [hpc, reclaims?] at h
  case alone =>
    intro t u v h
    simp [hpc, reclaims?] at h
  case hookArg =>
    intro t v h
    simp [hhooks, Hooks.initial, HookPc.hookArg?] at h
  case unhookArg =>
    intro t v h
    simp [hhooks, Hooks.initial, HookPc.unhookArg?] at h

/-- A vnode on which nobody has an iocount is held by no thread. -/
theorem OwnerInv.unused (hs : OwnerInv s) (hzero : s.iocount v = 0) (t : Thread) :
    (s.pc t).holds? ≠ some v :=
  (hs.used v).eq_zero_iff.mp hzero t

section Outer

variable {α : Type} {f : ReclaimPc Vnode → α}

/-- What is read off the thread that moves is as before. -/
theorem pc_same (hother : ∀ u, u ≠ t → s'.pc u = s.pc u) (ht : f (s'.pc t) = f (s.pc t))
    (u : Thread) : f (s'.pc u) = f (s.pc u) := by
  rcases eq_or_ne u t with rfl | hu
  · exact ht
  · rw [hother u hu]

/-- What is read off the threads changes at the one that moves. -/
theorem pc_update [DecidableEq Thread] (hother : ∀ u, u ≠ t → s'.pc u = s.pc u) :
    (fun u => f (s'.pc u)) = Function.update (fun u => f (s.pc u)) t (f (s'.pc t)) := by
  funext u
  rcases eq_or_ne u t with rfl | hu
  · rw [Function.update_self]
  · rw [Function.update_of_ne hu, hother u hu]

variable [DecidableEq Thread] [DecidableEq Vnode]

/-- The iocounts of a vnode are those of the threads that hold it. -/
theorem OwnerInv.used_step (hs : OwnerInv s) (h : OuterStep k s s') (v : Vnode) :
    HasCard (fun t => (s'.pc t).holds? = some v) (s'.iocount v) := by
  have hkeep : (∀ u, (s'.pc u).holds? = (s.pc u).holds?) → s'.iocount = s.iocount →
      HasCard (fun t => (s'.pc t).holds? = some v) (s'.iocount v) := by
    intro hpc hiocount
    rw [hiocount]
    exact (hs.used v).congr fun u => by rw [hpc]
  cases h with
  | stay t hother hholds hreclaims hlife hiocount => exact hkeep (pc_same hother hholds) hiocount
  | get t hother v₀ hnone hholds hreclaims hlive hlife hiocount =>
    have hcard := HasCard.acquire (x := v₀) hs.used hnone v
    rw [hiocount]
    rwa [← hholds, ← pc_update hother] at hcard
  | put t hother v₀ hsome hholds hreclaims hlife hiocount =>
    have hcard := HasCard.drop hs.used hsome v
    rw [hiocount]
    rwa [← hholds, ← pc_update hother] at hcard
  | reclaim t hother v₀ hidle hp hlive hzero hlife hiocount =>
    exact hkeep (pc_same hother (by rw [hidle, hp]; rfl)) hiocount
  | finish t hother v₀ hp hidle hlife hiocount =>
    exact hkeep (pc_same hother (by rw [hidle, hp]; rfl)) hiocount
  | maps hpc hlife hiocount => exact hkeep (fun u => by rw [hpc]) hiocount
  | lose v₀ hpc hlive hzero hslot hlife hiocount => exact hkeep (fun u => by rw [hpc]) hiocount
  | recycle v₀ hpc hreclaimed hlife hiocount => exact hkeep (fun u => by rw [hpc]) hiocount

omit [DecidableEq Thread] in
/-- A vnode that is held is live. -/
theorem OwnerInv.held_step (hs : OwnerInv s) (h : OuterStep k s s')
    (hu : (s'.pc u).holds? = some v) : s'.life v = .live := by
  cases h with
  | stay t hother hholds hreclaims hlife =>
    rw [hlife]
    exact hs.held u v (by rwa [pc_same hother hholds] at hu)
  | get t hother v₀ hnone hholds hreclaims hlive hlife =>
    rw [hlife]
    rcases eq_or_ne u t with rfl | hut
    · rw [hholds, Option.some.injEq] at hu
      exact hu ▸ hlive
    · exact hs.held u v (by rwa [hother u hut] at hu)
  | put t hother v₀ hsome hholds hreclaims hlife =>
    rw [hlife]
    rcases eq_or_ne u t with rfl | hut
    · rw [hholds] at hu
      cases hu
    · exact hs.held u v (by rwa [hother u hut] at hu)
  -- a vnode with an iocount is not reclaimed
  | reclaim t hother v₀ hidle hp hlive hzero hlife =>
    rw [pc_same (f := ReclaimPc.holds?) hother (by rw [hidle, hp]; rfl)] at hu
    have hne : v ≠ v₀ := fun heq => hs.unused hzero u (heq ▸ hu)
    rw [hlife, Function.update_of_ne hne]
    exact hs.held u v hu
  -- a vnode that is being reclaimed is not live, so nobody holds it
  | finish t hother v₀ hp hidle hlife =>
    rw [pc_same (f := ReclaimPc.holds?) hother (by rw [hidle, hp]; rfl)] at hu
    have hlive := hs.held u v hu
    have hne : v ≠ v₀ := by
      rintro rfl
      rw [hs.reclaiming t v (by rw [hp]; rfl)] at hlive
      cases hlive
    rw [hlife, Function.update_of_ne hne]
    exact hlive
  | maps hpc hlife =>
    rw [hlife]
    exact hs.held u v (by rwa [hpc] at hu)
  | lose v₀ hpc hlive hzero hslot hlife =>
    rw [hpc] at hu
    have hne : v ≠ v₀ := fun heq => hs.unused hzero u (heq ▸ hu)
    rw [hlife, Function.update_of_ne hne]
    exact hs.held u v hu
  | recycle v₀ hpc hreclaimed hlife =>
    rw [hpc] at hu
    have hlive := hs.held u v hu
    have hne : v ≠ v₀ := by
      rintro rfl
      rw [hreclaimed] at hlive
      cases hlive
    rw [hlife, Function.update_of_ne hne]
    exact hlive

/-- Who reclaims a vnode after a step did so before, unless it has just begun. -/
theorem OwnerInv.reclaims_step (hs : OwnerInv s) (h : OuterStep k s s')
    (hu : (s'.pc u).reclaims? = some v) :
    ((s.pc u).reclaims? = some v ∧ s'.life v = s.life v) ∨
    (s.life v = .live ∧ s'.life v = .reclaiming ∧
      ∀ w, (s'.pc w).reclaims? = some v → w = u) := by
  -- the step changes the life of a vnode that nobody reclaims
  have hother_life : ∀ {v₀ : Vnode} {l : Life}, (s.pc u).reclaims? = some v →
      s.life v₀ ≠ .reclaiming → s'.life = Function.update s.life v₀ l → s'.life v = s.life v := by
    intro v₀ l hold hnot hlife
    have hne : v ≠ v₀ := fun heq => hnot (heq ▸ hs.reclaiming u v hold)
    rw [hlife, Function.update_of_ne hne]
  cases h with
  | stay t hother hholds hreclaims hlife =>
    rw [pc_same hother hreclaims] at hu
    exact .inl ⟨hu, by rw [hlife]⟩
  | get t hother v₀ hnone hholds hreclaims hlive hlife =>
    rw [pc_same hother hreclaims] at hu
    exact .inl ⟨hu, by rw [hlife]⟩
  | put t hother v₀ hsome hholds hreclaims hlife =>
    rw [pc_same hother hreclaims] at hu
    exact .inl ⟨hu, by rw [hlife]⟩
  -- the vnode was live, so no thread was reclaiming it
  | reclaim t hother v₀ hidle hp hlive hzero hlife =>
    rcases eq_or_ne u t with rfl | hut
    · rw [hp] at hu
      cases hu
      refine .inr ⟨hlive, by rw [hlife, Function.update_self], fun w hw => ?_⟩
      by_contra hwu
      rw [hother w hwu] at hw
      rw [hs.reclaiming w v hw] at hlive
      cases hlive
    · rw [hother u hut] at hu
      exact .inl ⟨hu, hother_life hu (by simp [hlive]) hlife⟩
  -- one thread at a time reclaims a vnode
  | finish t hother v₀ hp hidle hlife =>
    rcases eq_or_ne u t with rfl | hut
    · rw [hidle] at hu
      cases hu
    · rw [hother u hut] at hu
      have hne : v ≠ v₀ := by
        rintro rfl
        exact hut (hs.alone u t v hu (by rw [hp]; rfl))
      exact .inl ⟨hu, by rw [hlife, Function.update_of_ne hne]⟩
  | maps hpc hlife =>
    rw [hpc] at hu
    exact .inl ⟨hu, by rw [hlife]⟩
  | lose v₀ hpc hlive hzero hslot hlife =>
    rw [hpc] at hu
    exact .inl ⟨hu, hother_life hu (by simp [hlive]) hlife⟩
  | recycle v₀ hpc hreclaimed hlife =>
    rw [hpc] at hu
    exact .inl ⟨hu, hother_life hu (by simp [hreclaimed]) hlife⟩

omit [DecidableEq Thread] in
/-- A vnode that a thread is working on keeps its vector and its type. -/
theorem OwnerInv.arg_step (hs : OwnerInv s) (h : OuterStep k s s')
    (hu : (s.pc u).holds? = some v ∨ (s.pc u).reclaims? = some v) : s'.arg v = s.arg v := by
  cases h with
  | recycle v₀ hpc hreclaimed hlife hiocount harg =>
    have hbusy : s.life v = .live ∨ s.life v = .reclaiming :=
      hu.imp (hs.held u v) (hs.reclaiming u v)
    refine harg v ?_
    rintro rfl
    rw [hreclaimed] at hbusy
    rcases hbusy with hbusy | hbusy <;> cases hbusy
  | stay _ _ _ _ _ _ harg => rw [harg]
  | get _ _ _ _ _ _ _ _ _ harg => rw [harg]
  | put _ _ _ _ _ _ _ _ harg => rw [harg]
  | reclaim _ _ _ _ _ _ _ _ _ harg => rw [harg]
  | finish _ _ _ _ _ _ _ harg => rw [harg]
  | maps _ _ _ harg => rw [harg]
  | lose _ _ _ _ _ _ _ harg => rw [harg]

end Outer

variable [DecidableEq Thread] [DecidableEq Vnode] [DecidableEq OpVec]
variable {a : VnodeAction Thread Vnode OpVec App}

/-- A thread that works on a vnode inside VNodeHook is still in the same call, or
has just begun one. -/
theorem inside_step {f : HookPc Vnode OpVec → Option (VnodeT Vnode OpVec)}
    {x : VnodeT Vnode OpVec} (h : s.step k a = some s')
    (hadvance : ∀ {s₀ s₁ : Hooks Thread Vnode OpVec} {t alloc}, s₀.advance k t alloc = some s₁ →
      f (s₁.pc t) = some x → f (s₀.pc t) = some x)
    (hidle : f .idle = none) (hu : f (s'.hooks.pc u) = some x) :
    (f (s.hooks.pc u) = some x ∧ s'.pc u = s.pc u) ∨ Call s' u (s'.hooks.pc u) := by
  rcases inner_step h with ⟨t, alloc, -, hadv, hs'⟩ | ⟨t, p, -, hcall, hhooks, hother⟩ |
    ⟨hhooks, hother⟩
  · have hpc : s'.pc u = s.pc u := by rw [hs']
    refine .inl ⟨?_, hpc⟩
    rcases eq_or_ne u t with rfl | hut
    · exact hadvance hadv hu
    · rwa [advance_pc hadv hut] at hu
  · rcases eq_or_ne u t with rfl | hut
    · have hp : s'.hooks.pc u = p := by
        rw [hhooks]
        exact Function.update_self _ _ _
      rw [hp]
      exact .inr hcall
    · refine .inl ⟨?_, hother u hut⟩
      rw [hhooks] at hu
      simpa [Hooks.goto, hut] using hu
  · rw [hhooks] at hu
    rcases hother u with ⟨hstill, -⟩ | hpc
    · rw [hstill, hidle] at hu
      cases hu
    · exact .inl ⟨hu, hpc⟩

/-- Every step keeps the invariant. -/
theorem OwnerInv.step (hs : OwnerInv s) (h : s.step k a = some s') : OwnerInv s' := by
  have houter := outer_step h
  constructor
  case used => exact hs.used_step houter
  case held => exact fun t v => hs.held_step houter
  case reclaiming =>
    intro t v ht
    rcases hs.reclaims_step houter ht with ⟨hold, hlife⟩ | ⟨-, hlife, -⟩
    · rw [hlife]
      exact hs.reclaiming t v hold
    · exact hlife
  -- two threads that reclaim a vnode both did before, or one begins and is alone
  case alone =>
    intro t u v ht hu
    rcases hs.reclaims_step houter ht with ⟨hold, -⟩ | ⟨-, -, halone⟩
    · rcases hs.reclaims_step houter hu with ⟨hold', -⟩ | ⟨-, -, halone⟩
      · exact hs.alone t u v hold hold'
      · exact halone t ht
    · exact (halone u hu).symm
  case hookArg =>
    intro u x hu
    rcases inside_step h advance_hookArg rfl hu with ⟨hold, hpc⟩ | hcall
    · obtain ⟨hp, hx, hreg⟩ := hs.hookArg u x hold
      have harg := hs.arg_step houter (u := u) (v := x.vnode) (.inl (by rw [hp]; rfl))
      exact ⟨hpc.trans hp, hx.trans harg.symm, hreg⟩
    · generalize s'.hooks.pc u = p at hu hcall
      cases hcall with
      | hook v hp hreg =>
        cases hu
        exact ⟨hp, rfl, hreg⟩
      | _ => cases hu
  case unhookArg =>
    intro u x hu
    rcases inside_step h advance_unhookArg rfl hu with ⟨hold, hpc⟩ | hcall
    · obtain ⟨hp, hx⟩ := hs.unhookArg u x hold
      have harg := hs.arg_step houter (u := u) (v := x.vnode) (by
        rcases hp with hp | ⟨v, hp⟩ <;> rw [hp]
        · exact .inr rfl
        · exact .inl rfl)
      exact ⟨hpc ▸ hp, hx.trans harg.symm⟩
    · generalize s'.hooks.pc u = p at hu hcall
      cases hcall with
      | unhook v hp =>
        cases hu
        exact ⟨.inl hp, rfl⟩
      | unhookParent v parent hp =>
        cases hu
        exact ⟨.inr ⟨v, hp⟩, rfl⟩
      | _ => cases hu

end VfsRedirector.Reclaim
