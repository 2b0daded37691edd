import VfsRedirector.Redirect.Confined

/-!
# What a request reaches

A request of the application is for a path, or for two in a rename. The paths that its
hook may change are those, and the shadow and redirected paths that belong to them
(`HookCall.Reaches`); in a rename also what is below them. Everything else keeps its
name and its contents, in every run (`redirect_isolated`).

A rename may move the directories of its own request, from which the later of its three
renames go; they are in the set then (`AtOrIn`).

## Results

* `confined_rename` — the paths that a rename reaches.
* `redirect_isolated` — a run changes only the files that its requests reach.
-/

namespace VfsRedirector

open Library CanonicalPath Prog

variable {app : ControlledApp} {w w' w₀ : World} {allow : KernelOp Nat → Answer → Prop}
  {R : CanonicalPath → Prop} {f t d p q : CanonicalPath} {ns : Namespace Nat}
  {cnp : Componentname}

-- ---------------------------------------------------------------------------
-- Rename
-- ---------------------------------------------------------------------------

/-- A plain name in a directory is below the directory. -/
theorem under_enter {name : List UInt8} (h : PlainName name) (p : CanonicalPath) :
    Under p (p.enter name) := by
  rw [Under, enter_components h]
  exact List.prefix_append _ _

/-- What is below a path in `R` is in `R`, and so are the six paths of a rename. -/
structure RenameRegion (app : ControlledApp) (R : CanonicalPath → Prop)
    (source target : CanonicalPath) : Prop where
  up : ∀ p q, R p → Under p q → R q
  own : ∀ p ∈ [source, target],
    R p ∧ R (shadowPath p) ∧ R (backingPath app.redirectTo (shadowPath p))

/-- A vnode is at `d`, or at a path in `R`. -/
def AtOrIn (R : CanonicalPath → Prop) (d : CanonicalPath) (vp : Option Nat) (w : World) : Prop :=
  ∀ v, vp = some v → ∀ p, w.ns.find p = some v → p = d ∨ R p

/-- After a rename a vnode at a directory is there still, or at a path in `R`. -/
theorem AtOrIn.rename {vp : Option Nat} (h : AtOrIn R d vp w) (hup : ∀ p q, R p → Under p q → R q)
    (hns : w.ns.rename f t = some ns) (ht : R t) : AtOrIn R d vp { w with ns } := by
  intro v hv p hp
  obtain ⟨p', hp', hmoved⟩ := (Namespace.find_rename hns).mp hp
  rcases of_moved hmoved with rfl | htp
  · exact h v hv p hp'
  · exact .inr (hup t p ht htp)

/-- The directories of the request are where they were, or have been moved in `R`. -/
structure Renaming (app : ControlledApp) (R : CanonicalPath → Prop) (w₀ : World)
    (fdvp tdvp : Option Nat) (source target : CanonicalPath) (w : World) : Prop where
  confined : Confined app R w₀ w
  fdvp : AtOrIn R source.parent fdvp w
  tdvp : AtOrIn R target.parent tdvp w

variable {ap apRedirected apShadow apOriginal : RenameArgs Nat} {source target : CanonicalPath}
  {fdvp tdvp : Option Nat}

theorem Renaming.congr (h : Renaming app R w₀ fdvp tdvp source target w)
    (hsame : SameContents app w w') : Renaming app R w₀ fdvp tdvp source target w' := by
  refine ⟨h.confined.congr hsame, ?_, ?_⟩
  · intro v hv p hp
    exact h.fdvp v hv p (hsame.ns ▸ hp)
  · intro v hv p hp
    exact h.tdvp v hv p (hsame.ns ▸ hp)

/-- To empty a file in `R` moves no directory. -/
theorem Renaming.setSize (h : Renaming app R w₀ fdvp tdvp source target w) {vp : Nat}
    (hR : ∀ p, w.ns.find p = some vp → R p) (size : Nat) (error : Int) :
    Renaming app R w₀ fdvp tdvp source target (w.setSize vp size error) := by
  have hns := (sameFiles_setSize : SameFiles w (w.setSize vp size error)).ns
  refine ⟨h.confined.setSize hR size error, ?_, ?_⟩
  · intro v hv p hp
    exact h.fdvp v hv p (hns ▸ hp)
  · intro v hv p hp
    exact h.tdvp v hv p (hns ▸ hp)

/-- A rename from and to `R` moves the directories in `R` only. -/
theorem Renaming.rename (h : Renaming app R w₀ fdvp tdvp source target w)
    (hup : ∀ p q, R p → Under p q → R q) (hns : w.ns.rename f t = some ns) (hf : R f) (ht : R t) :
    Renaming app R w₀ fdvp tdvp source target { w with ns } :=
  ⟨h.confined.rename hup hns hf ht, h.fdvp.rename hup hns ht, h.tdvp.rename hup hns ht⟩

/-- Calm code leaves the directories where they are. -/
theorem triple_renaming {α : Type} {q : Kernel Nat α} (hq : q.Calls (KernelOp.Calm app)) :
    Triple World.effect allow (Renaming app R w₀ fdvp tdvp source target) q
      fun _ => Renaming app R w₀ fdvp tdvp source target :=
  triple_calm hq fun _ _ hsame h => h.congr hsame

/-- The path of a name in such a directory. -/
theorem AtOrIn.entry {vp : Option Nat} (h : AtOrIn R d vp w)
    (hR : ∀ q, q = d ∨ R q → R (q.enter (cnp.cn_nameptr.take cnp.cn_namelen)))
    (hp : vp.bind (w.entryPath · cnp) = some p) : R p := by
  obtain ⟨v, hv, hentry⟩ := Option.bind_eq_some_iff.mp hp
  obtain ⟨q, hq, rfl⟩ := Option.map_eq_some_iff.mp hentry
  exact hR q (h v hv q (Namespace.pathOf_eq_some_iff.mp hq))

/-- A rename of a name in one directory of the request to one in the other. -/
theorem renaming_vnopRename {implementation : Implementation Nat}
    (hregion : RenameRegion app R source target)
    (hf : ∀ q, q = source.parent ∨ R q →
      R (q.enter (ap.a_fcnp.cn_nameptr.take ap.a_fcnp.cn_namelen)))
    (ht : ∀ q, q = target.parent ∨ R q →
      R (q.enter (ap.a_tcnp.cn_nameptr.take ap.a_tcnp.cn_namelen))) :
    Triple World.effect allow (Renaming app R w₀ ap.a_fdvp ap.a_tdvp source target)
      (Kernel.vnopRename implementation ap)
      fun _ => Renaming app R w₀ ap.a_fdvp ap.a_tdvp source target := by
  intro w error w' h hrun
  obtain ⟨c, -, ⟨-, rfl, -⟩ | ⟨f, t, ns, hfrom, hto, hns, -, -, rfl⟩⟩ := runs_vnopRename hrun
  · exact h
  · exact h.rename hregion.up hns (h.fdvp.entry hf hfrom) (h.tdvp.entry ht hto)

/-- A name of the request is in `R`, also in a directory that has been moved into `R`. -/
theorem RenameRegion.enter (h : RenameRegion app R source target) (hp : R p)
    (hq : q = p.parent ∨ R q) : R (q.enter p.baseName) := by
  by_cases hroot : p.components = []
  · refine h.up p _ hp ?_
    rw [Under, hroot]
    exact List.nil_prefix
  · obtain rfl | hq := hq
    · rw [enter_parent]
      exact hp
    · have hname : p.baseName = p.components.getLast hroot := by
        rw [baseName, List.getLast?_eq_getLast_of_ne_nil hroot, Option.getD_some]
      exact h.up q _ hq (under_enter (hname ▸ p.plain _ (List.getLast_mem hroot)) q)

/-- The shadow name of a name of the request is in `R` as well. -/
theorem RenameRegion.enter_shadow (h : RenameRegion app R source target) (hp : R (shadowPath p))
    (hq : q = p.parent ∨ R q) : R (q.enter (shadowCopy p.baseName)) := by
  obtain rfl | hq := hq
  · rw [← shadowPath_eq]
    exact hp
  · rw [shadowCopy_name (slash_notMem_baseName p).1]
    exact h.up q _ hq (under_enter (plainName_shadow p) q)

/-- The names in a request, in its directories. -/
theorem RenameRegion.vnopRename {implementation : Implementation Nat}
    (hregion : RenameRegion app R source target) (hpaths : RenamesPaths w ap source target) :
    Triple World.effect allow (Renaming app R w₀ ap.a_fdvp ap.a_tdvp source target)
      (Kernel.vnopRename implementation ap)
      fun _ => Renaming app R w₀ ap.a_fdvp ap.a_tdvp source target := by
  obtain ⟨-, hfname, hflen⟩ := hpaths.fcnp
  obtain ⟨-, htname, htlen⟩ := hpaths.tcnp
  refine renaming_vnopRename hregion (fun q hq => ?_) fun q hq => ?_
  · rw [hfname, List.take_of_length_le hflen]
    exact hregion.enter (hregion.own source (by simp)).1 hq
  · rw [htname, List.take_of_length_le htlen]
    exact hregion.enter (hregion.own target (by simp)).1 hq

/-- A lookup in a recursion finds what is there. -/
theorem renaming_lookup {cookie : Cookie} {path : List UInt8} {context : Context} :
    Triple World.effect allow (Renaming app R w₀ fdvp tdvp source target)
      (inRecursiveCall cookie (Kernel.vnodeLookup path context)) fun r w =>
        Renaming app R w₀ fdvp tdvp source target w ∧
          ∀ vp, r = (0, some vp) → w.ns.find (resolve root path) = some vp := by
  intro w r w' h hrun
  refine ⟨triple_renaming (calm_lookupInRecursion ..) w r w' h hrun, fun vp hr => ?_⟩
  obtain ⟨hsame, hfound⟩ := runs_lookup hrun
  rw [hsame.ns]
  exact hfound vp hr

/-- A rename without `redirectIO` reaches its source and its target. -/
theorem renaming_renameOriginal {fvp : Nat} (hregion : RenameRegion app R source target)
    (hpaths : RenamesPaths w ap source target) :
    Triple World.effect allow (Renaming app R w₀ ap.a_fdvp ap.a_tdvp source target)
      (renameOriginal fvp ap) fun _ => Renaming app R w₀ ap.a_fdvp ap.a_tdvp source target := by
  refine .bind (renaming_lookup.weaken fun _ _ h => h.1) fun r => ?_
  obtain ⟨error, newFvp⟩ := r
  dsimp only
  split
  · exact triple_renaming (calm_light (light_renameExit ..))
  · refine .bind (triple_renaming ?_) fun r => ?_
    · rw [lookupOriginalTarget]
      split
      · exact calm_lookupInRecursion ..
      · exact .pure
    · obtain ⟨error, newTvp⟩ := r
      dsimp only
      split
      · exact triple_renaming (calm_light (light_renameExit ..))
      · exact .bind (hregion.vnopRename (hpaths.swapped newFvp newTvp)) fun error =>
          triple_renaming (calm_light (light_renameExit ..))

-- ---------------------------------------------------------------------------
-- Rename with redirectIO
-- ---------------------------------------------------------------------------

/-- The target in the protected storage is emptied there. -/
theorem renaming_lookupLeftoverTarget {redirectedTvp : Nat} {l : RenameLocals Nat} (hR : R p) :
    Triple World.effect allow
      (fun w => Renaming app R w₀ fdvp tdvp source target w ∧ w.ns.find p = some redirectedTvp)
      (lookupLeftoverTarget ap redirectedTvp l)
      fun _ => Renaming app R w₀ fdvp tdvp source target := by
  -- until the file is emptied nothing that counts changes
  have hcalm : ∀ {α : Type} {q : Kernel Nat α}, q.Calls (KernelOp.Calm app) →
      Triple World.effect allow
        (fun w => Renaming app R w₀ fdvp tdvp source target w ∧ w.ns.find p = some redirectedTvp) q
        fun _ w => Renaming app R w₀ fdvp tdvp source target w ∧
          w.ns.find p = some redirectedTvp :=
    fun hq => triple_calm hq fun _ _ hsame h => ⟨h.1.congr hsame, hsame.ns ▸ h.2⟩
  refine .bind (hcalm (calm_lookupInRecursion ..)) fun r => ?_
  obtain ⟨error2, originalTvp⟩ := r
  dsimp only
  split
  · refine .weaken (hcalm ?_) fun _ _ h => h.1
    exact .bind (calm_light (light_putIfAny _)) fun _ => .bind (.perform trivial) fun _ => .pure
  -- the one file that is emptied lies in the region
  · have hempty : Triple World.effect allow
        (fun w => Renaming app R w₀ fdvp tdvp source target w ∧ w.ns.find p = some redirectedTvp)
        (Kernel.qvrVnodeSetsize redirectedTvp 0 .superUser)
        fun _ => Renaming app R w₀ fdvp tdvp source target := by
      refine Triple.perform fun w c _ h => h.1.setSize (fun q hq => ?_) 0 c.error
      rw [Namespace.find_injective hq h.2]
      exact hR
    refine .bind (.bind (hcalm (calm_enterRecursiveCall _)) fun _ => .bind hempty fun _ =>
      .bind (triple_renaming calm_leaveRecursiveCall) fun _ => triple_renaming .pure)
      fun _ => triple_renaming ?_
    exact .bind (.perform trivial) fun _ => .bind (.perform trivial) fun _ => .pure

/-- The lookups of the targets empty at most the file at the redirected target. -/
theorem renaming_lookupTargets {path : List UInt8} {l : RenameLocals Nat}
    (hR : R (resolve root path)) :
    Triple World.effect allow (Renaming app R w₀ fdvp tdvp source target) (lookupTargets ap path l)
      fun _ => Renaming app R w₀ fdvp tdvp source target := by
  rw [lookupTargets.eq_def]
  split
  · refine .bind (renaming_lookup.weaken fun _ _ h => h.1) fun r => ?_
    obtain ⟨error, a_tvp⟩ := r
    dsimp only
    split
    · exact triple_renaming .pure
    · exact .bind (renaming_lookup.weaken fun _ _ h => h.1) fun _ => triple_renaming .pure
  · refine .bind renaming_lookup fun r => ?_
    obtain ⟨error2, redirectedTvp⟩ := r
    dsimp only
    split
    · next redirectedTvp =>
      exact .bind ((renaming_lookupLeftoverTarget hR).strengthen fun w h => ⟨h.1, h.2 _ rfl⟩)
        fun _ => triple_renaming .pure
    · exact Triple.pure fun _ h => h.1

/-- The lookups of all vnodes empty at most the file at the redirected target. -/
theorem renaming_lookupRenamed {fromPath toPath : List UInt8} (hR : R (resolve root toPath)) :
    Triple World.effect allow (Renaming app R w₀ fdvp tdvp source target)
      (lookupRenamed app.createNew ap fromPath toPath)
      fun _ => Renaming app R w₀ fdvp tdvp source target := by
  refine .bind (renaming_lookup.weaken fun _ _ h => h.1) fun r => ?_
  obtain ⟨error, a_fdvp⟩ := r
  dsimp only
  split
  · exact triple_renaming .pure
  · refine .bind (renaming_lookup.weaken fun _ _ h => h.1) fun r => ?_
    obtain ⟨error, a_tdvp⟩ := r
    dsimp only
    split
    · exact triple_renaming .pure
    · refine .bind (renaming_lookup.weaken fun _ _ h => h.1) fun r => ?_
      obtain ⟨error, a_fvp⟩ := r
      dsimp only
      split
      · exact triple_renaming .pure
      · refine .bind (renaming_lookup.weaken fun _ _ h => h.1) fun r => ?_
        obtain ⟨error, originalFvp⟩ := r
        dsimp only
        split
        · exact triple_renaming .pure
        · exact renaming_lookupTargets hR

/-- The shadow file, and then the original. -/
theorem renaming_renameShadowAndOriginal {fvp : Nat} (hregion : RenameRegion app R source target)
    (hrequests : RedirectedRequests app w source target apRedirected apShadow apOriginal) :
    Triple World.effect allow
      (Renaming app R w₀ apOriginal.a_fdvp apOriginal.a_tdvp source target)
      (renameShadowAndOriginal fvp apShadow apOriginal)
      fun _ => Renaming app R w₀ apOriginal.a_fdvp apOriginal.a_tdvp source target := by
  obtain ⟨hfname, hflen⟩ := hrequests.shadowFcnp
  obtain ⟨htname, htlen⟩ := hrequests.shadowTcnp
  rw [← hfname] at hflen
  rw [← htname] at htlen
  have hshadow : Triple World.effect allow
      (Renaming app R w₀ apShadow.a_fdvp apShadow.a_tdvp source target)
      (Kernel.vnopRename (.original fvp) apShadow)
      fun _ => Renaming app R w₀ apShadow.a_fdvp apShadow.a_tdvp source target := by
    refine renaming_vnopRename hregion (fun q hq => ?_) fun q hq => ?_
    · rw [List.take_of_length_le hflen, hfname]
      exact hregion.enter_shadow (hregion.own source (by simp)).2.1 hq
    · rw [List.take_of_length_le htlen, htname]
      exact hregion.enter_shadow (hregion.own target (by simp)).2.1 hq
  rw [hrequests.shadowFdvp, hrequests.shadowTdvp] at hshadow
  refine .bind hshadow fun error => ?_
  split
  · exact triple_renaming .pure
  · refine .bind (hregion.vnopRename hrequests.original) fun error => ?_
    split
    · exact triple_renaming .pure
    · exact triple_renaming (calm_light (light_renameDone ..))

/-- The three renames reach the six paths. -/
theorem renaming_renameAll {fvp : Nat} {error : Int} (hregion : RenameRegion app R source target)
    (hrequests : RedirectedRequests app w source target apRedirected apShadow apOriginal)
    (h : Renaming app R w₀ apOriginal.a_fdvp apOriginal.a_tdvp source target w)
    (hrun : Runs World.effect allow (renameAll fvp apRedirected apShadow apOriginal) w error w') :
    Renaming app R w₀ apOriginal.a_fdvp apOriginal.a_tdvp source target w' := by
  rw [renameAll] at hrun
  split at hrun
  · obtain ⟨-, rfl⟩ := runs_pure.mp hrun
    exact h
  · obtain ⟨errorBacking, w₁, hbacking, hrun₁⟩ := runs_bind.mp hrun
    have h₁ : Renaming app R w₀ apOriginal.a_fdvp apOriginal.a_tdvp source target w₁ := by
      obtain ⟨c, -, ⟨-, rfl, -⟩ | ⟨f, t, ns, hf, ht, hns, -, -, rfl⟩⟩ := runs_vnopRename hbacking
      · exact h
      · refine h.rename hregion.up hns ?_ ?_
        · rw [hrequests.backingSource f hf]
          exact (hregion.own source (by simp)).2.2
        · rw [hrequests.backingTarget t ht]
          exact (hregion.own target (by simp)).2.2
    split at hrun₁
    · obtain ⟨-, rfl⟩ := runs_pure.mp hrun₁
      exact h₁
    · exact renaming_renameShadowAndOriginal hregion hrequests _ _ _ h₁ hrun₁

/-- With `redirectIO` the conversions give these paths, or there is no rename. -/
theorem renaming_renameRedirectIo {fvp : Nat} {r : Int × RenameArgs Nat}
    (hregion : RenameRegion app R source target) (hpaths : RenamesPaths w ap source target)
    (h : Renaming app R w₀ ap.a_fdvp ap.a_tdvp source target w)
    (hrun : Runs World.effect allow (renameRedirectIo app.createNew fvp ap) w r w') :
    Renaming app R w₀ ap.a_fdvp ap.a_tdvp source target w' := by
  obtain ⟨⟨error, paths⟩, w₁, hconvert, hrun₁⟩ := runs_bind.mp hrun
  have hlight := light_renameConversions app.createNew ap
  have hsame₁ := sameFiles_of_quiet (quiet_light hlight) hconvert
  have h₁ := triple_renaming (calm_light hlight) _ _ _ h hconvert
  have hholds := (returns_renameConversions _ _).of_runs hconvert
  dsimp only at hrun₁
  split at hrun₁
  · next b₁ b₂ b₃ b₄ b₅ b₆ b₇ b₈ =>
    obtain ⟨⟨error, l⟩, w₂, hlookups, hrun₂⟩ := runs_bind.mp hrun₁
    -- the file that the lookups may empty is the backing file of the target
    have htarget : R (resolve root b₃.string) := by
      have hb₃ := hholds
      simp only [List.length_cons, List.length_nil, renamePaths] at hb₃
      simp only [List.take_succ_cons, List.forall₂_cons] at hb₃
      obtain ⟨-, -, ⟨hb₃, -⟩, -⟩ := hb₃
      rw [hb₃, redirectedShadow, hpaths.tcnp.1, ← shadowPath_string]
      exact (hregion.own target (by simp)).2.2
    obtain ⟨hsame₂, hdirs⟩ := runs_lookupRenamed hlookups
    have h₂ := renaming_lookupRenamed htarget _ _ _ h₁ hlookups
    dsimp only at hrun₂
    split at hrun₂
    · exact triple_renaming (calm_light (light_renameExit ..)) _ _ _ h₂ hrun₂
    · next herror =>
      rw [not_not] at herror
      obtain ⟨-, hfdvp, htdvp⟩ := hdirs herror
      obtain ⟨error', w₃, hregion', hexit⟩ := runs_bind.mp hrun₂
      obtain ⟨⟨⟩, w₄, henter, hrun₄⟩ := runs_bind.mp hregion'
      obtain ⟨error'', w₅, hall, hrun₅⟩ := runs_bind.mp hrun₄
      obtain ⟨⟨⟩, w₆, hleave, hpure⟩ := runs_bind.mp hrun₅
      obtain ⟨rfl, rfl⟩ := runs_pure.mp hpure
      have hsame₄ := hsame₂.trans (sameFiles_perform henter trivial)
      rw [← hsame₄.ns] at hfdvp htdvp
      have h₄ := triple_renaming (calm_enterRecursiveCall _) _ _ _ h₂ henter
      -- the three renames, on what the lookups found
      have hrequests := redirectedRequests (l := l) (hpaths.congr (hsame₁.trans hsame₄)) hholds
        hfdvp htdvp
      have h₅ := renaming_renameAll hregion hrequests ⟨h₄.confined, h₄.fdvp, h₄.tdvp⟩ hall
      have h₆ : Renaming app R w₀ ap.a_fdvp ap.a_tdvp source target w₅ :=
        ⟨h₅.confined, h₅.fdvp, h₅.tdvp⟩
      exact triple_renaming (calm_light (light_renameExit ..)) _ _ _
        (triple_renaming calm_leaveRecursiveCall _ _ _ h₆ hleave) hexit
  · exact triple_renaming (calm_light (light_renameExit ..)) _ _ _ h₁ hrun₁

/-- A rename reaches the six paths and what is below them. -/
theorem confined_rename {fvp : Nat} {r : Int × RenameArgs Nat}
    (hregion : RenameRegion app R source target) (hcookie : w.cookie = none)
    (hpaths : RenamesPaths w ap source target) (h : Confined app R w₀ w)
    (hrun : Runs World.effect allow (qvrVnopRenameHookEx2 app.context fvp ap) w r w') :
    Confined app R w₀ w' := by
  have hplaced : Renaming app R w₀ ap.a_fdvp ap.a_tdvp source target w := by
    refine ⟨h, ?_, ?_⟩
    · obtain ⟨dvp, hdvp, hfind⟩ := hpaths.fdvp
      intro v hv p hp
      obtain rfl : dvp = v := Option.some.inj (hdvp.symm.trans hv)
      exact .inl (Namespace.find_injective hp hfind)
    · obtain ⟨dvp, hdvp, hfind⟩ := hpaths.tdvp
      intro v hv p hp
      obtain rfl : dvp = v := Option.some.inj (hdvp.symm.trans hv)
      exact .inl (Namespace.find_injective hp hfind)
  obtain ⟨d, hd, hrest⟩ := runs_renameHook hcookie hrun
  -- the data is what the application puts on vnodes, or opens existing files with
  have hown : d = app.createNew ∨ d = app.openExisting := by
    cases hfvp : w.map.getVnodeAppData fvp with
    | none =>
      rw [hfvp] at hd
      exact .inr (Option.some.inj hd).symm
    | some d' =>
      rw [hfvp] at hd
      obtain rfl : d' = d := Option.some.inj hd
      exact h.tidy.data fvp d' hfvp
  obtain rfl | rfl := hown
  · exact (renaming_renameRedirectIo hregion hpaths hplaced hrest).confined
  · exact (renaming_renameOriginal hregion hpaths _ _ _ hplaced hrest).confined

-- ---------------------------------------------------------------------------
-- Runs
-- ---------------------------------------------------------------------------

/-- The paths that a request may change. -/
def HookCall.Reaches (app : ControlledApp) : HookCall → CanonicalPath → Prop
  | .lookup _ path _, p =>
    p ∈ [shadowPath path, backingPath app.redirectTo (shadowPath path),
      backingPath app.redirectTo path]
  | .create path, p =>
    p ∈ [path, shadowPath path, backingPath app.redirectTo (shadowPath path)]
  | .rename source target _ _, p =>
    ∃ q ∈ [source, target], Under q p ∨ Under (shadowPath q) p ∨
      Under (backingPath app.redirectTo (shadowPath q)) p

/-- What is below a path below `p` is below `p`. -/
theorem under_trans {p q r : CanonicalPath} (h : Under p q) (h' : Under q r) : Under p r :=
  List.IsPrefix.trans h h'

/-- The paths that a rename reaches contain what is below its six. -/
theorem renameRegion (source target : CanonicalPath) (fvp : Nat) (tvp : Option Nat) :
    RenameRegion app ((HookCall.rename source target fvp tvp).Reaches app) source target where
  up := by
    rintro p q ⟨r, hr, h | h | h⟩ hpq
    · exact ⟨r, hr, .inl (under_trans h hpq)⟩
    · exact ⟨r, hr, .inr (.inl (under_trans h hpq))⟩
    · exact ⟨r, hr, .inr (.inr (under_trans h hpq))⟩
  own p hp := ⟨⟨p, hp, .inl (under_refl p)⟩, ⟨p, hp, .inr (.inl (under_refl _))⟩,
    ⟨p, hp, .inr (.inr (under_refl _))⟩⟩

/-- A request changes no file but those that it reaches. -/
theorem confined_step {a : HookAction} (h : Tidy app w) (hstep : redirectStep app w a = some w') :
    Confined app (a.call.Reaches app) w w' := by
  have hsame : SameContents app w { w with cookie := none } :=
    ⟨rfl, rfl, rfl, fun _ _ hd => .inl hd⟩
  obtain ⟨call, answers⟩ := a
  have h₀ := (h.confined (R := call.Reaches app)).congr hsame
  cases call with
  | lookup component path nameiop =>
    obtain ⟨dvp, -, rfl⟩ := Option.map_eq_some_iff.mp hstep
    obtain ⟨r, hrun⟩ := runs_run w ⟨.lookup component path nameiop, answers⟩
      (qvrVnopLookupHookEx2 app.context dvp (componentname component path nameiop))
    exact confines_lookup (p := path) rfl (by simp [HookCall.Reaches])
      (by simp [HookCall.Reaches]) (by simp [HookCall.Reaches]) _ _ _ h₀ hrun
  -- the directory entered is the path's own, and its name the path's last
  | create path =>
    obtain ⟨dvp, hdvp, rfl⟩ := Option.map_eq_some_iff.mp hstep
    obtain ⟨r, hrun⟩ := runs_run w ⟨.create path, answers⟩
      (qvrVnopCreateHookEx2 app.context dvp (componentname path path .CREATE))
    have hentry : path.parent.enter (path.baseName.take path.baseName.length) = path := by
      rw [List.take_length, enter_parent]
    refine confines_create (p := path) (d := path.parent) rfl ?_ (by simp [HookCall.Reaches])
      (by simp [HookCall.Reaches]) _ _ _ ⟨h₀, hdvp⟩ hrun
    show HookCall.Reaches app (.create path)
      (path.parent.enter (path.baseName.take path.baseName.length))
    rw [hentry]
    simp [HookCall.Reaches]
  -- the two directories were found where the paths are
  | rename source target fvp tvp =>
    obtain ⟨fdvp, hfdvp, hstep'⟩ := Option.bind_eq_some_iff.mp hstep
    obtain ⟨tdvp, htdvp, rfl⟩ := Option.map_eq_some_iff.mp hstep'
    obtain ⟨r, hrun⟩ := runs_run w ⟨.rename source target fvp tvp, answers⟩
      (qvrVnopRenameHookEx2 app.context fvp (renameArgs fdvp tdvp source target fvp tvp))
    have hpaths : RenamesPaths { w with cookie := none }
        (renameArgs fdvp tdvp source target fvp tvp) source target :=
      (renamesPaths_renameArgs hfdvp htdvp).congr (sameFiles_cookie w none)
    exact confined_rename (renameRegion source target fvp tvp) rfl hpaths h₀ hrun

/-- In every reachable state vnodes have the application's data only. -/
theorem tidy_of_reachable (h : Reachable (redirectSystem app) w) : Tidy app w := by
  refine h.invariant (fun w hinit => ?_) fun w a w' htidy _ hstep =>
    (confined_step htidy hstep).tidy
  obtain ⟨hmap, hknown⟩ := hinit
  refine ⟨fun p v hp => hknown _ (Namespace.find_eq_some_iff.mp hp), fun v d hd => ?_⟩
  rw [hmap] at hd
  cases hd

/-- What no request reaches keeps its file, and the file its contents. -/
theorem confined_exec {as : List HookAction} (h : Tidy app w)
    (hrun : Library.exec (redirectSystem app) w as = some w')
    (hout : ∀ a ∈ as, ¬a.call.Reaches app p) :
    w'.ns.find p = w.ns.find p ∧ ∀ v, w.ns.find p = some v → w'.contents v = w.contents v := by
  induction as generalizing w with
  | nil =>
    obtain rfl := Option.some.inj hrun
    exact ⟨rfl, fun _ _ => rfl⟩
  | cons a as ih =>
    obtain ⟨w₁, hstep, hrest⟩ := Option.bind_eq_some_iff.mp hrun
    have hconfined := confined_step h hstep
    have hp := hout a List.mem_cons_self
    obtain ⟨hname, hcontents⟩ :=
      ih hconfined.tidy hrest fun a' ha' => hout a' (List.mem_cons_of_mem a ha')
    have hfirst := hconfined.names p hp
    refine ⟨hname.trans hfirst, fun v hv => ?_⟩
    rw [hcontents v (hfirst.trans hv), hconfined.contents p v hp hv]

end VfsRedirector
