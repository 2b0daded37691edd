import VfsRedirector.Library.Log
import VfsRedirector.Redirect.Pairing

/-!
# Renaming shadow files and backing files

A rename of the original files only moves shadow files that are below the
renamed path, while their backing files stay. With `redirectIO` the backing file,
the shadow file and the original are renamed one after another; when a later one
fails the earlier ones are not undone.

What must hold for a rename to keep `Pairing` is `Harmless` for one rename of
paths, and `InStep` for the first two of the three.

## Results

* `Pairing.rename` — a harmless rename keeps the pairing.
* `redirectedRequests` — what the three requests of a rename are for.
* `runs_renameHook` — outside of a recursion the hook is one of the two renames.
* `pairing_rename` — the rename hook, where `RenameKeeps` holds.
-/

namespace VfsRedirector

open Library CanonicalPath Prog

variable {app : ControlledApp} {w w' : World} {f t F T s p q : CanonicalPath}
  {ns ns' ns'' : Namespace Nat}

/-- Where the shadow files that have an entry are. -/
def World.tracked (w : World) : List CanonicalPath :=
  (w.ns.entries.filter fun e => (w.map.getVnodeIo e.2).isSome).map Prod.fst

/-- A shadow file is tracked if the vnode at its path has an entry. -/
theorem mem_tracked : s ∈ w.tracked ↔
    ∃ v b, w.ns.find s = some v ∧ w.map.getVnodeIo v = some b := by
  simp only [World.tracked, List.mem_map, List.mem_filter, Option.isSome_iff_exists,
    Namespace.find_eq_some_iff]
  constructor
  · rintro ⟨⟨s, v⟩, ⟨hmem, b, hb⟩, rfl⟩
    exact ⟨v, b, hmem, hb⟩
  · rintro ⟨v, b, hmem, hb⟩
    exact ⟨(s, v), ⟨hmem, b, hb⟩, rfl⟩

/-- With the same files and entries the same shadow files are tracked. -/
theorem SameFiles.mem_tracked (h : SameFiles w w') : s ∈ w'.tracked ↔ s ∈ w.tracked := by
  simp only [VfsRedirector.mem_tracked, h.ns, h.vnodeIo]

-- ---------------------------------------------------------------------------
-- One rename
-- ---------------------------------------------------------------------------

/-- Renaming `f` to `t` takes no shadow file away from its backing file: what it
replaces is gone, and the others and their backing files are apart from it. -/
def Harmless (app : ControlledApp) (w : World) (f t : CanonicalPath) : Prop :=
  f = t ∨ ∀ s ∈ w.tracked, s = t ∨ (¬Under f s ∧ Apart f t (backingPath app.redirectTo s))

/-- A rename keeps `Pairing` if it takes the shadow files that are left, and their
backing files, to paths that belong together. -/
theorem Pairing.withNs (h : Pairing app w)
    (hold : ∀ q v, ns.find q = some v → ∃ p, w.ns.find p = some v)
    (hpair : ∀ q v b, ns.find q = some v → w.map.getVnodeIo v = some b →
      ns.find (backingPath app.redirectTo q) = some b) : Pairing app { w with ns } := by
  refine ⟨hpair, fun q v hq => ?_, h.knownIo, h.data⟩
  obtain ⟨p, hp⟩ := hold q v hq
  exact h.known p v hp

/-- A harmless rename keeps the pairing. -/
theorem Pairing.rename (h : Pairing app w) (hns : w.ns.rename f t = some ns)
    (hharmless : Harmless app w f t) : Pairing app { w with ns } := by
  have hfind : ∀ q v, ns.find q = some v ↔ ∃ p, w.ns.find p = some v ∧ moved f t p = some q :=
    fun _ _ => Namespace.find_rename hns
  refine h.withNs (fun q v hq => ?_) fun q v b hq hb => ?_
  · obtain ⟨p, hp, -⟩ := (hfind q v).mp hq
    exact ⟨p, hp⟩
  · obtain ⟨p, hp, hmoved⟩ := (hfind q v).mp hq
    rw [hfind]
    refine ⟨backingPath app.redirectTo p, h.paired p v b hp hb, ?_⟩
    -- a rename onto itself moves nothing
    by_cases hne : f = t
    · rw [moved, if_pos hne, Option.some.injEq] at hmoved
      rw [moved, if_pos hne, hmoved]
    obtain heq | hsteady := hharmless
    · exact absurd heq hne
    -- a tracked file is the target, which the rename removes, or is apart from both names
    obtain rfl | ⟨hbelow, hbacking⟩ := hsteady p (mem_tracked.mpr ⟨v, b, hp, hb⟩)
    · obtain ⟨-, heq | ⟨hnot, -⟩⟩ := Namespace.canRename_of_rename hns
      · exact absurd heq hne
      · rw [moved_target hne hnot] at hmoved
        cases hmoved
    · have hp' : p ≠ t := by
        rintro rfl
        rw [moved_target hne hbelow] at hmoved
        cases hmoved
      rw [moved_of_apart ⟨hbelow, hp'⟩, Option.some.injEq] at hmoved
      rw [moved_of_apart hbacking, hmoved]

-- ---------------------------------------------------------------------------
-- A shadow file and its backing file
-- ---------------------------------------------------------------------------

/-- Renaming the backing file of `F` to that of `T`, then `F` to `T`, leaves every
other shadow file that is not replaced with its backing file. -/
structure InStep (app : ControlledApp) (w : World) (F T : CanonicalPath) : Prop where
  source : Apart (backingPath app.redirectTo F) (backingPath app.redirectTo T) F
  target : Apart (backingPath app.redirectTo F) (backingPath app.redirectTo T) T
  backing : Apart F T (backingPath app.redirectTo T)
  others : ∀ s ∈ w.tracked, s ≠ F → ¬Under (backingPath app.redirectTo F) s ∧ ¬Under F s ∧
    (s = T ∨ s = backingPath app.redirectTo T ∨
      (Apart (backingPath app.redirectTo F) (backingPath app.redirectTo T)
        (backingPath app.redirectTo s) ∧ Apart F T (backingPath app.redirectTo s)))

/-- What is not moved is replaced, or stays. -/
theorem eq_of_moved (hns : ns.CanRename f t) (hf : ¬Under f p) (h : moved f t p = some q) :
    p ≠ t ∧ q = p := by
  have hp : p ≠ t := by
    rintro rfl
    obtain ⟨-, rfl | ⟨hnot, -⟩⟩ := hns
    · exact hf (under_refl _)
    · have hne : f ≠ p := by
        rintro rfl
        exact hf (under_refl _)
      rw [moved_target hne hf] at h
      cases h
  rw [moved_of_apart ⟨hf, hp⟩, Option.some.injEq] at h
  exact ⟨hp, h.symm⟩

/-- Where a shadow file with an entry is after both renames. -/
theorem InStep.cases (h : InStep app w F T)
    (hfirst : w.ns.rename (backingPath app.redirectTo F) (backingPath app.redirectTo T) = some ns)
    (hsecond : ns.rename F T = some ns') {v b : Nat} (hq : ns'.find q = some v)
    (hb : w.map.getVnodeIo v = some b) :
    (w.ns.find F = some v ∧ q = T) ∨ (w.ns.find q = some v ∧ q ≠ F ∧ q ≠ T ∧
      q ≠ backingPath app.redirectTo T) := by
  obtain ⟨p', hp', hmoved'⟩ := (Namespace.find_rename hsecond).mp hq
  obtain ⟨p, hp, hmoved⟩ := (Namespace.find_rename hfirst).mp hp'
  by_cases hpF : p = F
  · subst hpF
    rw [moved_of_apart h.source, Option.some.injEq] at hmoved
    rw [← hmoved, moved_self, Option.some.injEq] at hmoved'
    exact .inl ⟨hp, hmoved'.symm⟩
  · obtain ⟨hbelow, hbelow', -⟩ := h.others p (mem_tracked.mpr ⟨v, b, hp, hb⟩) hpF
    obtain ⟨hne, rfl⟩ := eq_of_moved (Namespace.canRename_of_rename hfirst) hbelow hmoved
    obtain ⟨hne', rfl⟩ := eq_of_moved (Namespace.canRename_of_rename hsecond) hbelow' hmoved'
    exact .inr ⟨hp, hpF, hne', hne⟩

/-- The two renames of a shadow file and its backing file keep the pairing. -/
theorem Pairing.renamePair (h : Pairing app w) (hstep : InStep app w F T)
    (hfirst : w.ns.rename (backingPath app.redirectTo F) (backingPath app.redirectTo T) = some ns)
    (hsecond : ns.rename F T = some ns') : Pairing app { w with ns := ns' } := by
  refine h.withNs (fun q v hq => ?_) fun q v b hq hb => ?_
  · obtain ⟨p', hp', -⟩ := (Namespace.find_rename hsecond).mp hq
    obtain ⟨p, hp, -⟩ := (Namespace.find_rename hfirst).mp hp'
    exact ⟨p, hp⟩
  · obtain ⟨hF, rfl⟩ | ⟨hq', hqF, hqT, hqB⟩ := hstep.cases hfirst hsecond hq hb
    · refine (Namespace.find_rename hsecond).mpr ⟨backingPath app.redirectTo q, ?_,
        moved_of_apart hstep.backing⟩
      exact (Namespace.find_rename hfirst).mpr ⟨_, h.paired F v b hF hb, moved_self _ _⟩
    · obtain ⟨-, -, rfl | rfl | ⟨hfirst', hsecond'⟩⟩ :=
        hstep.others q (mem_tracked.mpr ⟨v, b, hq', hb⟩) hqF
      · exact absurd rfl hqT
      · exact absurd rfl hqB
      · refine (Namespace.find_rename hsecond).mpr ⟨_, ?_, moved_of_apart hsecond'⟩
        exact (Namespace.find_rename hfirst).mpr ⟨_, h.paired q v b hq' hb, moved_of_apart hfirst'⟩

/-- The third rename, after the first two, is `Harmless`. -/
def HarmlessAfter (app : ControlledApp) (w : World) (F T f t : CanonicalPath) : Prop :=
  f = t ∨ ((∀ s ∈ w.tracked, s ≠ F → s = T ∨ s = backingPath app.redirectTo T ∨ s = t ∨
      (¬Under f s ∧ Apart f t (backingPath app.redirectTo s))) ∧
    (F ∈ w.tracked → T = t ∨ (¬Under f T ∧ Apart f t (backingPath app.redirectTo T))))

/-- After the renames of the backing file and the shadow file that of the original is harmless. -/
theorem HarmlessAfter.harmless (h : HarmlessAfter app w F T f t) (hstep : InStep app w F T)
    (hfirst : w.ns.rename (backingPath app.redirectTo F) (backingPath app.redirectTo T) = some ns)
    (hsecond : ns.rename F T = some ns') : Harmless app { w with ns := ns' } f t := by
  obtain heq | ⟨hothers, hF⟩ := h
  · exact .inl heq
  · refine .inr fun q hq => ?_
    obtain ⟨v, b, hv, hb⟩ := mem_tracked.mp hq
    obtain ⟨hold, rfl⟩ | ⟨hold, hqF, hqT, hqB⟩ := hstep.cases hfirst hsecond hv hb
    · exact hF (mem_tracked.mpr ⟨v, b, hold, hb⟩)
    · obtain rfl | rfl | hrest := hothers q (mem_tracked.mpr ⟨v, b, hold, hb⟩) hqF
      · exact absurd rfl hqT
      · exact absurd rfl hqB
      · exact hrest

theorem InStep.congr (h : InStep app w F T) (hsame : SameFiles w w') : InStep app w' F T :=
  ⟨h.source, h.target, h.backing, fun s hs => h.others s (hsame.mem_tracked.mp hs)⟩

theorem HarmlessAfter.congr (h : HarmlessAfter app w F T f t) (hsame : SameFiles w w') :
    HarmlessAfter app w' F T f t := by
  obtain heq | ⟨hothers, hF⟩ := h
  · exact .inl heq
  · exact .inr ⟨fun s hs => hothers s (hsame.mem_tracked.mp hs),
      fun hs => hF (hsame.mem_tracked.mp hs)⟩

-- ---------------------------------------------------------------------------
-- The calls
-- ---------------------------------------------------------------------------

section Calls

variable {allow : KernelOp Nat → Answer → Prop} {implementation : Implementation Nat}
  {ap : RenameArgs Nat}

/-- The path that a rename goes from. -/
def World.sourcePath (w : World) (ap : RenameArgs Nat) : Option CanonicalPath :=
  ap.a_fdvp.bind (w.entryPath · ap.a_fcnp)

/-- The path that a rename goes to. -/
def World.targetPath (w : World) (ap : RenameArgs Nat) : Option CanonicalPath :=
  ap.a_tdvp.bind (w.entryPath · ap.a_tcnp)

/-- A rename fails and changes nothing, or moves a path. -/
theorem runs_vnopRename {error : Int}
    (h : Runs World.effect allow (Kernel.vnopRename implementation ap) w error w') :
    ∃ c, allow (.vnopRename implementation ap) c ∧
      ((error ≠ 0 ∧ w' = w ∧ (c.error = 0 → ∀ f t, w.sourcePath ap = some f →
          w.targetPath ap = some t → ¬w.ns.CanRename f t)) ∨
        ∃ f t ns, w.sourcePath ap = some f ∧ w.targetPath ap = some t ∧
          w.ns.rename f t = some ns ∧ c.error = 0 ∧ error = 0 ∧ w' = { w with ns }) := by
  obtain ⟨c, hc, rfl, rfl⟩ := runs_perform.mp h
  refine ⟨c, hc, ?_⟩
  have heffect : World.effect w (.vnopRename implementation ap) c =
      w.rename (w.sourcePath ap) (w.targetPath ap) c.error := rfl
  rw [heffect, World.rename.eq_def]
  by_cases herror : c.error = 0
  · rw [if_neg (not_not.mpr herror)]
    cases hf : w.sourcePath ap with
    | none => exact .inl ⟨by simp [ENOENT], rfl, fun _ f t hf' => by cases hf'⟩
    | some f =>
      cases ht : w.targetPath ap with
      | none => exact .inl ⟨by simp [ENOENT], rfl, fun _ f t _ ht' => by cases ht'⟩
      | some t =>
        cases hns : w.ns.rename f t with
        | some ns => exact .inr ⟨f, t, ns, rfl, rfl, hns, herror, by simp [hns], by simp [hns]⟩
        | none =>
          refine .inl ⟨by simp [hns, EINVAL], by simp [hns], fun _ f' t' hf' ht' => ?_⟩
          cases hf'
          cases ht'
          exact Namespace.rename_eq_none_iff.mp hns
  -- the file system answered with an error of its own
  · rw [if_pos herror]
    exact .inl ⟨herror, rfl, fun h0 => absurd h0 herror⟩

/-- An entry of a directory that is where it was. -/
theorem entryPath_eq {d : CanonicalPath} {dvp : Nat} {cnp : Componentname}
    (hd : w.ns.find d = some dvp) (hlen : cnp.cn_nameptr.length ≤ cnp.cn_namelen) :
    w.entryPath dvp cnp = some (d.enter cnp.cn_nameptr) := by
  rw [World.entryPath, Namespace.pathOf_eq_some_iff.mpr hd, Option.map_some,
    List.take_of_length_le hlen]

/-- The file system refuses to rename as the caller. -/
def RefusesOriginal (allow : KernelOp Nat → Answer → Prop) : Prop :=
  ∀ implementation ap c, ap.a_context = Context.caller →
    allow (.vnopRename implementation ap) c → c.error ≠ 0

/-- A call that is refused, or fails by itself, or is harmless keeps the pairing. -/
theorem pairing_vnopRename {error : Int} (h : Pairing app w)
    (hrun : Runs World.effect allow (Kernel.vnopRename implementation ap) w error w')
    (hcontext : ap.a_context = .caller) (hsource : w.sourcePath ap = some f)
    (htarget : w.targetPath ap = some t)
    (hkeep : RefusesOriginal allow ∨ ¬w.ns.CanRename f t ∨ Harmless app w f t) :
    Pairing app w' := by
  obtain ⟨c, hc, ⟨-, rfl, -⟩ | ⟨f', t', ns, hf, ht, hns, herror, -, rfl⟩⟩ := runs_vnopRename hrun
  · exact h
  · rw [hsource] at hf
    rw [htarget] at ht
    cases hf
    cases ht
    obtain hrefuse | hcannot | hharmless := hkeep
    · exact absurd herror (hrefuse _ _ _ hcontext hc)
    · exact absurd (Namespace.canRename_of_rename hns) hcannot
    · exact h.rename hns hharmless

theorem Harmless.congr (h : Harmless app w f t) (hsame : SameFiles w w') : Harmless app w' f t := by
  obtain heq | hsteady := h
  · exact .inl heq
  · exact .inr fun s hs => hsteady s (hsame.mem_tracked.mp hs)

/-- The arguments of a request with the directories of the two paths. -/
structure RenamesPaths (w : World) (ap : RenameArgs Nat) (source target : CanonicalPath) :
    Prop where
  fdvp : ∃ dvp, ap.a_fdvp = some dvp ∧ w.ns.find source.parent = some dvp
  tdvp : ∃ dvp, ap.a_tdvp = some dvp ∧ w.ns.find target.parent = some dvp
  fcnp : ap.a_fcnp.cn_pnbuf = source.string ∧ ap.a_fcnp.cn_nameptr = source.baseName ∧
    source.baseName.length ≤ ap.a_fcnp.cn_namelen
  tcnp : ap.a_tcnp.cn_pnbuf = target.string ∧ ap.a_tcnp.cn_nameptr = target.baseName ∧
    target.baseName.length ≤ ap.a_tcnp.cn_namelen
  context : ap.a_context = .caller

variable {source target : CanonicalPath}

theorem RenamesPaths.congr (h : RenamesPaths w ap source target) (hsame : SameFiles w w') :
    RenamesPaths w' ap source target := by
  refine ⟨?_, ?_, h.fcnp, h.tcnp, h.context⟩
  · rw [hsame.ns]
    exact h.fdvp
  · rw [hsame.ns]
    exact h.tdvp

/-- A request for two paths renames from its source. -/
theorem RenamesPaths.sourcePath (h : RenamesPaths w ap source target) :
    w.sourcePath ap = some source := by
  obtain ⟨dvp, hdvp, hfind⟩ := h.fdvp
  obtain ⟨-, hname, hlen⟩ := h.fcnp
  rw [World.sourcePath, hdvp, Option.bind_some, entryPath_eq hfind (by rw [hname]; exact hlen),
    hname, enter_parent]

/-- A request for two paths renames to its target. -/
theorem RenamesPaths.targetPath (h : RenamesPaths w ap source target) :
    w.targetPath ap = some target := by
  obtain ⟨dvp, hdvp, hfind⟩ := h.tdvp
  obtain ⟨-, hname, hlen⟩ := h.tcnp
  rw [World.targetPath, hdvp, Option.bind_some, entryPath_eq hfind (by rw [hname]; exact hlen),
    hname, enter_parent]

/-- The vnodes of a request do not matter for its paths. -/
theorem RenamesPaths.swapped (h : RenamesPaths w ap source target) (newFvp newTvp : Option Nat) :
    RenamesPaths w (ap.swapped newFvp newTvp) source target :=
  ⟨h.fdvp, h.tdvp, h.fcnp, h.tcnp, h.context⟩

/-- Without `redirectIO` the one rename of the originals decides. -/
theorem pairing_renameOriginal {fvp : Nat} {r : Int × RenameArgs Nat} (h : Pairing app w)
    (hpaths : RenamesPaths w ap source target)
    (hkeep : RefusesOriginal allow ∨ ¬w.ns.CanRename source target ∨ Harmless app w source target)
    (hrun : Runs World.effect allow (renameOriginal fvp ap) w r w') : Pairing app w' := by
  obtain ⟨⟨error, newFvp⟩, w₁, hfvp, hrun₁⟩ := runs_bind.mp hrun
  obtain ⟨hsame₁, -⟩ := runs_lookup hfvp
  dsimp only at hrun₁
  split at hrun₁
  · exact h.congr (hsame₁.trans (sameFiles_of_quiet (quiet_light (light_renameExit ..)) hrun₁))
  · obtain ⟨⟨error, newTvp⟩, w₂, htvp, hrun₂⟩ := runs_bind.mp hrun₁
    have hsame₂ : SameFiles w w₂ := by
      rw [lookupOriginalTarget] at htvp
      split at htvp
      · exact hsame₁.trans (runs_lookup htvp).1
      · obtain ⟨-, rfl⟩ := runs_pure.mp htvp
        exact hsame₁
    dsimp only at hrun₂
    split at hrun₂
    · exact h.congr (hsame₂.trans (sameFiles_of_quiet (quiet_light (light_renameExit ..)) hrun₂))
    · obtain ⟨error, w₃, hrename, hexit⟩ := runs_bind.mp hrun₂
      have hpaths₂ := (hpaths.congr hsame₂).swapped newFvp newTvp
      rw [← hsame₂.ns] at hkeep
      have h₃ := pairing_vnopRename (h.congr hsame₂) hrename hpaths₂.context hpaths₂.sourcePath
        hpaths₂.targetPath (hkeep.imp_right fun hk => hk.imp_right fun hk => hk.congr hsame₂)
      exact h₃.congr (sameFiles_of_quiet (quiet_light (light_renameExit ..)) hexit)

-- ---------------------------------------------------------------------------
-- The three renames
-- ---------------------------------------------------------------------------

/-- The file system refuses to rename in the protected storage. -/
def RefusesBacking (allow : KernelOp Nat → Answer → Prop) : Prop :=
  ∀ vn ap c, allow (.vnopRename (.vnop vn) ap) c → c.error ≠ 0

/-- The file system does not refuse to rename a shadow file. -/
def RenamesShadow (allow : KernelOp Nat → Answer → Prop) : Prop :=
  ∀ vn ap c, ap.a_context = Context.superUser →
    allow (.vnopRename (.original vn) ap) c → c.error = 0

/-- When the backing file is renamed, the shadow file is renamed too, and the
rename of the original is `Harmless`. -/
structure KeepsInStep (app : ControlledApp) (allow : KernelOp Nat → Answer → Prop) (w : World)
    (source target : CanonicalPath) : Prop where
  renamesShadow : RenamesShadow allow
  canRename : ∀ ns, w.ns.rename (backingPath app.redirectTo (shadowPath source))
    (backingPath app.redirectTo (shadowPath target)) = some ns →
    ns.CanRename (shadowPath source) (shadowPath target)
  directories : ∀ p ∈ [source.parent, target.parent],
    Apart (backingPath app.redirectTo (shadowPath source))
      (backingPath app.redirectTo (shadowPath target)) p ∧
    Apart (shadowPath source) (shadowPath target) p
  inStep : InStep app w (shadowPath source) (shadowPath target)
  original : RefusesOriginal allow ∨
    HarmlessAfter app w (shadowPath source) (shadowPath target) source target

theorem KeepsInStep.congr {source target : CanonicalPath}
    (h : KeepsInStep app allow w source target) (hsame : SameFiles w w') :
    KeepsInStep app allow w' source target := by
  refine ⟨h.renamesShadow, ?_, h.directories, h.inStep.congr hsame,
    h.original.imp_right fun hafter => hafter.congr hsame⟩
  rw [hsame.ns]
  exact h.canRename

/-- The three requests go from and to the paths that they are for. -/
structure RedirectedRequests (app : ControlledApp) (w : World) (source target : CanonicalPath)
    (apRedirected apShadow apOriginal : RenameArgs Nat) : Prop where
  backingSource : ∀ f, w.sourcePath apRedirected = some f →
    f = backingPath app.redirectTo (shadowPath source)
  backingTarget : ∀ t, w.targetPath apRedirected = some t →
    t = backingPath app.redirectTo (shadowPath target)
  shadowFdvp : apShadow.a_fdvp = apOriginal.a_fdvp
  shadowTdvp : apShadow.a_tdvp = apOriginal.a_tdvp
  shadowFcnp : apShadow.a_fcnp.cn_nameptr = shadowCopy source.baseName ∧
    (shadowCopy source.baseName).length ≤ apShadow.a_fcnp.cn_namelen
  shadowTcnp : apShadow.a_tcnp.cn_nameptr = shadowCopy target.baseName ∧
    (shadowCopy target.baseName).length ≤ apShadow.a_tcnp.cn_namelen
  shadowContext : apShadow.a_context = .superUser
  original : RenamesPaths w apOriginal source target

/-- The directories of a request stay where they are in a rename apart from them. -/
theorem RenamesPaths.withNs (h : RenamesPaths w ap source target)
    (hns : w.ns.rename f t = some ns) (hsource : Apart f t source.parent)
    (htarget : Apart f t target.parent) : RenamesPaths { w with ns } ap source target := by
  refine ⟨?_, ?_, h.fcnp, h.tcnp, h.context⟩
  · obtain ⟨dvp, hdvp, hfind⟩ := h.fdvp
    exact ⟨dvp, hdvp, (Namespace.find_rename hns).mpr ⟨_, hfind, moved_of_apart hsource⟩⟩
  · obtain ⟨dvp, hdvp, hfind⟩ := h.tdvp
    exact ⟨dvp, hdvp, (Namespace.find_rename hns).mpr ⟨_, hfind, moved_of_apart htarget⟩⟩

variable {apRedirected apShadow apOriginal : RenameArgs Nat}

/-- The request for the shadow file goes from that of the source. -/
theorem RedirectedRequests.shadowSource
    (h : RedirectedRequests app w source target apRedirected apShadow apOriginal)
    (hpaths : RenamesPaths w' apOriginal source target) :
    w'.sourcePath apShadow = some (shadowPath source) := by
  obtain ⟨dvp, hdvp, hfind⟩ := hpaths.fdvp
  obtain ⟨hname, hlen⟩ := h.shadowFcnp
  rw [World.sourcePath, h.shadowFdvp, hdvp, Option.bind_some,
    entryPath_eq hfind (by rw [hname]; exact hlen), hname, shadowPath_eq]

/-- The request for the shadow file goes to that of the target. -/
theorem RedirectedRequests.shadowTarget
    (h : RedirectedRequests app w source target apRedirected apShadow apOriginal)
    (hpaths : RenamesPaths w' apOriginal source target) :
    w'.targetPath apShadow = some (shadowPath target) := by
  obtain ⟨dvp, hdvp, hfind⟩ := hpaths.tdvp
  obtain ⟨hname, hlen⟩ := h.shadowTcnp
  rw [World.targetPath, h.shadowTdvp, hdvp, Option.bind_some,
    entryPath_eq hfind (by rw [hname]; exact hlen), hname, shadowPath_eq]

/-- The shadow file follows its backing file, and the rename of the original leaves
them where they are. -/
theorem pairing_afterBacking {fvp : Nat} {error : Int} (h : Pairing app w)
    (hrequests : RedirectedRequests app w source target apRedirected apShadow apOriginal)
    (hkeep : KeepsInStep app allow w source target)
    (hfirst : w.ns.rename (backingPath app.redirectTo (shadowPath source))
      (backingPath app.redirectTo (shadowPath target)) = some ns)
    (hrun : Runs World.effect allow (renameShadowAndOriginal fvp apShadow apOriginal)
      { w with ns } error w') : Pairing app w' := by
  have hsource := hkeep.directories source.parent (by simp)
  have htarget := hkeep.directories target.parent (by simp)
  have hpaths := hrequests.original.withNs hfirst hsource.1 htarget.1
  obtain ⟨errorShadow, w₁, hshadow, hrun₁⟩ := runs_bind.mp hrun
  obtain ⟨c, hc, ⟨-, -, hrefuse⟩ | ⟨f, t, ns', hf, ht, hsecond, -, rfl, rfl⟩⟩ :=
    runs_vnopRename hshadow
  -- the shadow rename is not refused, and could be done
  · exact absurd (hkeep.canRename ns hfirst)
      (hrefuse (hkeep.renamesShadow _ _ _ hrequests.shadowContext hc) _ _
        (hrequests.shadowSource hpaths) (hrequests.shadowTarget hpaths))
  · rw [hrequests.shadowSource hpaths] at hf
    rw [hrequests.shadowTarget hpaths] at ht
    cases hf
    cases ht
    -- with the backing file and the shadow renamed the pairing holds again
    have h₁ := h.renamePair hkeep.inStep hfirst hsecond
    have hpaths₁ := hpaths.withNs hsecond hsource.2 htarget.2
    rw [if_neg (by simp)] at hrun₁
    obtain ⟨errorOriginal, w₂, horiginal, hrun₂⟩ := runs_bind.mp hrun₁
    have h₂ := pairing_vnopRename h₁ horiginal hpaths₁.context hpaths₁.sourcePath
      hpaths₁.targetPath
      (hkeep.original.imp_right fun hafter =>
        .inr (hafter.harmless hkeep.inStep hfirst hsecond))
    split at hrun₂
    · obtain ⟨-, rfl⟩ := runs_pure.mp hrun₂
      exact h₂
    · exact h₂.congr (sameFiles_of_quiet (quiet_light (light_renameDone _ _)) hrun₂)

/-- If the backing file is not renamed nothing else is, and else all stay in step. -/
theorem pairing_renameAll {fvp : Nat} {error : Int} (h : Pairing app w)
    (hrequests : RedirectedRequests app w source target apRedirected apShadow apOriginal)
    (hkeep : RefusesBacking allow ∨
      ¬w.ns.CanRename (backingPath app.redirectTo (shadowPath source))
        (backingPath app.redirectTo (shadowPath target)) ∨
      KeepsInStep app allow w source target)
    (hrun : Runs World.effect allow (renameAll fvp apRedirected apShadow apOriginal) w error w') :
    Pairing app w' := by
  rw [renameAll] at hrun
  split at hrun
  · obtain ⟨-, rfl⟩ := runs_pure.mp hrun
    exact h
  · obtain ⟨errorBacking, w₁, hbacking, hrun₁⟩ := runs_bind.mp hrun
    obtain ⟨c, hc, ⟨herror, rfl, -⟩ | ⟨f, t, ns, hf, ht, hfirst, h0, rfl, rfl⟩⟩ :=
      runs_vnopRename hbacking
    · rw [if_pos herror] at hrun₁
      obtain ⟨-, rfl⟩ := runs_pure.mp hrun₁
      exact h
    · rw [hrequests.backingSource f hf, hrequests.backingTarget t ht] at hfirst
      rw [if_neg (by simp)] at hrun₁
      obtain hrefuse | hcannot | hstep := hkeep
      · exact absurd h0 (hrefuse _ _ _ hc)
      · exact absurd (Namespace.canRename_of_rename hfirst) hcannot
      · exact pairing_afterBacking h hrequests hstep hfirst hrun₁

-- ---------------------------------------------------------------------------
-- The requests of a rename with `redirectIO`
-- ---------------------------------------------------------------------------

/-- The calls that look vnodes up, and those that empty a file. -/
def KernelOp.LooksOrEmpties : KernelOp Nat → Prop
  | .vnodeLookup .. | .vnodeGet _ | .enterRecursiveCall _ | .leaveRecursiveCall => True
  | .qvrVnodeSetsize _ size _ => size = 0
  | o => o.Light

theorem KernelOp.Light.looksOrEmpties {o : KernelOp Nat} (h : o.Light) : o.LooksOrEmpties := by
  cases o with
  | qvrVnodeSetsize => exact h.elim
  | _ => trivial

theorem KernelOp.LooksOrEmpties.quiet {o : KernelOp Nat} (h : o.LooksOrEmpties) : o.Quiet := by
  cases o <;> trivial

/-- A lookup in a region looks a vnode up and no more. -/
theorem calls_lookupInRecursion (cookie : Cookie) (path : List UInt8) (context : Context) :
    (inRecursiveCall cookie (Kernel.vnodeLookup path context) : Kernel Nat _).Calls
      KernelOp.LooksOrEmpties :=
  calls_inRecursiveCall trivial trivial (.perform trivial)

/-- The targets are looked up, and one may be emptied. -/
theorem calls_lookupTargets (path : List UInt8) (l : RenameLocals Nat) :
    (lookupTargets ap path l).Calls KernelOp.LooksOrEmpties := by
  rw [lookupTargets.eq_def]
  split
  · refine .bind (calls_lookupInRecursion ..) fun r => ?_
    obtain ⟨error, a_tvp⟩ := r
    dsimp only
    split
    · exact .pure
    · exact .bind (calls_lookupInRecursion ..) fun _ => .pure
  · refine .bind (calls_lookupInRecursion ..) fun r => ?_
    obtain ⟨error2, redirectedTvp⟩ := r
    dsimp only
    split
    · refine .bind (.bind (calls_lookupInRecursion ..) fun ⟨error2, originalTvp⟩ => ?_)
        fun _ => .pure
      dsimp only
      split
      · refine .bind ((light_putIfAny _).mono fun _ => KernelOp.Light.looksOrEmpties) fun _ => ?_
        exact .bind (.perform trivial) fun _ => .pure
      · refine .bind (calls_inRecursiveCall trivial trivial (.perform rfl)) fun _ => ?_
        exact .bind (.perform trivial) fun _ => .bind (.perform trivial) fun _ => .pure
    · exact .pure

/-- All vnodes of the redirected rename are looked up, and a target may be emptied. -/
theorem calls_lookupRenamed (appData : ApplicationData) (fromPath toPath : List UInt8) :
    (lookupRenamed appData ap fromPath toPath).Calls KernelOp.LooksOrEmpties := by
  refine .bind (calls_lookupInRecursion ..) fun r => ?_
  obtain ⟨error, a_fdvp⟩ := r
  dsimp only
  split
  · exact .pure
  · refine .bind (calls_lookupInRecursion ..) fun r => ?_
    obtain ⟨error, a_tdvp⟩ := r
    dsimp only
    split
    · exact .pure
    · refine .bind (calls_lookupInRecursion ..) fun r => ?_
      obtain ⟨error, a_fvp⟩ := r
      dsimp only
      split
      · exact .pure
      · refine .bind (calls_lookupInRecursion ..) fun r => ?_
        obtain ⟨error, originalFvp⟩ := r
        dsimp only
        split
        · exact .pure
        · exact calls_lookupTargets _ _

/-- The targets are looked up beside the other vnodes; where the request has none this
does not fail. -/
theorem returns_lookupTargets (path : List UInt8) (l : RenameLocals Nat) :
    (lookupTargets ap path l).Returns fun r =>
      (r.2.a_fdvp = l.a_fdvp ∧ r.2.a_tdvp = l.a_tdvp ∧ r.2.a_fvp = l.a_fvp) ∧
        (ap.a_tvp = none → r.1 = 0) := by
  rw [lookupTargets.eq_def]
  split
  · next htvp =>
    have hsome : ∀ {error : Int}, ap.a_tvp = none → error = 0 := fun hnone => by
      rw [htvp] at hnone
      exact absurd hnone (Option.some_ne_none _)
    refine .bind (.trivial _) fun r _ => ?_
    obtain ⟨error, a_tvp⟩ := r
    dsimp only
    split
    · exact ⟨⟨rfl, rfl, rfl⟩, hsome⟩
    · exact .bind (.trivial _) fun _ _ => ⟨⟨rfl, rfl, rfl⟩, hsome⟩
  · refine .bind (.trivial _) fun r _ => ?_
    obtain ⟨error2, redirectedTvp⟩ := r
    dsimp only
    split
    -- a target that only the storage has is deleted before the renames
    · have hleftover : ∀ redirectedTvp, (lookupLeftoverTarget ap redirectedTvp l).Returns
          fun l' => l'.a_fdvp = l.a_fdvp ∧ l'.a_tdvp = l.a_tdvp ∧ l'.a_fvp = l.a_fvp := by
        intro redirectedTvp
        refine .bind (.trivial _) fun r _ => ?_
        obtain ⟨error2, originalTvp⟩ := r
        dsimp only
        split
        · exact .bind (.trivial _) fun _ _ => .bind (.trivial _) fun _ _ => ⟨rfl, rfl, rfl⟩
        · exact .bind (.trivial _) fun _ _ => .bind (.trivial _) fun _ _ =>
            .bind (.trivial _) fun _ _ => ⟨rfl, rfl, rfl⟩
      exact .bind (hleftover _) fun _ h => ⟨h, fun _ => rfl⟩
    · exact ⟨⟨rfl, rfl, rfl⟩, fun _ => rfl⟩

/-- A lookup that succeeds gives a vnode. -/
theorem runs_lookup_some {cookie : Cookie} {path : List UInt8} {context : Context}
    {r : Int × Option Nat}
    (h : Runs World.effect allow (inRecursiveCall cookie (Kernel.vnodeLookup path context)) w r w')
    (herror : r.1 = 0) : r.2 ≠ none := by
  obtain ⟨⟨⟩, w₁, henter, h₁⟩ := runs_bind.mp h
  obtain ⟨found, w₂, hlookup, h₂⟩ := runs_bind.mp h₁
  obtain ⟨⟨⟩, w₃, hleave, h₃⟩ := runs_bind.mp h₂
  obtain ⟨rfl, rfl⟩ := runs_pure.mp h₃
  obtain ⟨c, -, hfound, -⟩ := runs_perform.mp hlookup
  have hfound : r = w₁.lookupPath (resolve root path) c.error := hfound
  rw [hfound, World.lookupPath] at herror ⊢
  split at herror
  · next hne => exact absurd herror hne
  · next hc =>
    rw [if_neg hc]
    split at herror
    · exact Option.some_ne_none _
    · exact absurd herror (by decide)

/-- The directories are those of the protected storage, and there is a backing file. -/
theorem runs_lookupRenamed {fromPath toPath : List UInt8} {error : Int} {l : RenameLocals Nat}
    (h : Runs World.effect allow (lookupRenamed app.createNew ap fromPath toPath) w (error, l) w') :
    SameFiles w w' ∧ (error = 0 → l.a_fvp ≠ none ∧
      (∀ d, l.a_fdvp = some d → w.ns.find app.redirectTo = some d) ∧
      ∀ d, l.a_tdvp = some d → w.ns.find app.redirectTo = some d) := by
  -- the directories of the storage, then the backing file and the original
  obtain ⟨⟨error₁, a_fdvp⟩, w₁, hfdvp, hrun₁⟩ := runs_bind.mp h
  obtain ⟨hsame₁, hfound₁⟩ := runs_lookup hfdvp
  rw [show resolve root app.createNew.redirectTo = app.redirectTo from resolve_string _ _]
    at hfound₁
  dsimp only at hrun₁
  split at hrun₁
  · next hne =>
    obtain ⟨⟨⟩, rfl⟩ := runs_pure.mp hrun₁
    exact ⟨hsame₁, fun h0 => absurd h0 hne⟩
  next herror₁ =>
  obtain ⟨⟨error₂, a_tdvp⟩, w₂, htdvp, hrun₂⟩ := runs_bind.mp hrun₁
  obtain ⟨hsame₂, hfound₂⟩ := runs_lookup htdvp
  rw [show resolve root app.createNew.redirectTo = app.redirectTo from resolve_string _ _]
    at hfound₂
  have hsame := hsame₁.trans hsame₂
  dsimp only at hrun₂
  split at hrun₂
  · next hne =>
    obtain ⟨⟨⟩, rfl⟩ := runs_pure.mp hrun₂
    exact ⟨hsame, fun h0 => absurd h0 hne⟩
  next herror₂ =>
  rw [not_not] at herror₁ herror₂
  subst herror₁ herror₂
  -- both directories are the redirection directory
  have hdirs : (∀ d, a_fdvp = some d → w.ns.find app.redirectTo = some d) ∧
      ∀ d, a_tdvp = some d → w.ns.find app.redirectTo = some d := by
    refine ⟨fun d hd => hfound₁ d (by rw [hd]), fun d hd => ?_⟩
    rw [← hsame₁.ns]
    exact hfound₂ d (by rw [hd])
  obtain ⟨⟨error₃, a_fvp⟩, w₃, hfvp, hrun₃⟩ := runs_bind.mp hrun₂
  have hsame₃ := hsame.trans (runs_lookup hfvp).1
  dsimp only at hrun₃
  split at hrun₃
  · next hne =>
    obtain ⟨⟨⟩, rfl⟩ := runs_pure.mp hrun₃
    exact ⟨hsame₃, fun h0 => absurd h0 hne⟩
  next herror₃ =>
  rw [not_not] at herror₃
  have hfound₃ : a_fvp ≠ none := runs_lookup_some hfvp herror₃
  obtain ⟨⟨error₄, originalFvp⟩, w₄, horiginal, hrun₄⟩ := runs_bind.mp hrun₃
  have hsame₄ := hsame₃.trans (runs_lookup horiginal).1
  dsimp only at hrun₄
  split at hrun₄
  · next hne =>
    obtain ⟨⟨⟩, rfl⟩ := runs_pure.mp hrun₄
    exact ⟨hsame₄, fun h0 => absurd h0 hne⟩
  obtain ⟨⟨hfdvp', htdvp', hfvp'⟩, -⟩ := (returns_lookupTargets _ _).of_runs hrun₄
  refine ⟨hsame₄.trans (sameFiles_of_quiet ((calls_lookupTargets _ _).mono
    fun _ => KernelOp.LooksOrEmpties.quiet) hrun₄), fun _ => ?_⟩
  rw [hfdvp', htdvp', hfvp']
  exact ⟨hfound₃, hdirs⟩

/-- The paths of a rename, in the order of `renameConversions`. -/
def renamePaths (appData : ApplicationData) (ap : RenameArgs Nat) : List (List UInt8) :=
  [redirectedShadow appData.redirectTo ap.a_fcnp.cn_pnbuf, redirectedShadow [] ap.a_fcnp.cn_pnbuf,
    redirectedShadow appData.redirectTo ap.a_tcnp.cn_pnbuf, redirectedShadow [] ap.a_tcnp.cn_pnbuf,
    shadowCopy ap.a_fcnp.cn_pnbuf, shadowCopy ap.a_fcnp.cn_nameptr,
    shadowCopy ap.a_tcnp.cn_pnbuf, shadowCopy ap.a_tcnp.cn_nameptr]

/-- As far as the conversions succeed, the paths are as in the list. -/
theorem returns_renameConversions (appData : ApplicationData) (ap : RenameArgs Nat) :
    (convertPaths (renameConversions appData ap)).Returns fun r =>
      List.Forall₂ PathBuffer.Holds r.2 ((renamePaths appData ap).take r.2.length) := by
  have hzip : ((renameConversions appData ap).zip (renamePaths appData ap)).map Prod.fst =
      renameConversions appData ap := rfl
  have h := returns_convertPaths (R := PathBuffer.Holds)
    (l := (renameConversions appData ap).zip (renamePaths appData ap))
  rw [hzip] at h
  have hconverts : ∀ x ∈ (renameConversions appData ap).zip (renamePaths appData ap),
      x.1.Returns (ConvertsTo x.2) := by
    simp [renameConversions, renamePaths, returns_convertToShadowAndThenRedirectedPath,
      returns_convertToShadowCopyPath]
  exact h fun x hx => (hconverts x hx).mono fun _ => Or.imp_left fun hr => by rw [hr]

/-- With all eight paths and the directories of the storage the three requests are for what they
should be. -/
theorem redirectedRequests {l : RenameLocals Nat} {b₁ b₂ b₃ b₄ b₅ b₆ b₇ b₈ : PathBuffer}
    (hpaths : RenamesPaths w ap source target)
    (hholds : List.Forall₂ PathBuffer.Holds [b₁, b₂, b₃, b₄, b₅, b₆, b₇, b₈]
      (renamePaths app.createNew ap))
    (hfdvp : ∀ d, l.a_fdvp = some d → w.ns.find app.redirectTo = some d)
    (htdvp : ∀ d, l.a_tdvp = some d → w.ns.find app.redirectTo = some d) :
    RedirectedRequests app w source target (ap.redirected l b₁ b₂ b₃ b₄) (ap.shadow b₅ b₆ b₇ b₈)
      (ap.original l) := by
  simp only [renamePaths, List.forall₂_cons] at hholds
  obtain ⟨-, ⟨hb₂, hlen₂⟩, -, ⟨hb₄, hlen₄⟩, -, ⟨hb₆, hlen₆⟩, -, ⟨hb₈, hlen₈⟩, -⟩ := hholds
  obtain ⟨hfpath, hfname, hfnamelen⟩ := hpaths.fcnp
  obtain ⟨htpath, htname, htnamelen⟩ := hpaths.tcnp
  rw [redirectedShadow, hfpath, ← shadowPath_string] at hb₂ hlen₂
  rw [redirectedShadow, htpath, ← shadowPath_string] at hb₄ hlen₄
  rw [hfname] at hb₆ hlen₆
  rw [htname] at hb₈ hlen₈
  -- a shadow path is not the root
  have hne : ∀ p, (shadowPath p).components ≠ [] := by
    intro p
    rw [shadowPath_components]
    simp
  refine ⟨fun f hf => ?_, fun t ht => ?_, rfl, rfl, ⟨hb₆, ?_⟩, ⟨hb₈, ?_⟩, rfl, ?_⟩
  -- the source of the first rename is the backing file of the source
  · cases hd : l.a_fdvp with
    | none =>
      rw [World.sourcePath, RenameArgs.redirected, hd] at hf
      cases hf
    | some d =>
      have hentry := @entryPath_eq _ _ _ (ap.a_fcnp.withPath b₁ b₂) (hfdvp d hd) (by
        rw [Componentname.withPath, hb₂]
        dsimp only
        omega)
      rw [World.sourcePath, RenameArgs.redirected, hd, Option.bind_some, hentry,
        Option.some.injEq, Componentname.withPath, hb₂] at hf
      rw [← hf, backingPath_eq app.ne_root (hne source)]
  -- and its target that of the target
  · cases hd : l.a_tdvp with
    | none =>
      rw [World.targetPath, RenameArgs.redirected, hd] at ht
      cases ht
    | some d =>
      have hentry := @entryPath_eq _ _ _ (ap.a_tcnp.withPath b₃ b₄) (htdvp d hd) (by
        rw [Componentname.withPath, hb₄]
        dsimp only
        omega)
      rw [World.targetPath, RenameArgs.redirected, hd, Option.bind_some, hentry,
        Option.some.injEq, Componentname.withPath, hb₄] at ht
      rw [← ht, backingPath_eq app.ne_root (hne target)]
  · simp only [RenameArgs.shadow, Componentname.withPath]
    omega
  · simp only [RenameArgs.shadow, Componentname.withPath]
    omega
  · exact ⟨hpaths.fdvp, hpaths.tdvp, hpaths.fcnp, hpaths.tcnp, hpaths.context⟩

/-- With `redirectIO` the rename of the backing file decides. -/
theorem pairing_renameRedirectIo {fvp : Nat} {r : Int × RenameArgs Nat} (h : Pairing app w)
    (hpaths : RenamesPaths w ap source target)
    (hkeep : RefusesBacking allow ∨
      ¬w.ns.CanRename (backingPath app.redirectTo (shadowPath source))
        (backingPath app.redirectTo (shadowPath target)) ∨
      KeepsInStep app allow w source target)
    (hrun : Runs World.effect allow (renameRedirectIo app.createNew fvp ap) w r w') :
    Pairing app w' := by
  obtain ⟨⟨error, paths⟩, w₁, hconvert, hrun₁⟩ := runs_bind.mp hrun
  have hsame₁ := sameFiles_of_quiet (quiet_light (light_renameConversions _ _)) hconvert
  have hholds := (returns_renameConversions _ _).of_runs hconvert
  dsimp only at hrun₁
  split at hrun₁
  · obtain ⟨⟨error, l⟩, w₂, hlookups, hrun₂⟩ := runs_bind.mp hrun₁
    obtain ⟨hsame₂, hdirs⟩ := runs_lookupRenamed hlookups
    have hsame := hsame₁.trans hsame₂
    dsimp only at hrun₂
    split at hrun₂
    · exact h.congr (hsame.trans (sameFiles_of_quiet (quiet_light (light_renameExit ..)) hrun₂))
    · next herror =>
      rw [not_not] at herror
      obtain ⟨-, hfdvp, htdvp⟩ := hdirs herror
      obtain ⟨error', w₃, hregion, hexit⟩ := runs_bind.mp hrun₂
      obtain ⟨⟨⟩, w₄, henter, hrun₄⟩ := runs_bind.mp hregion
      obtain ⟨error'', w₅, hall, hrun₅⟩ := runs_bind.mp hrun₄
      obtain ⟨⟨⟩, w₆, hleave, hpure⟩ := runs_bind.mp hrun₅
      obtain ⟨rfl, rfl⟩ := runs_pure.mp hpure
      have hsame₄ := hsame₂.trans (sameFiles_perform henter trivial)
      have hsame' := hsame₁.trans hsame₄
      rw [← hsame₄.ns] at hfdvp htdvp
      rw [← hsame'.ns] at hkeep
      -- the three renames keep the pairing; what is around them touches no file
      have h₅ := pairing_renameAll (h.congr hsame')
        (redirectedRequests (hpaths.congr hsame') hholds hfdvp htdvp)
        (hkeep.imp_right fun hk => hk.imp_right fun hstep => hstep.congr hsame') hall
      exact h₅.congr ((sameFiles_perform hleave trivial).trans
        (sameFiles_of_quiet (quiet_light (light_renameExit ..)) hexit))
  · exact h.congr (hsame₁.trans (sameFiles_of_quiet (quiet_light (light_renameExit ..)) hrun₁))

-- ---------------------------------------------------------------------------
-- The hook
-- ---------------------------------------------------------------------------

/-- Whether a vnode has data with `redirectIO`. -/
def World.redirectsIo (w : World) (vn : Nat) : Bool :=
  (w.map.getVnodeAppData vn).any (·.redirectIo)

/-- When a rename keeps `Pairing`. -/
def RenameKeeps (app : ControlledApp) (allow : KernelOp Nat → Answer → Prop) (w : World)
    (source target : CanonicalPath) (fvp : Nat) : Prop :=
  if w.redirectsIo fvp then
    RefusesBacking allow ∨
      ¬w.ns.CanRename (backingPath app.redirectTo (shadowPath source))
        (backingPath app.redirectTo (shadowPath target)) ∨
      KeepsInStep app allow w source target
  else RefusesOriginal allow ∨ ¬w.ns.CanRename source target ∨ Harmless app w source target

/-- Outside of a recursion the hook goes by the data of the vnode, or else by that of
the application. -/
theorem runs_renameHook_log {fvp : Nat} {r : Int × RenameArgs Nat}
    {s s' : World × Log (@KernelOp.Res Nat)} (hcookie : s.1.cookie = none)
    (hrun : Runs (logged World.effect) allow (qvrVnopRenameHookEx2 app.context fvp ap) s r s') :
    ∃ d, (s.1.map.getVnodeAppData fvp).or (some app.openExisting) = some d ∧
      Runs (logged World.effect) allow (match d.redirectIo with
        | true => renameRedirectIo d fvp ap
        | false => renameOriginal fvp ap)
        (s.1, s.2 ++ [⟨.getVnodeAppData fvp, s.1.map.getVnodeAppData fvp⟩] ++
          [⟨.cookieForRecursiveCall, none⟩] ++ [⟨.isUserClient, false⟩]) r s' := by
  obtain ⟨appDataVnode, s₁, hget, hrun₁⟩ := runs_bind.mp hrun
  obtain ⟨c, -, hdata, hs₁⟩ := runs_perform.mp hget
  have hdata : appDataVnode = s.1.map.getVnodeAppData fvp := hdata
  rw [hdata] at hrun₁
  -- the data of the vnode, or that of its path's application
  obtain ⟨d, hd⟩ : ∃ d, (s.1.map.getVnodeAppData fvp).or (some app.openExisting) = some d := by
    cases s.1.map.getVnodeAppData fvp <;> exact ⟨_, rfl⟩
  rw [show app.context.openExisting = some app.openExisting from rfl, hd] at hrun₁
  obtain ⟨pass, s₂, hpass, hrun₂⟩ := runs_bind.mp hrun₁
  obtain ⟨cookie, s₃, hget', hclient⟩ := runs_bind.mp hpass
  obtain ⟨c', -, hcookie', hs₃⟩ := runs_perform.mp hget'
  rw [hs₁] at hcookie' hs₃
  -- no recursive call and not the daemon: the request is not passed
  have hcookie' : cookie = none := hcookie'.trans hcookie
  have hs₃ : s₃ = (s.1, s.2 ++ [⟨.getVnodeAppData fvp, s.1.map.getVnodeAppData fvp⟩] ++
      [⟨.cookieForRecursiveCall, s.1.cookie⟩]) := hs₃
  rw [hcookie'] at hclient
  obtain ⟨c'', -, hpass', hs₂⟩ := runs_perform.mp hclient
  rw [hs₃, hcookie] at hs₂
  have hpass' : pass = false := hpass'
  rw [hpass', hs₂] at hrun₂
  exact ⟨d, hd, hrun₂⟩

/-- Without the log: outside of a recursion the hook is one of the two renames. -/
theorem runs_renameHook {fvp : Nat} {r : Int × RenameArgs Nat} (hcookie : w.cookie = none)
    (hrun : Runs World.effect allow (qvrVnopRenameHookEx2 app.context fvp ap) w r w') :
    ∃ d, (w.map.getVnodeAppData fvp).or (some app.openExisting) = some d ∧
      Runs World.effect allow (match d.redirectIo with
        | true => renameRedirectIo d fvp ap
        | false => renameOriginal fvp ap) w r w' := by
  obtain ⟨log, hlogged⟩ := hrun.withLog []
  obtain ⟨d, hd, hrest⟩ := runs_renameHook_log hcookie hlogged
  exact ⟨d, hd, hrest.unlogged⟩

/-- The rename hook keeps the pairing where `RenameKeeps` holds. -/
theorem pairing_rename {fvp : Nat} {r : Int × RenameArgs Nat} (h : Pairing app w)
    (hcookie : w.cookie = none) (hpaths : RenamesPaths w ap source target)
    (hkeep : RenameKeeps app allow w source target fvp)
    (hrun : Runs World.effect allow (qvrVnopRenameHookEx2 app.context fvp ap) w r w') :
    Pairing app w' := by
  obtain ⟨d, hd, hrest⟩ := runs_renameHook hcookie hrun
  rw [RenameKeeps, World.redirectsIo] at hkeep
  cases hfvp : w.map.getVnodeAppData fvp with
  | none =>
    rw [hfvp] at hd hkeep
    obtain rfl : app.openExisting = d := Option.some.inj hd
    exact pairing_renameOriginal h hpaths hkeep hrest
  | some d' =>
    rw [hfvp] at hd hkeep
    obtain rfl : d' = d := Option.some.inj hd
    obtain rfl | rfl := h.data fvp d' hfvp
    · exact pairing_renameRedirectIo h hpaths hkeep hrest
    · exact pairing_renameOriginal h hpaths hkeep hrest

end Calls

end VfsRedirector
