import VfsRedirector.Redirect.Rename

/-!
# Runs of the hooks

In a run whose renames all keep the shadow files with their backing files
(`RenamesKeep`), what `QvrGetBackingVnodeForRedirectedIO` finds for a shadow vnode
is what its entry is for, and both are the file at the redirected path of the
shadow file (`backing_found`). A directory that is renamed takes the shadow files
in it away from their backing files (`not_backing_found`).

## Results

* `runs_run` — what a step does is what the hook does.
* `backing_found` — in a run whose renames meet `RenameKeeps`, where the backing file
  of a shadow vnode is.
-/

namespace VfsRedirector

open Library CanonicalPath Prog

variable {app : ControlledApp} {w w' : World} {source target : CanonicalPath} {fvp : Nat}

/-- What the environment may answer in a step. -/
def HookAction.Allows (a : HookAction) (o : KernelOp Nat) (c : Answer) : Prop :=
  ∃ i, a.answers i o = c

/-- A lookup or a create, or a rename that keeps `Pairing`. -/
def RenamesKeep (app : ControlledApp) (w : World) (a : HookAction) : Prop :=
  match a.call with
  | .rename source target fvp _ => RenameKeeps app a.Allows w source target fvp
  | _ => True

/-- A shadow vnode has an entry for the file at the redirected path of where it is,
and the next association finds the same file. -/
def BackingFound (app : ControlledApp) (w : World) : Prop :=
  ∀ s v b, w.ns.find s = some v → w.map.getVnodeIo v = some b →
    w.ns.find (backingPath app.redirectTo s) = some b ∧
    ∀ forceUpdate answers b', (exec World.effect answers
      (qvrGetBackingVnodeForRedirectedIo v app.createNew forceUpdate) 0 w).2 = some b' → b' = b

-- ---------------------------------------------------------------------------
-- What a step keeps
-- ---------------------------------------------------------------------------

/-- A cookie is no file. -/
theorem sameFiles_cookie (w : World) (cookie : Option Cookie) :
    SameFiles w { w with cookie } := ⟨rfl, rfl, fun _ => rfl, fun _ => rfl⟩

/-- The mark of the thread does not matter for what a rename keeps. -/
theorem RenameKeeps.withCookie {allow : KernelOp Nat → Answer → Prop} {cookie : Option Cookie}
    (h : RenameKeeps app allow w source target fvp) :
    RenameKeeps app allow { w with cookie } source target fvp := by
  have hsame := sameFiles_cookie w cookie
  rw [RenameKeeps] at h ⊢
  rw [show ({ w with cookie } : World).redirectsIo fvp = w.redirectsIo fvp from rfl]
  split at h
  · next hio =>
    rw [if_pos hio]
    exact h.imp_right fun hkeep => hkeep.imp_right fun hstep => hstep.congr hsame
  · next hio =>
    rw [if_neg hio]
    exact h.imp_right fun hkeep => hkeep.imp_right fun hharmless => hharmless.congr hsame

/-- The arguments of a rename are for its two paths. -/
theorem renamesPaths_renameArgs {fdvp tdvp : Nat} {tvp : Option Nat}
    (hfdvp : w.ns.find source.parent = some fdvp) (htdvp : w.ns.find target.parent = some tdvp) :
    RenamesPaths w (renameArgs fdvp tdvp source target fvp tvp) source target :=
  ⟨⟨fdvp, rfl, hfdvp⟩, ⟨tdvp, rfl, htdvp⟩, ⟨rfl, rfl, Nat.le_refl _⟩, ⟨rfl, rfl, Nat.le_refl _⟩,
    rfl⟩

/-- The run of a hook in a step. -/
theorem runs_run {α : Type} (w : World) (a : HookAction) (p : Kernel Nat α) :
    ∃ r, Runs World.effect a.Allows p { w with cookie := none } r (w.run a.answers p) :=
  ⟨_, runs_exec (fun i _ => ⟨i, rfl⟩) p 0 _⟩

/-- A request keeps the pairing, given the condition on renames. -/
theorem pairing_step {a : HookAction} (h : Pairing app w) (hkeep : RenamesKeep app w a)
    (hstep : redirectStep app w a = some w') : Pairing app w' := by
  have h₀ := h.congr (sameFiles_cookie w none)
  obtain ⟨call, answers⟩ := a
  cases call with
  | lookup component path nameiop =>
    obtain ⟨dvp, -, rfl⟩ := Option.map_eq_some_iff.mp hstep
    obtain ⟨r, hrun⟩ := runs_run w ⟨.lookup component path nameiop, answers⟩
      (qvrVnopLookupHookEx2 app.context dvp (componentname component path nameiop))
    exact pairing_lookup _ _ _ h₀ hrun
  | create path =>
    obtain ⟨dvp, -, rfl⟩ := Option.map_eq_some_iff.mp hstep
    obtain ⟨r, hrun⟩ := runs_run w ⟨.create path, answers⟩
      (qvrVnopCreateHookEx2 app.context dvp (componentname path path .CREATE))
    exact pairing_create _ _ _ h₀ hrun
  | rename source target fvp tvp =>
    obtain ⟨fdvp, hfdvp, hstep'⟩ := Option.bind_eq_some_iff.mp hstep
    obtain ⟨tdvp, htdvp, rfl⟩ := Option.map_eq_some_iff.mp hstep'
    obtain ⟨r, hrun⟩ := runs_run w ⟨.rename source target fvp tvp, answers⟩
      (qvrVnopRenameHookEx2 app.context fvp (renameArgs fdvp tdvp source target fvp tvp))
    exact pairing_rename h₀ rfl (renamesPaths_renameArgs hfdvp htdvp) hkeep.withCookie hrun

/-- In the beginning there is no entry to pair. -/
theorem pairing_init (h : (redirectSystem app).init w) : Pairing app w := by
  obtain ⟨hmap, hknown⟩ := h
  refine ⟨fun s v b _ hb => ?_, fun p v hp => ?_, fun v b hb => ?_, fun v d hd => ?_⟩
  · rw [hmap] at hb
    cases hb
  · exact hknown _ (Namespace.find_eq_some_iff.mp hp)
  · rw [hmap] at hb
    cases hb
  · rw [hmap] at hd
    cases hd

/-- The pairing holds in every state of a run whose renames meet the condition. -/
theorem pairing_of_reachableBy (h : ReachableBy (redirectSystem app) (RenamesKeep app) w) :
    Pairing app w :=
  h.invariant (fun _ => pairing_init) fun _ _ _ hpairing hkeep hstep =>
    pairing_step hpairing hkeep hstep

/-- The calls that leave the files where they are. -/
def KernelOp.Still : KernelOp Nat → Prop
  | .vnodeOpen _ | .vnopCreate .. | .vnopRename .. | .callDaemon _ => False
  | _ => True

theorem KernelOp.Quiet.still {o : KernelOp Nat} (h : o.Quiet) : o.Still := by
  cases o <;> trivial

/-- A call that moves no file leaves the namespace. -/
theorem ns_effect {o : KernelOp Nat} (c : Answer) (h : o.Still) :
    (World.effect w o c).1.ns = w.ns := by
  cases o with
  | vnodeOpen | vnopCreate | vnopRename | callDaemon => exact h.elim
  | addVnodeAppData | addVnodeIo | removeVnodeIo => rfl
  | _ =>
    refine (sameFiles_quiet c ?_).ns
    trivial

/-- To find a backing vnode moves no file. -/
theorem calls_findBackingVnode (vn : Nat) (appData : ApplicationData) :
    (findBackingVnode vn appData).Calls KernelOp.Still := by
  have hquiet : ∀ {α : Type} {p : Kernel Nat α}, p.Calls KernelOp.Quiet → p.Calls KernelOp.Still :=
    fun h => h.mono fun _ => KernelOp.Quiet.still
  have hlookup : ∀ path, (lookupBackingVnode vn path appData).Calls KernelOp.Still := by
    intro path
    refine .bind (hquiet (quiet_light (light_convertToRedirectedPath ..))) fun r => ?_
    obtain ⟨error, path⟩ := r
    dsimp only
    split
    · exact .pure
    · refine .bind (hquiet (calls_inRecursiveCall trivial trivial (.perform trivial)))
        fun r => ?_
      obtain ⟨error, backingVnode⟩ := r
      dsimp only
      split
      · exact .bind (.perform trivial) fun _ =>
          .bind (hquiet (calls_inRecursiveCall trivial trivial
            (quiet_caching (calls_refillCache ..)))) fun _ =>
          .bind (hquiet (quiet_light (light_freePath _))) fun _ => .pure
      · exact .bind (hquiet (quiet_light (light_freePath _))) fun _ => .pure
  refine .bind (.perform trivial) fun vnodePath => ?_
  split
  · exact .pure
  · refine .bind (.perform trivial) fun r => ?_
    obtain ⟨error, path⟩ := r
    dsimp only
    split
    · exact .bind (hlookup path) fun _ => .bind (.perform trivial) fun _ => .pure
    · exact .bind .pure fun _ => .bind (.perform trivial) fun _ => .pure

/-- To get a backing vnode moves no file. -/
theorem calls_getBackingVnode (vn : Nat) (appData : ApplicationData) (forceUpdate : Bool) :
    (qvrGetBackingVnodeForRedirectedIo vn appData forceUpdate).Calls KernelOp.Still := by
  refine .bind (.perform trivial) fun type => ?_
  split
  · exact .pure
  · split
    · exact .bind (.perform trivial) fun _ => calls_findBackingVnode ..
    · refine .bind (.perform trivial) fun existing => ?_
      split
      · exact .pure
      · exact calls_findBackingVnode ..

/-- An association creates no file and renames none. -/
theorem ns_getBackingVnode {vn : Nat} {appData : ApplicationData} {forceUpdate : Bool}
    {allow : KernelOp Nat → Answer → Prop} {r : Option Nat}
    (h : Runs World.effect allow (qvrGetBackingVnodeForRedirectedIo vn appData forceUpdate) w r
      w') :
    w'.ns = w.ns := by
  have hcalls := calls_getBackingVnode vn appData forceUpdate
  have hns : Triple World.effect allow (fun v => v.ns = w.ns)
      (qvrGetBackingVnodeForRedirectedIo vn appData forceUpdate) fun _ v => v.ns = w.ns :=
    hcalls.triple fun _ _ c ho hns => (ns_effect c ho).trans hns
  exact hns w r w' rfl h

/-- In every run whose renames keep shadow files and backing files together, the entry
of a shadow vnode is for the file at the redirected path of where it is, which the
next association finds. -/
theorem backing_found (h : ReachableBy (redirectSystem app) (RenamesKeep app) w) :
    BackingFound app w := by
  have hpairing := pairing_of_reachableBy h
  intro s v b hs hb
  have hbacking := hpairing.paired s v b hs hb
  refine ⟨hbacking, fun forceUpdate answers b' hfound => ?_⟩
  have hrun := @runs_exec _ _ _ _ _ World.effect (fun _ _ => True) answers (fun _ _ => trivial)
    (qvrGetBackingVnodeForRedirectedIo v app.createNew forceUpdate) 0 w
  obtain ⟨-, hisBacking⟩ := keeps_getBackingVnode rfl _ _ _ hpairing hrun
  have hns := ns_getBackingVnode hrun
  have hb' := hisBacking b' hfound s (by rw [hns]; exact hs)
  rw [hns, hbacking] at hb'
  exact (Option.some.inj hb').symm

-- ---------------------------------------------------------------------------
-- A file in a directory
-- ---------------------------------------------------------------------------

namespace Sample

/-- `/w` -/
def protectedStorage : CanonicalPath := ⟨[[119]], by decide⟩

/-- `/d` -/
def directory : CanonicalPath := ⟨[[100]], by decide⟩

/-- `/e` -/
def newDirectory : CanonicalPath := ⟨[[101]], by decide⟩

/-- `/d/a` -/
def file : CanonicalPath := ⟨[[100], [97]], by decide⟩

/-- `/d/b` -/
def newFile : CanonicalPath := ⟨[[100], [98]], by decide⟩

def application : ControlledApp := ⟨protectedStorage, by decide⟩

/-- The file `/d/a` is vnode 3. -/
def world : World where
  ns := ⟨[(root, 0), (protectedStorage, 1), (directory, 2), (file, 3)], by decide⟩
  vtype := fun v => if v = 3 then .vreg else .vdir
  contents := fun _ => []
  next := 4
  map := VNodeMap.empty
  cookie := none

/-- No call fails. -/
def action (call : HookCall) : HookAction := ⟨call, fun _ _ => {}⟩

/-- The lookup that makes the shadow file, which is vnode 4. -/
def lookup : HookAction := action (.lookup file file .LOOKUP)

def afterLookup : World := (redirectStep application world lookup).get (by decide +kernel)

/-- In the run the lookup leads to this state. -/
theorem step_lookup : redirectStep application world lookup = some afterLookup :=
  (Option.some_get _).symm

/-- The state after the lookup can be reached without a rename. -/
theorem reachable_afterLookup :
    ReachableBy (redirectSystem application) (RenamesKeep application) afterLookup := by
  have hinit : (redirectSystem application).init world := ⟨rfl, by decide⟩
  exact .step (a := lookup) (.init hinit) trivial step_lookup

def renameDirectory : HookAction := action (.rename directory newDirectory 2 none)

def afterDirectory : World :=
  (redirectStep application afterLookup renameDirectory).get (by decide +kernel)

/-- In the run the rename of the directory leads to this state. -/
theorem step_renameDirectory :
    redirectStep application afterLookup renameDirectory = some afterDirectory :=
  (Option.some_get _).symm

def renameFile : HookAction := action (.rename file newFile 4 none)

def afterFile : World := (redirectStep application afterLookup renameFile).get (by decide +kernel)

/-- In the run the rename of the file leads to this state. -/
theorem step_renameFile : redirectStep application afterLookup renameFile = some afterFile :=
  (Option.some_get _).symm

end Sample

open Sample in
/-- The directory of a shadow file is renamed; the backing file stays. -/
theorem not_backing_found :
    ¬∀ app w, Reachable (redirectSystem app) w → BackingFound app w := by
  intro h
  have hw := h application afterDirectory
    (.step (a := renameDirectory) reachable_afterLookup.reachable trivial step_renameDirectory)
  have hs : afterDirectory.ns.find (shadowPath (newDirectory.enter [97])) = some 4 := by
    decide +kernel
  have hb : afterDirectory.map.getVnodeIo 4 = some 5 := by decide +kernel
  have hbacking : afterDirectory.ns.find
      (backingPath application.redirectTo (shadowPath (newDirectory.enter [97]))) ≠ some 5 := by
    decide +kernel
  exact hbacking (hw _ 4 5 hs hb).1

open Sample in
/-- A file is renamed, which moves the shadow file and the backing file with it. -/
theorem backing_found_afterFile : BackingFound application afterFile := by
  have hrename : ∃ ns, afterLookup.ns.rename
      (backingPath application.redirectTo (shadowPath file))
      (backingPath application.redirectTo (shadowPath newFile)) = some ns ∧
      ns.CanRename (shadowPath file) (shadowPath newFile) := by
    refine ⟨_, (Option.some_get (by decide +kernel)).symm, by decide +kernel⟩
  have hkeep : KeepsInStep application renameFile.Allows afterLookup file newFile := by
    refine ⟨?_, ?_, by decide +kernel, ⟨by decide +kernel, by decide +kernel, by decide +kernel,
      by decide +kernel⟩, .inr (.inr ⟨by decide +kernel, fun _ => by decide +kernel⟩)⟩
    · rintro vn ap c - ⟨i, rfl⟩
      rfl
    · intro ns hns
      obtain ⟨ns', hns', hcan⟩ := hrename
      rw [hns', Option.some.injEq] at hns
      exact hns ▸ hcan
  have hguard : RenamesKeep application afterLookup renameFile := by
    change RenameKeeps application renameFile.Allows afterLookup file newFile 4
    rw [RenameKeeps, if_pos (by decide +kernel)]
    exact .inr (.inr hkeep)
  exact backing_found (.step reachable_afterLookup hguard step_renameFile)

end VfsRedirector
