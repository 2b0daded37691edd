import VfsRedirector.Redirect.World

/-!
# Shadow files and their backing files

A shadow vnode with an entry in `InstanceForVnodeIO` is paired with its backing
vnode when that is the file at the redirected path of where the shadow file is
now. `Pairing` says so of all of them; it is what makes the next association of
the same file find the same backing file.

Lookup and create keep it, however their calls end: they add files where there
were none, and an entry for what the redirected path led to
(`pairing_lookup`, `pairing_create`).

## Results

* `Pairing.create`, `Pairing.openPath`, `Pairing.addVnodeIo` — what the calls of the
  hooks do to the pairing.
* `keeps_getBackingVnode` — the backing vnode that is found, or made.
* `pairing_lookup`, `pairing_create` — the two hooks keep the pairing.
-/

namespace VfsRedirector

open Library CanonicalPath Prog

/-- Every shadow vnode that is in the namespace has its entry for the file at the
redirected path. -/
structure Pairing (app : ControlledApp) (w : World) : Prop where
  paired : ∀ s v b, w.ns.find s = some v → w.map.getVnodeIo v = some b →
    w.ns.find (backingPath app.redirectTo s) = some b
  known : ∀ p v, w.ns.find p = some v → v < w.next
  knownIo : ∀ v b, w.map.getVnodeIo v = some b → v < w.next
  data : ∀ v d, w.map.getVnodeAppData v = some d → d = app.createNew ∨ d = app.openExisting

-- ---------------------------------------------------------------------------
-- Calls that change no file and no association
-- ---------------------------------------------------------------------------

/-- What pairing is about is the same. -/
structure SameFiles (w w' : World) : Prop where
  ns : w'.ns = w.ns
  next : w'.next = w.next
  vnodeIo : ∀ v, w'.map.getVnodeIo v = w.map.getVnodeIo v
  appData : ∀ v, w'.map.getVnodeAppData v = w.map.getVnodeAppData v

theorem SameFiles.refl (w : World) : SameFiles w w := ⟨rfl, rfl, fun _ => rfl, fun _ => rfl⟩

theorem SameFiles.trans {w w' w'' : World} (h : SameFiles w w') (h' : SameFiles w' w'') :
    SameFiles w w'' :=
  ⟨h'.ns.trans h.ns, h'.next.trans h.next, fun v => (h'.vnodeIo v).trans (h.vnodeIo v),
    fun v => (h'.appData v).trans (h.appData v)⟩

variable {app : ControlledApp} {w w' : World} {allow : KernelOp Nat → Answer → Prop}

/-- Pairing depends on the files and the two maps only. -/
theorem Pairing.congr (h : Pairing app w) (hsame : SameFiles w w') : Pairing app w' := by
  refine ⟨fun s v b hs hb => ?_, fun p v hp => ?_, fun v b hb => ?_, fun v d hd => ?_⟩
  · rw [hsame.ns] at hs ⊢
    rw [hsame.vnodeIo] at hb
    exact h.paired s v b hs hb
  · rw [hsame.ns] at hp
    rw [hsame.next]
    exact h.known p v hp
  · rw [hsame.vnodeIo] at hb
    rw [hsame.next]
    exact h.knownIo v b hb
  · rw [hsame.appData] at hd
    exact h.data v d hd

def KernelOp.Quiet : KernelOp Nat → Prop
  | .vnodeOpen _ | .vnopCreate .. | .vnopRename .. | .callDaemon _ | .addVnodeAppData .. |
    .addVnodeIo .. | .removeVnodeIo _ => False
  | _ => True

/-- The calls that lookup and create make, except for those of
`QvrGetBackingVnodeForRedirectedIO`. -/
def KernelOp.Gentle (app : ControlledApp) : KernelOp Nat → Prop
  | .vnopRename .. | .addVnodeIo .. | .removeVnodeIo _ => False
  | .addVnodeAppData _ data => data = app.createNew ∨ data = app.openExisting
  | _ => True

theorem KernelOp.Quiet.gentle {o : KernelOp Nat} (h : o.Quiet) : o.Gentle app := by
  cases o <;> trivial

/-- The size of a file is not part of it. -/
theorem sameFiles_setSize {vp size : Nat} {error : Int} :
    SameFiles w (w.setSize vp size error) := by
  rw [World.setSize]
  split <;> exact ⟨rfl, rfl, fun _ => rfl, fun _ => rfl⟩

/-- A quiet call leaves the files and the entries as they are. -/
theorem sameFiles_quiet {o : KernelOp Nat} (c : Answer) (h : o.Quiet) :
    SameFiles w (World.effect w o c).1 := by
  cases o with
  | qvrVnodeSetsize => exact sameFiles_setSize
  | enterRecursiveCall cookie =>
    rw [World.effect]
    split <;> exact ⟨rfl, rfl, fun _ => rfl, fun _ => rfl⟩
  | leaveRecursiveCall => exact ⟨rfl, rfl, fun _ => rfl, fun _ => rfl⟩
  | addVnodeShadowReverse vnodeShadow vn =>
    exact ⟨rfl, rfl, fun _ => VNodeMap.getVnodeIO_addVnodeShadowReverse,
      fun _ => VNodeMap.getVnodeAppData_addVnodeShadowReverse⟩
  | removeShadowReverse vnodeShadow =>
    exact ⟨rfl, rfl, fun _ => VNodeMap.getVnodeIO_removeShadowReverse,
      fun _ => VNodeMap.getVnodeAppData_removeShadowReverse⟩
  | vnodeOpen | vnopCreate | vnopRename | callDaemon | addVnodeAppData | addVnodeIo
  | removeVnodeIo => exact h.elim
  | _ => exact SameFiles.refl w

-- ---------------------------------------------------------------------------
-- New files and new data
-- ---------------------------------------------------------------------------

/-- The number of the next file is that of no file yet. -/
theorem Pairing.free (h : Pairing app w) {p : CanonicalPath} (hp : w.ns.find p = none) :
    w.ns.Free p w.next := by
  rw [Namespace.free_iff]
  refine ⟨hp, fun q hq => ?_⟩
  have := h.known q _ hq
  omega

/-- A new file has no entry, and takes the place of no other. -/
theorem Pairing.create (h : Pairing app w) {p : CanonicalPath} (hp : w.ns.find p = none) :
    Pairing app (w.create p) := by
  have hfind : ∀ q v, (w.create p).ns.find q = some v ↔
      (q = p ∧ v = w.next) ∨ w.ns.find q = some v :=
    fun _ _ => Namespace.find_add (h.free hp)
  refine ⟨fun s v b hs hb => ?_, fun q v hq => ?_, fun v b hb => ?_, h.data⟩
  · obtain ⟨-, rfl⟩ | hs := (hfind s v).mp hs
    · exact absurd (h.knownIo _ _ hb) (Nat.lt_irrefl _)
    · exact (hfind _ b).mpr (.inr (h.paired s v b hs hb))
  · obtain ⟨-, rfl⟩ | hq := (hfind q v).mp hq
    · exact Nat.lt_succ_self _
    · exact Nat.lt_succ_of_lt (h.known q v hq)
  · exact Nat.lt_succ_of_lt (h.knownIo v b hb)

/-- `vnode_open` gives the file that is there, or makes one without an entry. -/
theorem Pairing.openPath (h : Pairing app w) (p : CanonicalPath) (error : Int) :
    Pairing app (w.openPath p error).1 := by
  rw [World.openPath]
  split
  · exact h
  · split
    · split
      · next vp _ _ =>
        exact h.congr (sameFiles_setSize : SameFiles w (w.setSize vp 0 0))
      · exact h
    · next hp => exact h.create hp

/-- The original create makes at most a file without an entry. -/
theorem Pairing.createEntry (h : Pairing app w) (p : Option CanonicalPath) (error : Int) :
    Pairing app (w.createEntry p error).1 := by
  unfold World.createEntry
  split
  · exact h
  · split
    · exact h
    · split
      · next hp => exact h.create hp
      · exact h

/-- The daemon makes at most the file at the redirected path. -/
theorem Pairing.daemon (h : Pairing app w) (path : List UInt8) (error : Int) :
    Pairing app (w.daemon path error) := by
  rw [World.daemon]
  split
  · next hp => exact h.create hp.2.2
  · exact h

/-- Each call that lookup and create make keeps the pairing. -/
theorem pairing_gentle {o : KernelOp Nat} (c : Answer) (ho : o.Gentle app) (h : Pairing app w) :
    Pairing app (World.effect w o c).1 := by
  cases o with
  | vnodeOpen path => exact h.openPath _ _
  | vnopCreate dvp cnp => exact h.createEntry _ _
  | callDaemon request => exact h.daemon _ _
  | addVnodeAppData vn data =>
    refine ⟨h.paired, h.known, h.knownIo, fun v d hd => ?_⟩
    obtain rfl | hd := VNodeMap.of_getVnodeAppData_addVnodeAppData hd
    · exact ho
    · exact h.data v d hd
  | vnopRename | addVnodeIo | removeVnodeIo => exact ho.elim
  | _ => exact h.congr (sameFiles_quiet c trivial)

-- ---------------------------------------------------------------------------
-- The association
-- ---------------------------------------------------------------------------

/-- A new entry for the file at the redirected path of the vnode. -/
theorem Pairing.addVnodeIo (h : Pairing app w) {s : CanonicalPath} {vn backing : Nat}
    (hs : w.ns.find s = some vn) (hb : w.ns.find (backingPath app.redirectTo s) = some backing)
    (c : Answer) : Pairing app (World.effect w (.addVnodeIo vn backing) c).1 := by
  refine ⟨fun s' v b hs' hv => ?_, h.known, fun v b hv => ?_, fun v d hd => ?_⟩
  · obtain ⟨rfl, rfl⟩ | hv := VNodeMap.of_getVnodeIO_addVnodeIo hv
    · rw [show s' = s from Namespace.find_injective hs' hs]
      exact hb
    · exact h.paired s' v b hs' hv
  · obtain ⟨rfl, -⟩ | hv := VNodeMap.of_getVnodeIO_addVnodeIo hv
    · exact h.known s _ hs
    · exact h.knownIo v b hv
  · have hdata : (World.effect w (.addVnodeIo vn backing) c).1.map.getVnodeAppData v =
        w.map.getVnodeAppData v := VNodeMap.getVnodeAppData_addVnodeIo
    rw [hdata] at hd
    exact h.data v d hd

/-- An entry that is gone needs no backing file. -/
theorem Pairing.removeVnodeIo (h : Pairing app w) (vn : Nat) (c : Answer) :
    Pairing app (World.effect w (.removeVnodeIo vn) c).1 := by
  have hget : ∀ v b, (World.effect w (.removeVnodeIo vn) c).1.map.getVnodeIo v = some b →
      w.map.getVnodeIo v = some b := by
    intro v b hv
    have hremove : (w.map.removeVnodeIo vn).1.getVnodeIo v = some b := hv
    rw [VNodeMap.getVnodeIO_removeVnodeIo] at hremove
    split at hremove
    · cases hremove
    · exact hremove
  refine ⟨fun s v b hs hv => h.paired s v b hs (hget v b hv), h.known,
    fun v b hv => h.knownIo v b (hget v b hv), fun v d hd => ?_⟩
  have hdata : (World.effect w (.removeVnodeIo vn) c).1.map.getVnodeAppData v =
      w.map.getVnodeAppData v := VNodeMap.getVnodeAppData_removeVnodeIo
  rw [hdata] at hd
  exact h.data v d hd

-- ---------------------------------------------------------------------------
-- Calls of the helpers
-- ---------------------------------------------------------------------------

theorem KernelOp.Plain.quiet {o : KernelOp Nat} (h : o.Plain) : o.Quiet := by
  cases o <;> trivial

theorem quiet_plain {α : Type} {p : Kernel Nat α} (hp : p.Calls KernelOp.Plain) :
    p.Calls KernelOp.Quiet :=
  hp.mono fun _ => KernelOp.Plain.quiet

theorem quiet_light {α : Type} {p : Kernel Nat α} (hp : p.Calls KernelOp.Light) :
    p.Calls KernelOp.Quiet :=
  quiet_plain (plain_light hp)

theorem quiet_caching {α : Type} {p : Kernel Nat α} (hp : p.Calls KernelOp.Caching) :
    p.Calls KernelOp.Quiet :=
  hp.mono fun _ h => h.plain.quiet

-- ---------------------------------------------------------------------------
-- The backing vnode
-- ---------------------------------------------------------------------------

/-- However quiet code returns, the files and the entries are those from before. -/
theorem sameFiles_of_quiet {α : Type} {p : Kernel Nat α} (hp : p.Calls KernelOp.Quiet) {a : α}
    (h : Runs World.effect allow p w a w') : SameFiles w w' :=
  hp.triple (fun _ _ c ho hsame => hsame.trans (sameFiles_quiet c ho)) w a w' (SameFiles.refl w) h

/-- A quiet call leaves the files and the entries as they are, as a program of one call. -/
theorem sameFiles_perform {o : KernelOp Nat} {r : KernelOp.Res o}
    (h : Runs World.effect allow (perform o) w r w') (ho : o.Quiet) : SameFiles w w' :=
  sameFiles_of_quiet (.perform ho) h

/-- What a call for the backing vnode may return. -/
def IsBacking (app : ControlledApp) (vn : Nat) (r : Option Nat) (w : World) : Prop :=
  ∀ b, r = some b → ∀ s, w.ns.find s = some vn → w.ns.find (backingPath app.redirectTo s) = some b

theorem IsBacking.congr {vn : Nat} {r : Option Nat} (h : IsBacking app vn r w)
    (hsame : SameFiles w w') : IsBacking app vn r w' := by
  intro b hb s hs
  rw [hsame.ns] at hs ⊢
  exact h b hb s hs

theorem isBacking_none {vn : Nat} : IsBacking app vn none w := fun _ hb => by cases hb

/-- A lookup that succeeds gives what is at the path. -/
theorem lookupPath_eq {p : CanonicalPath} {error : Int} {vp : Nat}
    (h : w.lookupPath p error = (0, some vp)) : w.ns.find p = some vp := by
  rw [World.lookupPath] at h
  split at h
  · cases h
  · split at h
    · next hfind => rw [hfind, (Prod.mk.inj h).2]
    · cases h

/-- A lookup in a recursion finds what is there. -/
theorem runs_lookup {cookie : Cookie} {path : List UInt8} {context : Context}
    {r : Int × Option Nat}
    (h : Runs World.effect allow (inRecursiveCall cookie (Kernel.vnodeLookup path context)) w r
      w') :
    SameFiles w w' ∧ ∀ vp, r = (0, some vp) → w.ns.find (resolve root path) = some vp := by
  obtain ⟨⟨⟩, w₁, henter, h₁⟩ := runs_bind.mp h
  obtain ⟨found, w₂, hlookup, h₂⟩ := runs_bind.mp h₁
  obtain ⟨⟨⟩, w₃, hleave, h₃⟩ := runs_bind.mp h₂
  obtain ⟨rfl, rfl⟩ := runs_pure.mp h₃
  have hsame := sameFiles_perform henter trivial
  refine ⟨hsame.trans ((sameFiles_perform hlookup trivial).trans
    (sameFiles_perform hleave trivial)), ?_⟩
  rintro vp rfl
  obtain ⟨c, -, hfound, -⟩ := runs_perform.mp hlookup
  rw [← hsame.ns]
  exact lookupPath_eq hfound.symm

/-- For the path where the vnode is, what is found at the redirected one is its backing vnode, and
is entered as such. -/
theorem keeps_lookupBackingVnode {vn : Nat} {s : CanonicalPath} {appData : ApplicationData}
    (hdata : appData.redirectTo = app.redirectTo.string) :
    Triple World.effect allow (fun w => Pairing app w ∧ w.ns.find s = some vn)
      (lookupBackingVnode vn s.string appData) fun r w => Pairing app w ∧ IsBacking app vn r w := by
  rintro w r w' ⟨h, hs⟩ hrun
  obtain ⟨⟨error, converted⟩, w₁, hconvert, hrun₁⟩ := runs_bind.mp hrun
  have hsame := sameFiles_of_quiet (quiet_light (light_convertToRedirectedPath _ _)) hconvert
  have hconverted := (returns_convertToRedirectedPath _ _).of_runs hconvert
  cases converted with
  | none =>
    obtain ⟨rfl, rfl⟩ := runs_pure.mp hrun₁
    exact ⟨h.congr hsame, isBacking_none⟩
  -- the lookup runs at the backing path of where the vnode lies
  | some path =>
    obtain hnone | ⟨b, hsome, hstring, -⟩ := hconverted
    · cases hnone
    cases hsome
    obtain ⟨⟨error, found⟩, w₂, hlookup, hrun₂⟩ := runs_bind.mp hrun₁
    obtain ⟨hsame₂, hfound⟩ := runs_lookup hlookup
    have h₂ := h.congr (hsame.trans hsame₂)
    dsimp only at hrun₂
    split at hrun₂
    · next backing =>
      rw [← (hsame.trans hsame₂).ns] at hs
      have hb : w₂.ns.find (backingPath app.redirectTo s) = some backing := by
        rw [backingPath, ← hdata, ← hstring, hsame₂.ns]
        exact hfound backing rfl
      obtain ⟨⟨⟩, w₃, hadd, hrun₃⟩ := runs_bind.mp hrun₂
      obtain ⟨c', -, -, rfl⟩ := runs_perform.mp hadd
      have h₃ := h₂.addVnodeIo hs hb c'
      obtain ⟨⟨⟩, w₄, hrefill, hrun₄⟩ := runs_bind.mp hrun₃
      obtain ⟨⟨⟩, w₅, hfree, hrun₅⟩ := runs_bind.mp hrun₄
      obtain ⟨rfl, rfl⟩ := runs_pure.mp hrun₅
      -- refilling the cache and freeing the path touch no file
      have hsame₅ := (sameFiles_of_quiet (calls_inRecursiveCall trivial trivial
        (quiet_caching (calls_refillCache _ _))) hrefill).trans
          (sameFiles_of_quiet (quiet_light (light_freePath _)) hfree)
      refine ⟨h₃.congr hsame₅, IsBacking.congr (fun b hb' s' hs' => ?_) hsame₅⟩
      cases hb'
      rw [show s' = s from Namespace.find_injective hs' hs]
      exact hb
    · obtain ⟨⟨⟩, w₃, hfree, hrun₃⟩ := runs_bind.mp hrun₂
      obtain ⟨rfl, rfl⟩ := runs_pure.mp hrun₃
      exact ⟨h₂.congr (sameFiles_of_quiet (quiet_light (light_freePath _)) hfree), isBacking_none⟩

/-- `vn_getpath` gives a path at which the vnode is. -/
theorem getpath_eq {vn : Nat} {c : Answer} {path : List UInt8}
    (h : (World.effect w (.vnGetpath vn) c).2 = (0, path)) :
    ∃ s : CanonicalPath, w.ns.find s = some vn ∧ path = s.string := by
  rw [World.effect] at h
  dsimp only at h
  split at h
  · next hc => exact absurd (Prod.mk.inj h).1 hc
  · split at h
    · next s hs => exact ⟨s, Namespace.pathOf_eq_some_iff.mp hs, (Prod.mk.inj h).2.symm⟩
    · exact absurd (Prod.mk.inj h).1 (by decide)

/-- The backing vnode that is found by the path of the vnode is at the redirected path. -/
theorem keeps_findBackingVnode {vn : Nat} {appData : ApplicationData}
    (hdata : appData.redirectTo = app.redirectTo.string) :
    Triple World.effect allow (Pairing app) (findBackingVnode vn appData)
      fun r w => Pairing app w ∧ IsBacking app vn r w := by
  intro w r w' h hrun
  obtain ⟨vnodePath, w₁, hmalloc, hrun₁⟩ := runs_bind.mp hrun
  have hsame := sameFiles_perform hmalloc trivial
  cases vnodePath with
  | none =>
    obtain ⟨rfl, rfl⟩ := runs_pure.mp hrun₁
    exact ⟨h.congr hsame, isBacking_none⟩
  | some vnodePath =>
    obtain ⟨⟨error, path⟩, w₂, hgetpath, hrun₂⟩ := runs_bind.mp hrun₁
    obtain ⟨c, -, hpath, rfl⟩ := runs_perform.mp hgetpath
    have h₁ := h.congr hsame
    -- a vnode without a path has no backing file
    obtain ⟨r', w₃, hrun₃, hrest⟩ : ∃ r' w₃, (Pairing app w₃ ∧ IsBacking app vn r' w₃) ∧
        Runs World.effect allow (Kernel.ioFree vnodePath MAXPATHLEN >>= fun _ => Pure.pure r')
          w₃ r w' := by
      dsimp only at hrun₂
      split at hrun₂
      · obtain ⟨s, hs, rfl⟩ := getpath_eq hpath.symm
        obtain ⟨r', w₃, hbacking, hrest⟩ := runs_bind.mp hrun₂
        exact ⟨r', w₃, keeps_lookupBackingVnode hdata _ _ _ ⟨h₁, hs⟩ hbacking, hrest⟩
      · obtain ⟨r', w₃, hnone, hrest⟩ := runs_bind.mp hrun₂
        obtain ⟨rfl, rfl⟩ := runs_pure.mp hnone
        exact ⟨none, _, ⟨h₁, isBacking_none⟩, hrest⟩
    obtain ⟨⟨⟩, w₄, hfree, hpure⟩ := runs_bind.mp hrest
    obtain ⟨rfl, rfl⟩ := runs_pure.mp hpure
    have hsame₄ := sameFiles_perform hfree trivial
    exact ⟨hrun₃.1.congr hsame₄, hrun₃.2.congr hsame₄⟩

/-- An entry that is found, or made, is that of the file at the redirected path. -/
theorem keeps_getBackingVnode {vn : Nat} {appData : ApplicationData} {forceUpdate : Bool}
    (hdata : appData.redirectTo = app.redirectTo.string) :
    Triple World.effect allow (Pairing app)
      (qvrGetBackingVnodeForRedirectedIo vn appData forceUpdate)
      fun r w => Pairing app w ∧ IsBacking app vn r w := by
  intro w r w' h hrun
  obtain ⟨type, w₁, htype, hrun₁⟩ := runs_bind.mp hrun
  obtain ⟨c, -, -, rfl⟩ := runs_perform.mp htype
  split at hrun₁
  · obtain ⟨rfl, rfl⟩ := runs_pure.mp hrun₁
    exact ⟨h, isBacking_none⟩
  · split at hrun₁
    · obtain ⟨⟨⟩, w₂, hremove, hrun₂⟩ := runs_bind.mp hrun₁
      obtain ⟨c', -, -, rfl⟩ := runs_perform.mp hremove
      exact keeps_findBackingVnode hdata _ _ _ (h.removeVnodeIo vn c') hrun₂
    · obtain ⟨existing, w₂, hget, hrun₂⟩ := runs_bind.mp hrun₁
      obtain ⟨c', -, rfl, rfl⟩ := runs_perform.mp hget
      split at hrun₂
      · next b hb =>
        obtain ⟨rfl, rfl⟩ := runs_pure.mp hrun₂
        refine ⟨h, fun b' hb' s hs => ?_⟩
        cases hb'
        exact h.paired s vn b hs hb
      · exact keeps_findBackingVnode hdata _ _ _ h hrun₂

-- ---------------------------------------------------------------------------
-- Lookup and create
-- ---------------------------------------------------------------------------

/-- `Pairing` goes through a program. -/
def Keeps (app : ControlledApp) (allow : KernelOp Nat → Answer → Prop) {α : Type}
    (p : Kernel Nat α) : Prop :=
  Triple World.effect allow (Pairing app) p fun _ => Pairing app

/-- Programs that keep the pairing can be composed. -/
theorem Keeps.bind {α β : Type} {p : Kernel Nat α} {f : α → Kernel Nat β}
    (hp : Keeps app allow p) (hf : ∀ a, Keeps app allow (f a)) : Keeps app allow (p >>= f) :=
  Triple.bind hp hf

/-- Code of gentle calls keeps it. -/
theorem Keeps.gentle {α : Type} {p : Kernel Nat α} (hp : p.Calls (KernelOp.Gentle app)) :
    Keeps app allow p :=
  hp.triple fun _ _ c ho h => pairing_gentle c ho h

theorem Keeps.quiet {α : Type} {p : Kernel Nat α} (hp : p.Calls KernelOp.Quiet) :
    Keeps app allow p :=
  .gentle (hp.mono fun _ h => h.gentle)

theorem Keeps.pure {α : Type} {a : α} : Keeps app allow (Pure.pure a) :=
  .gentle .pure

/-- Code in a region keeps the pairing if its body does. -/
theorem Keeps.inRecursiveCall {α : Type} {cookie : Cookie} {p : Kernel Nat α}
    (hp : Keeps app allow p) : Keeps app allow (inRecursiveCall cookie p) :=
  .bind (.quiet (.perform trivial)) fun _ => .bind hp fun _ =>
    .bind (.quiet (.perform trivial)) fun _ => .pure

/-- The shadow vnode is used with the backing vnode at its redirected path. -/
theorem keeps_useShadowVnode {shadowVnode : Nat} :
    Keeps app allow (useShadowVnode shadowVnode app.createNew) := by
  refine .bind (.bind ((keeps_getBackingVnode rfl).weaken fun _ _ h => h.1) fun _ =>
    .quiet (quiet_light (light_putIfAny _))) fun _ =>
      .bind (.quiet (.perform trivial)) fun backing => ?_
  split
  · exact .gentle (.bind (.perform (.inl rfl)) fun _ => .bind (.perform trivial) fun _ =>
      .bind (.perform trivial) fun _ => .pure)
  · exact .pure

/-- The daemon is called first, and makes the file that the association finds then. -/
theorem keeps_connectShadowFile {cnp : Componentname} {shadowPath : List UInt8} {shadowVnode : Nat}
    {daemon : Bool} :
    Keeps app allow (connectShadowFile app.createNew cnp shadowPath shadowVnode daemon) := by
  refine .bind (.quiet (quiet_light (light_convertToRedirectedPath ..))) fun r => ?_
  obtain ⟨error, path⟩ := r
  dsimp only
  split
  · exact .pure
  · split
    · exact .bind (.gentle (.perform trivial)) fun _ =>
        .bind (.quiet (quiet_light (light_freePath _))) fun _ => keeps_useShadowVnode
    · exact .bind (.quiet (quiet_light (light_freePath _))) fun _ => keeps_useShadowVnode

/-- A lookup that leads to a shadow file keeps the pairing, whether the file was there or not. -/
theorem keeps_lookupShadow {cnp : Componentname} {original : Nat} :
    Keeps app allow (lookupShadow app.createNew cnp original) := by
  refine .bind (.quiet (.perform trivial)) fun _ => .bind (.quiet (.perform trivial)) fun _ =>
    .bind (.quiet (quiet_light (light_convertToShadowCopyPath _))) fun r => ?_
  obtain ⟨error, shadowPath⟩ := r
  dsimp only
  split
  · exact .pure
  · refine .bind (.quiet (quiet_light (light_convertToShadowCopyPath _)))
      fun r => ?_
    obtain ⟨error, shadowName⟩ := r
    split
    · exact .pure
    · refine .bind (.inRecursiveCall (.gentle (calls_openShadowFile
        (fun _ h => h.quiet.gentle) (fun _ => trivial) _ _)))
        fun r => ?_
      obtain ⟨error, shadow, daemon⟩ := r
      split
      · refine .bind (keeps_connectShadowFile) fun result => ?_
        split <;> exact .pure
      · exact .pure

/-- With `redirectIO` the original lookup comes before it. -/
theorem keeps_lookupRedirectIo {dvp : Nat} {cnp : Componentname} :
    Keeps app allow (lookupRedirectIo app.createNew dvp cnp) := by
  refine .bind (.inRecursiveCall (.quiet (.perform trivial))) fun r => ?_
  obtain ⟨error, a_vpp⟩ := r
  dsimp only
  split
  · refine .bind (.quiet (.perform trivial)) fun appDataVnode => ?_
    split
    · exact .pure
    · refine .bind (.quiet (.perform trivial)) fun type => ?_
      split
      · exact .pure
      · refine .bind (.quiet (.perform trivial)) fun isControlledFile => ?_
        split
        · exact keeps_lookupShadow
        · exact .pure
  · exact .pure

/-- Whichever of the two results is taken, no entry is made. -/
theorem keeps_mergeLookups {l : LookupLocals Nat} {found : Int × Option Nat} :
    Keeps app allow (mergeLookups app.openExisting l found) := by
  rw [mergeLookups.eq_def]
  split
  · exact .bind (.quiet (quiet_light (light_putIfAny _))) fun _ =>
      .bind (.gentle (.perform (.inr rfl))) fun _ => .pure
  · split <;> exact .pure
  · split
    · exact .pure
    · split <;> exact .pure

/-- Path redirection makes no entry: the daemon may make a file. -/
theorem keeps_lookupRedirectPath {dvp : Nat} {cnp : Componentname} {l : LookupLocals Nat} :
    Keeps app allow (lookupRedirectPath app.openExisting dvp cnp l) := by
  refine .bind (.quiet (quiet_light (light_convertToRedirectedPath ..))) fun r => ?_
  obtain ⟨error, path⟩ := r
  dsimp only
  split
  · exact .pure
  · refine .bind (.gentle (.perform trivial)) fun _ =>
      .bind (.inRecursiveCall (.quiet (.perform trivial))) fun ⟨error, a_vpp⟩ =>
      .bind ?_ fun isRegular => ?_
    · rw [isRegularOrNone.eq_def]
      split
      · exact .bind (.quiet (.perform trivial)) fun _ => .pure
      · exact .pure
    · split
      · exact .bind (.inRecursiveCall (.quiet (.perform trivial))) fun _ => keeps_mergeLookups
      · exact .pure

/-- The two ways to redirect a lookup follow each other. -/
theorem keeps_lookupRedirected {dvp : Nat} {cnp : Componentname} :
    Keeps app allow (lookupRedirected app.createNew app.openExisting dvp cnp) := by
  refine .bind (keeps_lookupRedirectIo) fun r => ?_
  obtain ⟨done, l⟩ := r
  dsimp only
  split
  · exact .bind .pure fun _ => .quiet (quiet_light (light_lookupExit ..))
  · exact .bind (keeps_lookupRedirectPath) fun _ => .quiet (quiet_light (light_lookupExit ..))

/-- The lookup hook keeps the pairing. -/
theorem pairing_lookup {dvp : Nat} {cnp : Componentname} :
    Keeps app allow (qvrVnopLookupHookEx2 app.context dvp cnp) := by
  refine .bind (.quiet (quiet_plain plain_isRecursiveCallOrUserClient)) fun pass => ?_
  split
  · refine .bind (.quiet (.perform trivial)) fun cookie => ?_
    split
    · exact .quiet (.perform trivial)
    · exact .quiet (.perform trivial)
    · exact .bind (.quiet (.perform trivial)) fun _ => .quiet (.perform trivial)
  · split
    · exact .quiet (.perform trivial)
    · exact keeps_lookupRedirected

/-- The new shadow file is associated after the daemon has made its backing file. -/
theorem keeps_createShadowFile {cnp : Componentname} {shadowPath redirectedShadowPath : List UInt8}
    {originalVnode : Nat} :
    Keeps app allow
      (createShadowFile app.createNew cnp shadowPath redirectedShadowPath originalVnode) := by
  refine .bind (.quiet (.perform trivial)) fun _ => .bind (.quiet (.perform trivial)) fun _ =>
    .bind (.gentle (.perform trivial)) fun r => ?_
  obtain ⟨error, shadowVnode⟩ := r
  dsimp only
  split
  · refine .bind (.gentle (.perform trivial)) fun _ => .bind keeps_useShadowVnode
      fun r => ?_
    obtain ⟨error, a_vpp⟩ := r
    dsimp only
    split
    · exact .quiet (.bind (.perform trivial) fun _ => .bind (.perform trivial) fun _ =>
        .bind (.perform trivial) fun _ => .pure)
    · exact .quiet (.bind (.perform trivial) fun _ => .bind (.perform trivial) fun _ => .pure)
  · exact .bind (.quiet (.perform trivial)) fun _ => .pure

/-- The original file is created first, and has no entry. -/
theorem keeps_createOriginalAndShadow {dvp : Nat} {cnp : Componentname}
    {shadowPath redirectedShadowPath : List UInt8} :
    Keeps app allow
      (createOriginalAndShadow app.createNew dvp cnp shadowPath redirectedShadowPath) := by
  refine .bind (.gentle (.perform trivial)) fun r => ?_
  obtain ⟨error, a_vpp⟩ := r
  dsimp only
  split
  · exact keeps_createShadowFile
  · exact .pure

/-- A create for a controlled file converts the paths and makes both files. -/
theorem keeps_createRedirected {dvp : Nat} {cnp : Componentname} :
    Keeps app allow (createRedirected app.createNew dvp cnp) := by
  refine .bind (.quiet (quiet_light (light_convertToShadowCopyPath _)))
    fun r => ?_
  obtain ⟨error, shadowPath⟩ := r
  dsimp only
  split
  · exact .pure
  · refine .bind (.quiet (quiet_light (light_convertToRedirectedPath ..)))
      fun r => ?_
    obtain ⟨error, redirectedShadowPath⟩ := r
    split
    · exact .bind (.quiet (quiet_light (light_freePath _))) fun _ => .pure
    · refine .bind (.inRecursiveCall keeps_createOriginalAndShadow) fun r => ?_
      obtain ⟨error, a_vpp⟩ := r
      dsimp only
      split
      · exact .bind (.quiet (.perform trivial)) fun _ =>
          .bind (.quiet (quiet_light (light_freePath _))) fun _ =>
            .bind (.quiet (quiet_light (light_freePath _))) fun _ => .pure
      · exact .bind (.quiet (quiet_light (light_freePath _))) fun _ =>
          .bind (.quiet (quiet_light (light_freePath _))) fun _ => .pure

/-- The create hook keeps the pairing. -/
theorem pairing_create {dvp : Nat} {cnp : Componentname} :
    Keeps app allow (qvrVnopCreateHookEx2 app.context dvp cnp) := by
  refine .bind (.quiet (quiet_plain plain_isRecursiveCallOrUserClient)) fun pass => ?_
  split
  · exact .gentle (.perform trivial)
  · refine .bind (.quiet (.perform trivial)) fun isControlledFile => ?_
    split
    · exact keeps_createRedirected
    · exact .gentle (.perform trivial)

end VfsRedirector
