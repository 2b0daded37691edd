import VfsRedirector.Redirect.IoHooks

/-!
# Which calls the parts of a hook make

What holds for every call of a part holds for the part (`Calls.triple`). The calls
are sorted here: those for sizes (`Sizing`), those for sizes and cached pages
(`Caching`), those that change no file, no association and no mark and are no
operation of the file system (`Plain`), and those other than the original operations
(`NoVnop`).

## Results

* `calls_refillCache` — a refill of the cache moves pages and sizes only.
* `calls_inRecursiveCall` — a region adds the two calls around its body.
* `light_renameConversions`, `light_renameExit` — what a rename does before and after
  its renames.
* `noVnop_lookupShadow` — the lookup of the shadow file is not through the original
  operation.
-/

namespace VfsRedirector

open Library Prog Kernel

variable {Vnode : Type}

-- ---------------------------------------------------------------------------
-- Sizes and cached pages
-- ---------------------------------------------------------------------------

def KernelOp.Caching : KernelOp Vnode → Prop
  | .qvrVnodeGetSize .. | .qvrVnodeSetsize .. | .vnRdwr .. | .ubcMsync .. | .ubcPagesResident _ |
    .ubcCreateUpl .. | .ubcUplMap _ | .ubcUplUnmap _ | .ubcUplAbortRange .. => True
  | _ => False

def KernelOp.Sizing : KernelOp Vnode → Prop
  | .qvrVnodeGetSize .. | .qvrVnodeSetsize .. => True
  | _ => False

/-- What reads or sets sizes is one of the calls that refill a cache. -/
theorem KernelOp.Sizing.caching {o : KernelOp Vnode} (h : o.Sizing) : o.Caching := by
  cases o <;> trivial

/-- The exit of `QvrReadInCacheFromBackingFile` unmaps or aborts its UPL, and no more. -/
theorem calls_readInCacheExit (size upl map : Nat) (error : Int) :
    (readInCacheExit size upl map error : Kernel Vnode Int).Calls KernelOp.Caching := by
  rw [readInCacheExit]
  split
  · exact .bind (.perform trivial) fun _ => .bind (.perform trivial) fun _ => .pure
  · exact .bind (.perform trivial) fun _ => .pure

/-- Reading into the cache reads from the backing file and handles a UPL. -/
theorem calls_readInCache (vnode vnodeIo : Vnode) (offset : Int) (size : Nat) :
    (qvrReadInCacheFromBackingFile vnode vnodeIo offset size).Calls KernelOp.Caching := by
  rw [qvrReadInCacheFromBackingFile]
  split
  · exact .pure
  · refine .bind (.perform trivial) fun r => ?_
    obtain ⟨error, upl⟩ := r
    dsimp only
    split
    · refine .bind (.perform trivial) fun r => ?_
      obtain ⟨error, map⟩ := r
      dsimp only
      split
      · exact calls_readInCacheExit ..
      · exact .bind (.perform trivial) fun _ => calls_readInCacheExit ..
    · exact .pure
    · exact calls_readInCacheExit ..

/-- A refill of the cache moves pages and sizes only. -/
theorem calls_refillCache (vn backingVnode : Vnode) :
    (refillCache vn backingVnode).Calls KernelOp.Caching := by
  refine .bind (.perform trivial) fun r => ?_
  obtain ⟨error, size⟩ := r
  dsimp only
  split
  · refine .bind (.perform trivial) fun _ => .bind (.perform trivial) fun resident => ?_
    split
    · exact .bind (calls_readInCache ..) fun _ => .pure
    · exact .pure
  · exact .pure

/-- Two sizes are read and one is set. -/
theorem sizing_equalizeFileSizes (originalVnode shadowVnode : Vnode) :
    (equalizeFileSizes originalVnode shadowVnode).Calls KernelOp.Sizing := by
  refine .bind (.perform trivial) fun r => ?_
  obtain ⟨error, originalFileSize⟩ := r
  dsimp only
  split
  · exact .pure
  · refine .bind (.perform trivial) fun r => ?_
    obtain ⟨error, shadowFileSize⟩ := r
    dsimp only
    split
    · exact .pure
    · split
      · exact .perform trivial
      · exact .pure

/-- The size of the backing vnode is read and the other is set to it. -/
theorem sizing_qvrAdjustVnodeSizeByBackingVnode (vnode backingVnode : Vnode) (context : Context) :
    (qvrAdjustVnodeSizeByBackingVnode vnode backingVnode context).Calls KernelOp.Sizing := by
  refine .bind (.perform trivial) fun r => ?_
  obtain ⟨error, oldSize⟩ := r
  dsimp only
  split
  · exact .pure
  · refine .bind (.perform trivial) fun r => ?_
    obtain ⟨error, newSize⟩ := r
    dsimp only
    split
    · exact .pure
    · split
      · exact .perform trivial
      · exact .pure

/-- Equal sizes are made with the calls of a refill. -/
theorem calls_equalizeFileSizes (originalVnode shadowVnode : Vnode) :
    (equalizeFileSizes originalVnode shadowVnode).Calls KernelOp.Caching :=
  (sizing_equalizeFileSizes ..).mono fun _ => KernelOp.Sizing.caching

/-- A size is adjusted with the calls of a refill. -/
theorem calls_qvrAdjustVnodeSizeByBackingVnode (vnode backingVnode : Vnode) (context : Context) :
    (qvrAdjustVnodeSizeByBackingVnode vnode backingVnode context).Calls KernelOp.Caching :=
  (sizing_qvrAdjustVnodeSizeByBackingVnode ..).mono fun _ => KernelOp.Sizing.caching

/-- The exit of pageout with a UPL unmaps and aborts. -/
theorem calls_pageoutExitUpl (upl uplAllPages : Option Nat) (map size : Nat) (error : Int) :
    (pageoutExitUpl upl uplAllPages map size error : Kernel Vnode Int).Calls KernelOp.Caching := by
  unfold pageoutExitUpl
  dsimp only
  split
  · refine .bind (.perform trivial) fun _ => ?_
    cases upl with
    | some upl => exact .bind (.perform trivial) fun _ => .pure
    | none => exact .pure
  · cases upl with
    | some upl => exact .bind (.perform trivial) fun _ => .pure
    | none => exact .pure

/-- Pages that are written to a backing vnode are mapped, written with `vn_rdwr` and released. -/
theorem calls_writePages (ap : PagingArgs Vnode) (vnodeIo : Vnode) (upl : Option Nat) :
    (writePages ap vnodeIo upl).Calls KernelOp.Caching := by
  refine .bind (.perform trivial) fun r => ?_
  obtain ⟨error, uplAllPages⟩ := r
  dsimp only
  split
  · refine .bind (.perform trivial) fun r => ?_
    obtain ⟨error, map⟩ := r
    dsimp only
    split
    · exact calls_pageoutExitUpl ..
    · exact .bind (.perform trivial) fun _ => calls_pageoutExitUpl ..
  · exact calls_pageoutExitUpl ..

-- ---------------------------------------------------------------------------
-- Plain calls
-- ---------------------------------------------------------------------------

def KernelOp.Plain : KernelOp Vnode → Prop
  | .vnodeOpen _ | .vnopLookup .. | .vnopCreate .. | .vnopClose .. | .vnopInactive _ |
    .vnopExchange _ | .vnopRename .. | .vnopGetattr .. | .vnopRead .. | .vnopWrite .. |
    .vnopPagein .. | .vnopPageout .. | .callDaemon _ | .enterRecursiveCall _ |
    .leaveRecursiveCall | .addVnodeAppData .. | .addVnodeIo .. | .removeVnodeIo _ => False
  | _ => True

/-- The calls for memory, iocounts and the audit log, and those that forget a vnode. -/
def KernelOp.Light : KernelOp Vnode → Prop
  | .ioMalloc _ | .ioFree .. | .vnodePut _ | .audit _ | .cachePurge _ | .removeShadowReverse _ =>
    True
  | _ => False

/-- Those of them that forget no vnode. -/
def KernelOp.Releasing : KernelOp Vnode → Prop
  | .ioMalloc _ | .ioFree .. | .vnodePut _ | .audit _ => True
  | _ => False

/-- What releases is light. -/
theorem KernelOp.Releasing.light {o : KernelOp Vnode} (h : o.Releasing) : o.Light := by
  cases o <;> trivial

/-- What is light is plain: of the maps it touches the reverse one at most. -/
theorem KernelOp.Light.plain {o : KernelOp Vnode} (h : o.Light) : o.Plain := by
  cases o <;> trivial

theorem plain_light {α : Type} {p : Kernel Vnode α} (hp : p.Calls KernelOp.Light) :
    p.Calls KernelOp.Plain :=
  hp.mono fun _ => KernelOp.Light.plain

/-- Cached pages and sizes are neither associations nor marks. -/
theorem KernelOp.Caching.plain {o : KernelOp Vnode} (h : o.Caching) : o.Plain := by
  cases o <;> trivial

/-- A region adds the two calls around it to those of its body. -/
theorem calls_inRecursiveCall {P : KernelOp Vnode → Prop} {α : Type} {cookie : Cookie}
    {p : Kernel Vnode α} (henter : P (.enterRecursiveCall cookie)) (hleave : P .leaveRecursiveCall)
    (hp : p.Calls P) : (inRecursiveCall cookie p).Calls P :=
  .bind (.perform henter) fun _ => .bind hp fun _ => .bind (.perform hleave) fun _ => .pure

/-- A path is converted in a buffer that is allocated, and freed if it does not fit. -/
theorem releasing_convertToShadowCopyPath (path : List UInt8) :
    (convertToShadowCopyPath path : Kernel Vnode _).Calls KernelOp.Releasing := by
  refine .bind (.perform trivial) fun addr => ?_
  split <;> exact .pure

/-- The redirected path is made in a buffer that is allocated. -/
theorem releasing_convertToRedirectedPath (file redirectedDir : List UInt8) :
    (convertToRedirectedPath file redirectedDir : Kernel Vnode _).Calls KernelOp.Releasing := by
  refine .bind (.perform trivial) fun addr => ?_
  split <;> exact .pure

/-- A path is freed if there is one. -/
theorem releasing_freePath (path : Option PathBuffer) :
    (freePath path : Kernel Vnode Unit).Calls KernelOp.Releasing := by
  cases path with
  | none => exact .pure
  | some path => exact .perform trivial

/-- A vnode is put if there is one. -/
theorem releasing_putIfAny (vp : Option Vnode) : (putIfAny vp).Calls KernelOp.Releasing := by
  cases vp with
  | none => exact .pure
  | some vp => exact .perform trivial

theorem light_releasing {α : Type} {p : Kernel Vnode α} (hp : p.Calls KernelOp.Releasing) :
    p.Calls KernelOp.Light :=
  hp.mono fun _ => KernelOp.Releasing.light

theorem light_convertToShadowCopyPath (path : List UInt8) :
    (convertToShadowCopyPath path : Kernel Vnode _).Calls KernelOp.Light :=
  light_releasing (releasing_convertToShadowCopyPath path)

theorem light_convertToRedirectedPath (file redirectedDir : List UInt8) :
    (convertToRedirectedPath file redirectedDir : Kernel Vnode _).Calls KernelOp.Light :=
  light_releasing (releasing_convertToRedirectedPath file redirectedDir)

theorem light_freePath (path : Option PathBuffer) :
    (freePath path : Kernel Vnode Unit).Calls KernelOp.Light :=
  light_releasing (releasing_freePath path)

theorem light_putIfAny (vp : Option Vnode) : (putIfAny vp).Calls KernelOp.Light :=
  light_releasing (releasing_putIfAny vp)

/-- The gate only asks. -/
theorem plain_isRecursiveCallOrUserClient :
    (isRecursiveCallOrUserClient : Kernel Vnode Bool).Calls KernelOp.Plain := by
  refine .bind (.perform trivial) fun cookie => ?_
  split
  · exact .pure
  · exact .perform trivial

/-- The exit of lookup and create puts the vnodes and frees the paths that are left. -/
theorem releasing_lookupExit (cnp : Componentname) (l : LookupLocals Vnode) :
    (lookupExit cnp l).Calls KernelOp.Releasing := by
  have hrest : Calls KernelOp.Releasing (do
      freePath l.redirectedFilePath
      freePath l.shadowPath
      freePath l.shadowName
      putIfAny l.shadowVnode
      putIfAny l.originalVnode
      Pure.pure (l.error, l.a_vpp) : Kernel Vnode (Int × Option Vnode)) :=
    .bind (releasing_freePath _) fun _ => .bind (releasing_freePath _) fun _ =>
      .bind (releasing_freePath _) fun _ => .bind (releasing_putIfAny _) fun _ =>
      .bind (releasing_putIfAny _) fun _ => .pure
  rw [lookupExit]
  dsimp only
  split
  · exact .bind (.perform trivial) fun _ => hrest
  · exact hrest

theorem light_lookupExit (cnp : Componentname) (l : LookupLocals Vnode) :
    (lookupExit cnp l).Calls KernelOp.Light :=
  light_releasing (releasing_lookupExit cnp l)

/-- Only a vnode's type is asked, to see whether it is a regular file. -/
theorem plain_isRegularOrNone (r : Int × Option Vnode) :
    (isRegularOrNone r).Calls KernelOp.Plain := by
  rw [isRegularOrNone.eq_def]
  split
  · exact .bind (.perform trivial) fun _ => .pure
  · exact .pure

/-- The two conversions, one after the other, are light. -/
theorem light_convertToShadowAndThenRedirectedPath (path redirectedDir : List UInt8) :
    (convertToShadowAndThenRedirectedPath path redirectedDir : Kernel Vnode _).Calls
      KernelOp.Light := by
  refine .bind (light_convertToShadowCopyPath _) fun r => ?_
  obtain ⟨error, shadowPath⟩ := r
  split
  · exact .pure
  · exact .bind (light_convertToRedirectedPath _ _) fun _ => .bind (light_freePath _) fun _ => .pure

/-- A list of conversions is light if each of them is. -/
theorem light_convertPaths {conversions : List (Kernel Vnode (Int × Option PathBuffer))}
    (h : ∀ conversion ∈ conversions, conversion.Calls KernelOp.Light) :
    (convertPaths conversions).Calls KernelOp.Light := by
  induction conversions with
  | nil => exact .pure
  | cons conversion conversions ih =>
    rw [List.forall_mem_cons] at h
    refine .bind h.1 fun r => ?_
    obtain ⟨error, path⟩ := r
    dsimp only
    split
    · exact .pure
    · exact .bind (ih h.2) fun _ => .pure

/-- The conversions of a rename are light. -/
theorem light_renameConversions (appData : ApplicationData) (ap : RenameArgs Vnode) :
    (convertPaths (renameConversions appData ap)).Calls KernelOp.Light := by
  apply light_convertPaths
  simp [renameConversions, light_convertToShadowAndThenRedirectedPath,
    light_convertToShadowCopyPath]

/-- The paths of a rename are freed one by one. -/
theorem light_freePaths (paths : List PathBuffer) :
    (freePaths paths : Kernel Vnode Unit).Calls KernelOp.Light := by
  induction paths with
  | nil => exact .pure
  | cons path paths ih => exact .bind (light_freePath _) fun _ => ih

/-- The exit of rename puts the vnodes it has looked up and frees its paths. -/
theorem light_renameExit (ap : RenameArgs Vnode) (error : Int) (paths : List PathBuffer)
    (l : RenameLocals Vnode) : (renameExit ap error paths l).Calls KernelOp.Light := by
  have hrest : Calls KernelOp.Light (do
      putIfAny l.a_fdvp
      putIfAny l.a_fvp
      putIfAny l.a_tdvp
      putIfAny l.a_tvp
      freePaths (paths.drop 4)
      freePaths (paths.take 4)
      putIfAny l.originalFvp
      putIfAny l.originalTvp
      putIfAny l.newFvp
      putIfAny l.newTvp
      Pure.pure (error, { ap with a_fvp := l.oldFvp.or ap.a_fvp, a_tvp := l.oldTvp.or ap.a_tvp }) :
        Kernel Vnode (Int × RenameArgs Vnode)) :=
    .bind (light_putIfAny _) fun _ => .bind (light_putIfAny _) fun _ =>
      .bind (light_putIfAny _) fun _ => .bind (light_putIfAny _) fun _ =>
      .bind (light_freePaths _) fun _ => .bind (light_freePaths _) fun _ =>
      .bind (light_putIfAny _) fun _ => .bind (light_putIfAny _) fun _ =>
      .bind (light_putIfAny _) fun _ => .bind (light_putIfAny _) fun _ => .pure
  refine .bind (.perform trivial) fun _ => ?_
  split
  · exact .bind (.perform trivial) fun _ => hrest
  · exact hrest

/-- After the last rename names are purged and the reverse entry of the source is removed. -/
theorem light_renameDone (fvp : Vnode) (originalFvp : Option Vnode) :
    (renameDone fvp originalFvp).Calls KernelOp.Light := by
  refine .bind (.perform trivial) fun _ => .bind (.perform trivial) fun _ => ?_
  refine .bind ?_ fun _ => .pure
  cases originalFvp with
  | none => exact .pure
  | some originalFvp => exact .perform trivial

/-- Every path that was converted is as its conversion leaves it. -/
theorem returns_convertPaths {γ : Type} {R : PathBuffer → γ → Prop}
    {l : List (Kernel Vnode (Int × Option PathBuffer) × γ)}
    (h : ∀ x ∈ l, x.1.Returns fun r => r.2 = none ∨ ∃ b, r = (0, some b) ∧ R b x.2) :
    (convertPaths (l.map Prod.fst)).Returns fun r =>
      List.Forall₂ R r.2 ((l.map Prod.snd).take r.2.length) := by
  induction l with
  | nil => exact .nil
  | cons x l ih =>
    rw [List.forall_mem_cons] at h
    refine .bind h.1 fun r hr => ?_
    obtain ⟨error, path⟩ := r
    obtain rfl | ⟨b, hr, hb⟩ := hr
    · exact .nil
    · cases hr
      exact .bind (ih h.2) fun _ hrest => .cons hb hrest

section Shadow

variable [DecidableEq Vnode]

/-- The new shadow file gets the size of the original, or its attributes, and no association. -/
theorem plain_initShadowFile (originalVnode shadow : Vnode) :
    (initShadowFile originalVnode shadow).Calls KernelOp.Plain := by
  refine .bind (.perform trivial) fun _ => .bind (.perform trivial) fun _ => ?_
  split
  · exact .pure
  · exact (calls_equalizeFileSizes ..).mono fun _ => KernelOp.Caching.plain

/-- A reverse entry may be added, which counts as plain. -/
theorem plain_connectReverse (error : Int) (shadow originalVnode : Vnode) :
    (connectReverse error shadow originalVnode).Calls KernelOp.Plain := by
  rw [connectReverse]
  split
  · exact .perform trivial
  · exact .pure

/-- All calls but those that `P` does not allow are plain. -/
theorem calls_openShadowFile {P : KernelOp Vnode → Prop} (hplain : ∀ o, o.Plain → P o)
    (hopen : ∀ path, P (.vnodeOpen path)) (shadowPath : List UInt8) (originalVnode : Vnode) :
    (openShadowFile shadowPath originalVnode).Calls P := by
  refine .bind (.perform (hplain _ trivial)) fun r => ?_
  obtain ⟨error, found⟩ := r
  dsimp only
  split
  · exact .bind ((plain_connectReverse ..).mono hplain) fun _ => .pure
  · refine .bind (.perform (hopen _)) fun r => ?_
    obtain ⟨error, opened⟩ := r
    dsimp only
    split
    · exact .bind ((plain_initShadowFile ..).mono hplain) fun _ =>
        .bind ((plain_connectReverse ..).mono hplain) fun _ => .pure
    · exact .pure

end Shadow

-- ---------------------------------------------------------------------------
-- All but the original operations
-- ---------------------------------------------------------------------------

def KernelOp.NoVnop : KernelOp Vnode → Prop
  | .vnopLookup .. | .vnopCreate .. | .vnopClose .. | .vnopInactive _ | .vnopExchange _ |
    .vnopRename .. | .vnopGetattr .. | .vnopRead .. | .vnopWrite .. | .vnopPagein .. |
    .vnopPageout .. => False
  | _ => True

/-- A plain call is no original operation. -/
theorem KernelOp.Plain.noVnop {o : KernelOp Vnode} (h : o.Plain) : o.NoVnop := by
  cases o <;> trivial

theorem noVnop_plain {α : Type} {p : Kernel Vnode α} (hp : p.Calls KernelOp.Plain) :
    p.Calls KernelOp.NoVnop :=
  hp.mono fun _ => KernelOp.Plain.noVnop

theorem noVnop_light {α : Type} {p : Kernel Vnode α} (hp : p.Calls KernelOp.Light) :
    p.Calls KernelOp.NoVnop :=
  noVnop_plain (plain_light hp)

/-- What is called to get a backing vnode and to give the shadow vnode to the application. -/
def KernelOp.Connecting : KernelOp Vnode → Prop
  | .ioMalloc _ | .ioFree .. | .vnodeLookup .. | .vnodeGet _ | .vnodePut _ | .vnodeVtype _ |
    .vnGetpath _ | .callDaemon _ | .enterRecursiveCall _ | .leaveRecursiveCall |
    .addVnodeAppData .. | .getVnodeIoRef _ | .addVnodeIo .. | .removeVnodeIo _ | .audit _ => True
  | o => o.Caching

/-- What connects a vnode to its backing vnode is no original operation. -/
theorem KernelOp.Connecting.noVnop {o : KernelOp Vnode} (h : o.Connecting) : o.NoVnop := by
  cases o <;> trivial

/-- Code that only releases may do so while it connects. -/
theorem connecting_releasing {α : Type} {p : Kernel Vnode α} (hp : p.Calls KernelOp.Releasing) :
    p.Calls KernelOp.Connecting :=
  hp.mono fun o _ => by cases o <;> trivial

/-- The backing vnode is looked up by the path of the vnode, in a region. -/
theorem connecting_findBackingVnode (vn : Vnode) (appData : ApplicationData) :
    (findBackingVnode vn appData).Calls KernelOp.Connecting := by
  have hlookup : ∀ path, (lookupBackingVnode vn path appData).Calls KernelOp.Connecting := by
    intro path
    refine .bind (connecting_releasing (releasing_convertToRedirectedPath ..)) fun r => ?_
    obtain ⟨error, path⟩ := r
    dsimp only
    split
    · exact .pure
    · refine .bind (calls_inRecursiveCall trivial trivial (.perform trivial))
        fun r => ?_
      obtain ⟨error, backingVnode⟩ := r
      dsimp only
      split
      · refine .bind (.perform trivial) fun _ => ?_
        refine .bind (calls_inRecursiveCall trivial trivial
          ((calls_refillCache ..).mono fun o _ => by cases o <;> trivial)) fun _ => ?_
        exact .bind (connecting_releasing (releasing_freePath _)) fun _ => .pure
      · exact .bind (connecting_releasing (releasing_freePath _)) fun _ => .pure
  refine .bind (.perform trivial) fun vnodePath => ?_
  split
  · exact .pure
  · refine .bind (.perform trivial) fun r => ?_
    obtain ⟨error, path⟩ := r
    dsimp only
    split
    · exact .bind (hlookup path) fun _ => .bind (.perform trivial) fun _ => .pure
    · exact .bind .pure fun _ => .bind (.perform trivial) fun _ => .pure

/-- A backing vnode is taken from the map or found, and the cache of the vnode is refilled. -/
theorem connecting_qvrGetBackingVnodeForRedirectedIo (vn : Vnode) (appData : ApplicationData)
    (forceUpdate : Bool) :
    (qvrGetBackingVnodeForRedirectedIo vn appData forceUpdate).Calls KernelOp.Connecting := by
  refine .bind (.perform trivial) fun type => ?_
  split
  · exact .pure
  · split
    · exact .bind (.perform trivial) fun _ => connecting_findBackingVnode ..
    · refine .bind (.perform trivial) fun existing => ?_
      split
      · exact .pure
      · exact connecting_findBackingVnode ..

/-- The shadow vnode is associated with a backing vnode, and used if it has one. -/
theorem connecting_useShadowVnode (shadowVnode : Vnode) (appData : ApplicationData) :
    (useShadowVnode shadowVnode appData).Calls KernelOp.Connecting := by
  refine .bind (.bind (connecting_qvrGetBackingVnodeForRedirectedIo ..)
    fun _ => connecting_releasing (releasing_putIfAny _)) fun _ => ?_
  refine .bind (.perform trivial) fun backingVnode => ?_
  split
  · exact .bind (.perform trivial) fun _ => .bind (.perform trivial) fun _ =>
      .bind (.perform trivial) fun _ => .pure
  · exact .pure

/-- The daemon is told of the new file before the shadow vnode is used. -/
theorem connecting_connectShadowFile (appData : ApplicationData) (cnp : Componentname)
    (shadowPath : List UInt8) (shadowVnode : Vnode) (daemon : Bool) :
    (connectShadowFile appData cnp shadowPath shadowVnode daemon).Calls KernelOp.Connecting := by
  refine .bind (connecting_releasing (releasing_convertToRedirectedPath ..)) fun r => ?_
  obtain ⟨error, path⟩ := r
  dsimp only
  split
  · exact .pure
  · split
    · exact .bind (.perform trivial) fun _ =>
        .bind (connecting_releasing (releasing_freePath _)) fun _ => connecting_useShadowVnode ..
    · exact .bind (connecting_releasing (releasing_freePath _)) fun _ =>
        connecting_useShadowVnode ..

/-- Lookup of the shadow file goes through `vnode_lookup`, not through the original operation. -/
theorem noVnop_lookupShadow [DecidableEq Vnode] (appData : ApplicationData)
    (cnp : Componentname) (original : Vnode) :
    (lookupShadow appData cnp original).Calls KernelOp.NoVnop := by
  refine .bind (.perform trivial) fun _ => .bind (.perform trivial) fun _ => ?_
  refine .bind (noVnop_light (light_convertToShadowCopyPath _)) fun r => ?_
  obtain ⟨error, shadowPath⟩ := r
  dsimp only
  split
  · exact .pure
  · refine .bind (noVnop_light (light_convertToShadowCopyPath _)) fun r => ?_
    obtain ⟨error, shadowName⟩ := r
    split
    · exact .pure
    · refine .bind (calls_inRecursiveCall trivial trivial (calls_openShadowFile
        (fun _ => KernelOp.Plain.noVnop) (fun _ => trivial) _ _)) fun r => ?_
      obtain ⟨error, shadow, daemon⟩ := r
      split
      · refine .bind ((connecting_connectShadowFile ..).mono fun _ => KernelOp.Connecting.noVnop)
          fun result => ?_
        split <;> exact .pure
      · exact .pure

end VfsRedirector
