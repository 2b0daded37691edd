import VfsRedirector.Redirect.Runs

/-!
# The files that a program leaves alone

`Confined R w₀ w` says that outside of the paths `R` the world `w` has the files of
`w₀`, with their contents. A call keeps it if the path that it is for is in `R`; for
most calls that path is the result of a conversion. A call that is given a vnode is for
where the vnode is then, which in a lookup or a create is where it was found, as nothing
is renamed there (`ConfinedWith`).

## Results

* `Confined.create`, `Confined.setSize`, `Confined.rename` — what the calls of the
  hooks do outside of a set of paths.
* `confines_lookup`, `confines_create` — the paths that a lookup and a create reach.
-/

namespace VfsRedirector

open Library CanonicalPath Prog

variable {app : ControlledApp} {w w' w₀ : World} {allow : KernelOp Nat → Answer → Prop}
  {R : CanonicalPath → Prop} {f t p q : CanonicalPath} {ns : Namespace Nat}

/-- The data that vnodes have is that of the application, and the numbers of the files
are used. -/
structure Tidy (app : ControlledApp) (w : World) : Prop where
  known : ∀ p v, w.ns.find p = some v → v < w.next
  data : ∀ v d, w.map.getVnodeAppData v = some d → d = app.createNew ∨ d = app.openExisting

/-- What is not in `R` is as in `w₀`. -/
structure Confined (app : ControlledApp) (R : CanonicalPath → Prop) (w₀ w : World) : Prop where
  names : ∀ p, ¬R p → w.ns.find p = w₀.ns.find p
  contents : ∀ p v, ¬R p → w₀.ns.find p = some v → w.contents v = w₀.contents v
  tidy : Tidy app w

/-- A world has the files of itself. -/
theorem Tidy.confined (h : Tidy app w) : Confined app R w w :=
  ⟨fun _ _ => rfl, fun _ _ _ _ => rfl, h⟩

-- ---------------------------------------------------------------------------
-- Calls that leave all files as they are
-- ---------------------------------------------------------------------------

/-- The same files with the same contents. -/
structure SameContents (app : ControlledApp) (w w' : World) : Prop where
  ns : w'.ns = w.ns
  next : w'.next = w.next
  contents : w'.contents = w.contents
  data : ∀ v d, w'.map.getVnodeAppData v = some d →
    w.map.getVnodeAppData v = some d ∨ d = app.createNew ∨ d = app.openExisting

theorem Tidy.congr (h : Tidy app w) (hsame : SameContents app w w') : Tidy app w' := by
  refine ⟨fun p v hv => ?_, fun v d hd => ?_⟩
  · rw [hsame.ns] at hv
    rw [hsame.next]
    exact h.known p v hv
  · obtain hd | hd := hsame.data v d hd
    · exact h.data v d hd
    · exact hd

theorem Confined.congr (h : Confined app R w₀ w) (hsame : SameContents app w w') :
    Confined app R w₀ w' := by
  refine ⟨fun p hp => ?_, fun p v hp hv => ?_, h.tidy.congr hsame⟩
  · rw [hsame.ns]
    exact h.names p hp
  · rw [hsame.contents]
    exact h.contents p v hp hv

/-- The calls that neither make, move nor cut a file. -/
def KernelOp.Calm (app : ControlledApp) : KernelOp Nat → Prop
  | .vnodeOpen _ | .vnopCreate .. | .vnopRename .. | .callDaemon _ | .qvrVnodeSetsize .. => False
  | .addVnodeAppData _ data => data = app.createNew ∨ data = app.openExisting
  | _ => True

/-- A calm call leaves the files and their contents as they are. -/
theorem sameContents_calm {o : KernelOp Nat} (c : Answer) (h : o.Calm app) :
    SameContents app w (World.effect w o c).1 := by
  -- an operation that touches no file changes at most a map or a mark
  have hquiet : o.Quiet → (World.effect w o c).1.contents = w.contents →
      SameContents app w (World.effect w o c).1 := by
    intro hquiet hcontents
    have hsame := sameFiles_quiet (w := w) c hquiet
    exact ⟨hsame.ns, hsame.next, hcontents, fun v d hd => .inl (by rw [← hsame.appData, hd])⟩
  cases o with
  | enterRecursiveCall cookie =>
    refine hquiet trivial ?_
    rw [World.effect]
    split <;> rfl
  -- the data it puts on is the application's own
  | addVnodeAppData vn data =>
    refine ⟨rfl, rfl, rfl, fun v d hd => ?_⟩
    obtain rfl | hd := VNodeMap.of_getVnodeAppData_addVnodeAppData hd
    · exact .inr h
    · exact .inl hd
  | addVnodeIo vn backing =>
    refine ⟨rfl, rfl, rfl, fun v d hd => .inl ?_⟩
    have hdata : (World.effect w (.addVnodeIo vn backing) c).1.map.getVnodeAppData v =
        w.map.getVnodeAppData v := VNodeMap.getVnodeAppData_addVnodeIo
    rw [← hdata, hd]
  | removeVnodeIo vn =>
    refine ⟨rfl, rfl, rfl, fun v d hd => .inl ?_⟩
    have hdata : (World.effect w (.removeVnodeIo vn) c).1.map.getVnodeAppData v =
        w.map.getVnodeAppData v := VNodeMap.getVnodeAppData_removeVnodeIo
    rw [← hdata, hd]
  | vnodeOpen | vnopCreate | vnopRename | callDaemon | qvrVnodeSetsize => exact h.elim
  | _ => exact hquiet trivial rfl

theorem KernelOp.Light.calm {o : KernelOp Nat} (h : o.Light) : o.Calm app := by
  cases o with
  | vnodeOpen | vnopCreate | vnopRename | callDaemon | qvrVnodeSetsize | addVnodeAppData =>
    exact h.elim
  | _ => trivial

theorem calm_light {α : Type} {p : Kernel Nat α} (hp : p.Calls KernelOp.Light) :
    p.Calls (KernelOp.Calm app) :=
  hp.mono fun _ => KernelOp.Light.calm

theorem calm_enterRecursiveCall (cookie : Cookie) :
    (Kernel.enterRecursiveCall cookie : Kernel Nat Unit).Calls (KernelOp.Calm app) :=
  .perform trivial

theorem calm_leaveRecursiveCall :
    (Kernel.leaveRecursiveCall : Kernel Nat Unit).Calls (KernelOp.Calm app) :=
  .perform trivial

/-- A lookup in a region is calm. -/
theorem calm_lookupInRecursion (cookie : Cookie) (path : List UInt8) (context : Context) :
    (inRecursiveCall cookie (Kernel.vnodeLookup path context) : Kernel Nat _).Calls
      (KernelOp.Calm app) :=
  calls_inRecursiveCall trivial trivial (.perform trivial)

/-- The gate is calm. -/
theorem calm_isRecursiveCallOrUserClient :
    (isRecursiveCallOrUserClient : Kernel Nat Bool).Calls (KernelOp.Calm app) := by
  refine .bind (.perform trivial) fun cookie => ?_
  split
  · exact .pure
  · exact .perform trivial

/-- The exit of a read into the cache is calm. -/
theorem calm_readInCacheExit (size upl map : Nat) (error : Int) :
    (readInCacheExit size upl map error : Kernel Nat Int).Calls (KernelOp.Calm app) := by
  rw [readInCacheExit]
  split
  · exact .bind (.perform trivial) fun _ => .bind (.perform trivial) fun _ => .pure
  · exact .bind (.perform trivial) fun _ => .pure

/-- The pages are read; the file keeps its size. -/
theorem calm_readInCache (vnode vnodeIo : Nat) (offset : Int) (size : Nat) :
    (qvrReadInCacheFromBackingFile vnode vnodeIo offset size).Calls (KernelOp.Calm app) := by
  rw [qvrReadInCacheFromBackingFile]
  split
  · exact .pure
  · refine .bind (.perform trivial) fun r => ?_
    obtain ⟨error, upl⟩ := r
    dsimp only
    split
    · refine .bind (.perform trivial) fun r => ?_
      obtain ⟨error, map⟩ := r
      dsimp only
      split
      · exact calm_readInCacheExit ..
      · exact .bind (.perform trivial) fun _ => calm_readInCacheExit ..
    · exact .pure
    · exact calm_readInCacheExit ..

/-- The refill changes the size that the vnode's cache has, not that of the backing file. -/
theorem calm_refillCache (vn backingVnode : Nat) :
    (refillCache vn backingVnode).Calls (KernelOp.Calm app) := by
  refine .bind (.perform trivial) fun r => ?_
  obtain ⟨error, size⟩ := r
  dsimp only
  split
  · refine .bind (.perform trivial) fun _ => .bind (.perform trivial) fun resident => ?_
    split
    · exact .bind (calm_readInCache ..) fun _ => .pure
    · exact .pure
  · exact .pure

/-- The backing vnode is looked up and entered, without a change to a file. -/
theorem calm_findBackingVnode (vn : Nat) (appData : ApplicationData) :
    (findBackingVnode vn appData).Calls (KernelOp.Calm app) := by
  -- the lookup adds an entry and fills the cache; it makes and empties no file
  have hlookup : ∀ path, (lookupBackingVnode vn path appData).Calls (KernelOp.Calm app) := by
    intro path
    refine .bind (calm_light (light_convertToRedirectedPath ..)) fun r => ?_
    obtain ⟨error, path⟩ := r
    dsimp only
    split
    · exact .pure
    · refine .bind (calm_lookupInRecursion ..) fun r => ?_
      obtain ⟨error, backingVnode⟩ := r
      dsimp only
      split
      · exact .bind (.perform trivial) fun _ =>
          .bind (calls_inRecursiveCall trivial trivial (calm_refillCache ..)) fun _ =>
          .bind (calm_light (light_freePath _)) fun _ => .pure
      · exact .bind (calm_light (light_freePath _)) fun _ => .pure
  refine .bind (.perform trivial) fun vnodePath => ?_
  split
  · exact .pure
  · refine .bind (.perform trivial) fun r => ?_
    obtain ⟨error, path⟩ := r
    dsimp only
    split
    · exact .bind (hlookup path) fun _ => .bind (.perform trivial) fun _ => .pure
    · exact .bind .pure fun _ => .bind (.perform trivial) fun _ => .pure

/-- The shadow vnode is given the application's data and no other. -/
theorem calm_useShadowVnode (shadowVnode : Nat) :
    (useShadowVnode shadowVnode app.createNew).Calls (KernelOp.Calm app) := by
  have hbacking : (qvrGetBackingVnodeForRedirectedIo shadowVnode app.createNew false).Calls
      (KernelOp.Calm app) := by
    refine .bind (.perform trivial) fun type => ?_
    split
    · exact .pure
    · refine .bind (.perform trivial) fun existing => ?_
      split
      · exact .pure
      · exact calm_findBackingVnode ..
  refine .bind (.bind hbacking fun _ => calm_light (light_putIfAny _)) fun _ =>
    .bind (.perform trivial) fun backing => ?_
  split
  · exact .bind (.perform (.inl rfl)) fun _ => .bind (.perform trivial) fun _ =>
      .bind (.perform trivial) fun _ => .pure
  · exact .pure

-- ---------------------------------------------------------------------------
-- Calls for a path that may be changed
-- ---------------------------------------------------------------------------

/-- A new file in `R`. -/
theorem Confined.create (h : Confined app R w₀ w) (hp : w.ns.find p = none) (hR : R p) :
    Confined app R w₀ (w.create p) := by
  have hnew : ∀ q, w.ns.find q ≠ some w.next := fun q hq =>
    absurd (h.tidy.known q _ hq) (Nat.lt_irrefl _)
  have hfind : ∀ q v, (w.create p).ns.find q = some v ↔
      (q = p ∧ v = w.next) ∨ w.ns.find q = some v :=
    fun _ _ => Namespace.find_add (Namespace.free_iff.mpr ⟨hp, hnew⟩)
  refine ⟨fun q hq => ?_, fun q v hq hv => ?_, ⟨fun q v hq => ?_, h.tidy.data⟩⟩
  · rw [← h.names q hq]
    refine Option.ext fun v => ?_
    rw [hfind]
    exact ⟨fun hor => hor.resolve_left fun heq => hq (heq.1 ▸ hR), .inr⟩
  · have hne : v ≠ w.next := by
      rintro rfl
      exact hnew q ((h.names q hq).trans hv)
    exact (Function.update_of_ne hne _ _).trans (h.contents q v hq hv)
  · obtain ⟨-, rfl⟩ | hq := (hfind q v).mp hq
    · exact Nat.lt_succ_self _
    · exact Nat.lt_succ_of_lt (h.tidy.known q v hq)

/-- A file that is in `R`, if it has a path, is cut. -/
theorem Confined.setSize (h : Confined app R w₀ w) {vp : Nat}
    (hR : ∀ p, w.ns.find p = some vp → R p) (size : Nat) (error : Int) :
    Confined app R w₀ (w.setSize vp size error) := by
  rw [World.setSize]
  split
  · refine ⟨h.names, fun q v hq hv => ?_, ⟨h.tidy.known, h.tidy.data⟩⟩
    have hne : v ≠ vp := by
      rintro rfl
      exact hq (hR q ((h.names q hq).trans hv))
    exact (Function.update_of_ne hne _ _).trans (h.contents q v hq hv)
  · exact h

/-- A file is opened, or made, at a path in `R`. -/
theorem Confined.openPath (h : Confined app R w₀ w) (hR : R p) (error : Int) :
    Confined app R w₀ (w.openPath p error).1 := by
  rw [World.openPath]
  split
  · exact h
  · split
    · next vp hvp =>
      split
      · refine h.setSize (fun q hq => ?_) 0 0
        rw [Namespace.find_injective hq hvp]
        exact hR
      · exact h
    · next hp => exact h.create hp hR

/-- The original create makes a file at a path in `R`, if it finds the directory. -/
theorem Confined.createEntry (h : Confined app R w₀ w) {path : Option CanonicalPath}
    (hR : ∀ p, path = some p → R p) (error : Int) :
    Confined app R w₀ (w.createEntry path error).1 := by
  unfold World.createEntry
  split
  · exact h
  · split
    · exact h
    · next p =>
      split
      · next hp => exact h.create hp (hR p rfl)
      · exact h

/-- The daemon makes the file at a redirected path in `R`. -/
theorem Confined.daemon (h : Confined app R w₀ w) {path : List UInt8} (hR : R (resolve root path))
    (error : Int) : Confined app R w₀ (w.daemon path error) := by
  rw [World.daemon]
  split
  · next hp => exact h.create hp.2.2 hR
  · exact h

/-- Where a renamed file comes to be is at its new path, or is where it was. -/
theorem of_moved (h : moved f t p = some q) : q = p ∨ Under t q := by
  rw [moved] at h
  split at h
  · exact .inl (Option.some.inj h).symm
  · split at h
    · rw [← Option.some.inj h]
      exact .inr under_rebase
    · split at h
      · cases h
      · exact .inl (Option.some.inj h).symm

/-- A rename of a path in `R` to one in `R`. -/
theorem Confined.rename (h : Confined app R w₀ w) (hup : ∀ p q, R p → Under p q → R q)
    (hns : w.ns.rename f t = some ns) (hf : R f) (ht : R t) : Confined app R w₀ { w with ns } := by
  refine ⟨fun p hp => ?_, h.contents, ⟨fun p v hv => ?_, h.tidy.data⟩⟩
  · have hapart : Apart f t p := by
      refine ⟨fun hfp => hp (hup f p hf hfp), ?_⟩
      rintro rfl
      exact hp ht
    rw [← h.names p hp]
    refine Option.ext fun v => ?_
    rw [Namespace.find_rename hns]
    constructor
    · rintro ⟨p', hp', hmoved⟩
      rcases of_moved hmoved with rfl | htp
      · exact hp'
      · exact absurd (hup t p ht htp) hp
    · exact fun hv => ⟨p, hv, moved_of_apart hapart⟩
  · obtain ⟨p', hp', -⟩ := (Namespace.find_rename hns).mp hv
    exact h.tidy.known p' v hp'

-- ---------------------------------------------------------------------------
-- Lookup and create
-- ---------------------------------------------------------------------------

/-- Outside of `R` a program leaves the files as they were in `w₀`. -/
def Confines (app : ControlledApp) (R : CanonicalPath → Prop) (w₀ : World)
    (allow : KernelOp Nat → Answer → Prop) {α : Type} (p : Kernel Nat α) : Prop :=
  Triple World.effect allow (Confined app R w₀) p fun _ => Confined app R w₀

/-- What goes by the files only stays true in calm calls. -/
theorem triple_calm {α : Type} {p : Kernel Nat α} (hp : p.Calls (KernelOp.Calm app))
    {I : World → Prop} (hI : ∀ w w', SameContents app w w' → I w → I w') :
    Triple World.effect allow I p fun _ => I :=
  hp.triple fun _ _ c ho h => hI _ _ (sameContents_calm c ho) h

/-- Programs that leave the other files alone can be composed. -/
theorem Confines.bind {α β : Type} {p : Kernel Nat α} {f : α → Kernel Nat β}
    (hp : Confines app R w₀ allow p) (hf : ∀ a, Confines app R w₀ allow (f a)) :
    Confines app R w₀ allow (p >>= f) :=
  Triple.bind hp hf

theorem Confines.calm {α : Type} {p : Kernel Nat α} (hp : p.Calls (KernelOp.Calm app)) :
    Confines app R w₀ allow p :=
  triple_calm hp fun _ _ hsame h => h.congr hsame

theorem Confines.light {α : Type} {p : Kernel Nat α} (hp : p.Calls KernelOp.Light) :
    Confines app R w₀ allow p :=
  .calm (calm_light hp)

theorem Confines.pure {α : Type} {a : α} : Confines app R w₀ allow (Pure.pure a) := .calm .pure

/-- A region adds nothing to what its body changes. -/
theorem Confines.inRecursiveCall {α : Type} {cookie : Cookie} {p : Kernel Nat α}
    (hp : Confines app R w₀ allow p) : Confines app R w₀ allow (inRecursiveCall cookie p) :=
  .bind (.calm (.perform trivial)) fun _ => .bind hp fun _ =>
    .bind (.calm (.perform trivial)) fun _ => .pure

/-- After a conversion there is no path, or the path that it is for. -/
theorem triple_convert {α : Type} {conversion : Kernel Nat (Int × Option PathBuffer)}
    {f : Int × Option PathBuffer → Kernel Nat α} {string : List UInt8} {I : World → Prop}
    {post : α → World → Prop} (hI : ∀ w w', SameContents app w w' → I w → I w')
    (hlight : conversion.Calls KernelOp.Light) (hconverts : conversion.Returns (ConvertsTo string))
    (hnone : Triple World.effect allow I (f (ENOMEM, none)) post)
    (hsome : ∀ b : PathBuffer, b.string = string →
      Triple World.effect allow I (f (0, some b)) post) :
    Triple World.effect allow I (conversion >>= f) post := by
  intro w a w' h hrun
  obtain ⟨r, w₁, hconversion, hrest⟩ := runs_bind.mp hrun
  have h₁ := triple_calm (calm_light hlight) hI w r w₁ h hconversion
  obtain rfl | ⟨b, rfl, hb, -⟩ := hconverts.of_runs hconversion
  · exact hnone w₁ a w' h₁ hrest
  · exact hsome b hb w₁ a w' h₁ hrest

/-- After a conversion it is enough to look at its failure and at the one path it can give. -/
theorem Confines.convert {α : Type} {conversion : Kernel Nat (Int × Option PathBuffer)}
    {f : Int × Option PathBuffer → Kernel Nat α} {string : List UInt8}
    (hlight : conversion.Calls KernelOp.Light) (hconverts : conversion.Returns (ConvertsTo string))
    (hnone : Confines app R w₀ allow (f (ENOMEM, none)))
    (hsome : ∀ b : PathBuffer, b.string = string → Confines app R w₀ allow (f (0, some b))) :
    Confines app R w₀ allow (conversion >>= f) :=
  triple_convert (fun _ _ hsame h => h.congr hsame) hlight hconverts hnone hsome

/-- With a vnode that is where it was found. -/
def ConfinedWith (app : ControlledApp) (R : CanonicalPath → Prop) (w₀ : World)
    (d : CanonicalPath) (dvp : Nat) (w : World) : Prop :=
  Confined app R w₀ w ∧ w.ns.find d = some dvp

theorem ConfinedWith.congr {d : CanonicalPath} {dvp : Nat} (h : ConfinedWith app R w₀ d dvp w)
    (hsame : SameContents app w w') : ConfinedWith app R w₀ d dvp w' :=
  ⟨h.1.congr hsame, hsame.ns ▸ h.2⟩

/-- In calm code it stays there. -/
theorem triple_calm_with {α : Type} {q : Kernel Nat α} {d : CanonicalPath} {dvp : Nat}
    (hq : q.Calls (KernelOp.Calm app)) :
    Triple World.effect allow (ConfinedWith app R w₀ d dvp) q
      fun _ => ConfinedWith app R w₀ d dvp :=
  triple_calm hq fun _ _ hsame h => h.congr hsame

/-- The daemon is called for a redirected path in `R`. -/
theorem confines_callDaemon {request : LookupRequest}
    (hR : R (resolve root request.redirectedFilePath)) :
    Confines app R w₀ allow (Kernel.callDaemon request) :=
  Triple.perform fun _ c _ h => h.daemon hR c.error

/-- The vnode of a file that was opened is at the path. -/
theorem find_openPath (h : Confined app R w₀ w) {error : Int} {vp : Nat}
    (hopened : (w.openPath p error).2 = (0, some vp)) :
    (w.openPath p error).1.ns.find p = some vp := by
  rw [World.openPath] at hopened ⊢
  by_cases herror : error = 0
  · rw [if_neg (not_not.mpr herror)] at hopened ⊢
    cases hfind : w.ns.find p with
    | none =>
      rw [hfind] at hopened
      obtain rfl : w.next = vp := Option.some.inj (Prod.mk.inj hopened).2
      refine (Namespace.find_add (Namespace.free_iff.mpr ⟨hfind, fun q hq => ?_⟩)).mpr
        (.inl ⟨rfl, rfl⟩)
      exact absurd (h.tidy.known q _ hq) (Nat.lt_irrefl _)
    | some vp' =>
      simp only [hfind] at hopened ⊢
      split at hopened
      · next htype =>
        obtain rfl : vp' = vp := Option.some.inj (Prod.mk.inj hopened).2
        rw [if_pos htype, (sameFiles_setSize : SameFiles w (w.setSize vp' 0 0)).ns, hfind]
      · exact absurd (Prod.mk.inj hopened).2 (Option.some_ne_none vp).symm
  · rw [if_pos herror] at hopened
    exact absurd (Prod.mk.inj hopened).2 (Option.some_ne_none vp).symm

/-- The vnode that `vnode_open` gives is at the path, which is in `R`. -/
theorem confines_vnodeOpen {path : List UInt8} (hR : R (resolve root path)) :
    Triple World.effect allow (Confined app R w₀) (Kernel.vnodeOpen path) fun r w =>
      Confined app R w₀ w ∧ ∀ vp, r = (0, some vp) → w.ns.find (resolve root path) = some vp :=
  Triple.perform fun _ c _ h => ⟨h.openPath hR c.error, fun _ hvp => find_openPath h hvp⟩

/-- The new shadow file is cut to the size of the original. -/
theorem confines_initShadowFile {original shadow : Nat} (hR : R p) :
    Triple World.effect allow (ConfinedWith app R w₀ p shadow) (initShadowFile original shadow)
      fun _ => Confined app R w₀ := by
  have hpure : ∀ error : Int, Triple World.effect allow (ConfinedWith app R w₀ p shadow)
      (Pure.pure error : Kernel Nat Int) fun _ => Confined app R w₀ :=
    fun _ => Triple.pure fun _ h => h.1
  refine .bind (triple_calm_with (.perform trivial)) fun _ =>
    .bind (triple_calm_with (.perform trivial)) fun _ => ?_
  split
  · exact hpure 0
  · refine .bind (triple_calm_with (.perform trivial)) fun r => ?_
    obtain ⟨error, originalFileSize⟩ := r
    dsimp only
    split
    · exact hpure error
    · refine .bind (triple_calm_with (.perform trivial)) fun r => ?_
      obtain ⟨error, shadowFileSize⟩ := r
      dsimp only
      split
      · exact hpure error
      · split
        · refine Triple.perform fun w c _ h => h.1.setSize (fun q hq => ?_) _ _
          rw [Namespace.find_injective hq h.2]
          exact hR
        · exact hpure 0

/-- A reverse entry is no file. -/
theorem confines_connectReverse {error : Int} {shadow original : Nat} :
    Confines app R w₀ allow (connectReverse error shadow original) := by
  rw [connectReverse]
  split
  · exact .calm (.perform trivial)
  · exact .pure

/-- The shadow file is found, or is made at its path and cut. -/
theorem confines_openShadowFile {path : List UInt8} {original : Nat}
    (hR : R (resolve root path)) : Confines app R w₀ allow (openShadowFile path original) := by
  refine .bind (.calm (.perform trivial)) fun r => ?_
  obtain ⟨error, found⟩ := r
  dsimp only
  split
  · exact .bind confines_connectReverse fun _ => .pure
  · refine Triple.bind (confines_vnodeOpen hR) fun r => ?_
    obtain ⟨error, opened⟩ := r
    dsimp only
    split
    · next shadow =>
      refine .bind ((confines_initShadowFile hR).strengthen fun w h => ⟨h.1, h.2 shadow rfl⟩)
        fun error => ?_
      exact Confines.bind confines_connectReverse fun _ => .pure
    · exact Triple.pure fun _ h => h.1

variable {cnp : Componentname}

/-- To connect it the daemon makes the file at its redirected path. -/
theorem confines_connectShadowFile {shadowVnode : Nat} {daemon : Bool}
    (hR : R (backingPath app.redirectTo (shadowPath p))) :
    Confines app R w₀ allow
      (connectShadowFile app.createNew cnp (shadowPath p).string shadowVnode daemon) := by
  refine .convert (light_convertToRedirectedPath ..) (returns_convertToRedirectedPath _ _) .pure
    fun b hb => ?_
  have hdaemon : R (resolve root b.string) := by
    rw [hb]
    exact hR
  dsimp only
  split
  · exact .bind (confines_callDaemon hdaemon) fun _ => .bind (.light (light_freePath _)) fun _ =>
      .calm (calm_useShadowVnode ..)
  · exact .bind (.light (light_freePath _)) fun _ => .calm (calm_useShadowVnode ..)

/-- A lookup that leads to a shadow file reaches its path and the redirected one. -/
theorem confines_lookupShadow {original : Nat} (hpath : cnp.cn_pnbuf = p.string)
    (hshadow : R (shadowPath p)) (hbacking : R (backingPath app.redirectTo (shadowPath p))) :
    Confines app R w₀ allow (lookupShadow app.createNew cnp original) := by
  refine .bind (.calm (.perform trivial)) fun _ => .bind (.calm (.perform trivial)) fun _ =>
    .convert (light_convertToShadowCopyPath _) (returns_convertToShadowCopyPath _) .pure
      fun b hb => ?_
  rw [hpath, ← shadowPath_string] at hb
  refine .convert (light_convertToShadowCopyPath _) (returns_convertToShadowCopyPath _) .pure
    fun _ _ => ?_
  have hopen : R (resolve root b.string) := by
    rw [hb, resolve_string]
    exact hshadow
  refine .bind (.inRecursiveCall (confines_openShadowFile hopen)) fun r => ?_
  obtain ⟨error, shadow, daemon⟩ := r
  dsimp only
  split
  · rw [hb]
    refine .bind (confines_connectShadowFile hbacking) fun result => ?_
    split <;> exact .pure
  · exact .pure

/-- With `redirectIO` nothing else is reached. -/
theorem confines_lookupRedirectIo {dvp : Nat} (hpath : cnp.cn_pnbuf = p.string)
    (hshadow : R (shadowPath p)) (hbacking : R (backingPath app.redirectTo (shadowPath p))) :
    Confines app R w₀ allow (lookupRedirectIo app.createNew dvp cnp) := by
  refine .bind (.inRecursiveCall (.calm (.perform trivial))) fun r => ?_
  obtain ⟨error, a_vpp⟩ := r
  dsimp only
  split
  · refine .bind (.calm (.perform trivial)) fun appDataVnode => ?_
    split
    · exact .pure
    · refine .bind (.calm (.perform trivial)) fun type => ?_
      split
      · exact .pure
      · refine .bind (.calm (.perform trivial)) fun isControlledFile => ?_
        split
        · exact confines_lookupShadow hpath hshadow hbacking
        · exact .pure
  · exact .pure

/-- Of two results one is taken, without a change to a file. -/
theorem calm_mergeLookups (l : LookupLocals Nat) (found : Int × Option Nat) :
    (mergeLookups app.openExisting l found).Calls (KernelOp.Calm app) := by
  rw [mergeLookups.eq_def]
  split
  · exact .bind (calm_light (light_putIfAny _)) fun _ =>
      .bind (.perform (.inr rfl)) fun _ => .pure
  · split <;> exact .pure
  · split
    · exact .pure
    · split <;> exact .pure

/-- Path redirection reaches the redirected path of the name itself. -/
theorem confines_lookupRedirectPath {dvp : Nat} {l : LookupLocals Nat}
    (hpath : cnp.cn_pnbuf = p.string) (hredirected : R (backingPath app.redirectTo p)) :
    Confines app R w₀ allow (lookupRedirectPath app.openExisting dvp cnp l) := by
  refine .convert (light_convertToRedirectedPath ..) (returns_convertToRedirectedPath _ _) .pure
    fun b hb => ?_
  have hdaemon : R (resolve root b.string) := by
    rw [hb, hpath]
    exact hredirected
  refine .bind (confines_callDaemon hdaemon) fun _ =>
    .bind (.inRecursiveCall (.calm (.perform trivial))) fun r => ?_
  obtain ⟨error, a_vpp⟩ := r
  refine .bind (.calm ?_) fun isRegular => ?_
  · rw [isRegularOrNone.eq_def]
    split
    · exact .bind (.perform trivial) fun _ => .pure
    · exact .pure
  · split
    · exact .bind (.inRecursiveCall (.calm (.perform trivial))) fun _ =>
        .calm (calm_mergeLookups ..)
    · exact .pure

/-- A lookup reaches the shadow path and the two redirected paths. -/
theorem confines_lookup {dvp : Nat} (hpath : cnp.cn_pnbuf = p.string) (hshadow : R (shadowPath p))
    (hbacking : R (backingPath app.redirectTo (shadowPath p)))
    (hredirected : R (backingPath app.redirectTo p)) :
    Confines app R w₀ allow (qvrVnopLookupHookEx2 app.context dvp cnp) := by
  refine .bind (.calm calm_isRecursiveCallOrUserClient) fun pass => ?_
  split
  · refine .bind (.calm (.perform trivial)) fun cookie => ?_
    split
    · exact .calm (.perform trivial)
    · exact .calm (.perform trivial)
    · exact .bind (.calm (.perform trivial)) fun _ => .calm (.perform trivial)
  · split
    · exact .calm (.perform trivial)
    · refine .bind (confines_lookupRedirectIo hpath hshadow hbacking) fun r => ?_
      obtain ⟨done, l⟩ := r
      dsimp only
      split
      · exact .bind .pure fun _ => .light (light_lookupExit ..)
      · exact .bind (confines_lookupRedirectPath hpath hredirected) fun _ =>
          .light (light_lookupExit ..)

/-- The shadow file is opened and its backing file made. -/
theorem confines_createShadowFile {shadowPath redirectedShadowPath : List UInt8} {original : Nat}
    (hshadow : R (resolve root shadowPath)) (hbacking : R (resolve root redirectedShadowPath)) :
    Confines app R w₀ allow
      (createShadowFile app.createNew cnp shadowPath redirectedShadowPath original) := by
  refine .bind (.calm (.perform trivial)) fun _ => .bind (.calm (.perform trivial)) fun _ =>
    .bind ((confines_vnodeOpen hshadow).weaken fun _ _ h => h.1) fun r => ?_
  obtain ⟨error, shadowVnode⟩ := r
  dsimp only
  split
  · refine .bind (confines_callDaemon hbacking) fun _ => .bind (.calm (calm_useShadowVnode ..))
      fun r => ?_
    obtain ⟨error, a_vpp⟩ := r
    dsimp only
    split
    · exact .calm (.bind (.perform trivial) fun _ => .bind (.perform trivial) fun _ =>
        .bind (.perform trivial) fun _ => .pure)
    · exact .calm (.bind (.perform trivial) fun _ => .bind (.perform trivial) fun _ => .pure)
  · exact .bind (.calm (.perform trivial)) fun _ => .pure

variable {d : CanonicalPath} {dvp : Nat}

/-- The original is created in the directory. -/
theorem confines_vnopCreate (hR : R (d.enter (cnp.cn_nameptr.take cnp.cn_namelen))) :
    Triple World.effect allow (ConfinedWith app R w₀ d dvp) (Kernel.vnopCreate dvp cnp)
      fun _ => Confined app R w₀ := by
  refine Triple.perform fun w c _ h => h.1.createEntry (fun p hp => ?_) c.error
  rw [World.entryPath, Namespace.pathOf_eq_some_iff.mpr h.2, Option.map_some] at hp
  rw [← Option.some.inj hp]
  exact hR

/-- A create for a controlled file reaches three paths: its own, that of the shadow file and its
redirected one. -/
theorem confines_createRedirected (hpath : cnp.cn_pnbuf = p.string)
    (hR : R (d.enter (cnp.cn_nameptr.take cnp.cn_namelen))) (hshadow : R (shadowPath p))
    (hbacking : R (backingPath app.redirectTo (shadowPath p))) :
    Triple World.effect allow (ConfinedWith app R w₀ d dvp)
      (createRedirected app.createNew dvp cnp) fun _ => Confined app R w₀ := by
  have hpure : ∀ r : Int × Option Nat, Triple World.effect allow (ConfinedWith app R w₀ d dvp)
      (Pure.pure r : Kernel Nat (Int × Option Nat)) fun _ => Confined app R w₀ :=
    fun _ => Triple.pure fun _ h => h.1
  have hcongr : ∀ w w', SameContents app w w' → ConfinedWith app R w₀ d dvp w →
      ConfinedWith app R w₀ d dvp w' := fun _ _ hsame h => h.congr hsame
  -- both paths are converted before anything is made
  refine triple_convert hcongr (light_convertToShadowCopyPath _)
    (returns_convertToShadowCopyPath _) (hpure _) fun b hb => ?_
  rw [hpath, ← shadowPath_string] at hb
  refine triple_convert hcongr (light_convertToRedirectedPath ..)
    (returns_convertToRedirectedPath _ _)
    (.bind (triple_calm_with (calm_light (light_freePath _))) fun _ => hpure _) fun b' hb' => ?_
  -- the shadow file and its backing file lie in the region
  have hopen : R (resolve root b.string) := by
    rw [hb, resolve_string]
    exact hshadow
  have hdaemon : R (resolve root b'.string) := by
    rw [hb', hb]
    exact hbacking
  refine .bind (.bind (triple_calm_with (.perform trivial)) fun _ => .bind
    (.bind (confines_vnopCreate hR) fun r => (?_ : Confines app R w₀ allow _)) fun _ =>
      Confines.bind (.calm (.perform trivial)) fun _ => .pure) fun r => ?_
  · obtain ⟨error, a_vpp⟩ := r
    dsimp only
    split
    · exact confines_createShadowFile hopen hdaemon
    · exact .pure
  · obtain ⟨error, a_vpp⟩ := r
    dsimp only
    have hfree : Confines app R w₀ allow (do
        freePath (some b)
        freePath (some b')
        Pure.pure (error, a_vpp) : Kernel Nat (Int × Option Nat)) :=
      .bind (.light (light_freePath _)) fun _ => .bind (.light (light_freePath _)) fun _ => .pure
    split
    · exact Confines.bind (.calm (.perform trivial)) fun _ => hfree
    · exact hfree

/-- A create reaches the path and that of the shadow file, and the redirected one. -/
theorem confines_create (hpath : cnp.cn_pnbuf = p.string)
    (hR : R (d.enter (cnp.cn_nameptr.take cnp.cn_namelen))) (hshadow : R (shadowPath p))
    (hbacking : R (backingPath app.redirectTo (shadowPath p))) :
    Triple World.effect allow (ConfinedWith app R w₀ d dvp)
      (qvrVnopCreateHookEx2 app.context dvp cnp) fun _ => Confined app R w₀ := by
  refine .bind (triple_calm_with calm_isRecursiveCallOrUserClient) fun pass => ?_
  split
  · exact confines_vnopCreate hR
  · refine .bind (triple_calm_with (.perform trivial)) fun isControlledFile => ?_
    split
    · exact confines_createRedirected hpath hR hshadow hbacking
    · exact confines_vnopCreate hR

end VfsRedirector
