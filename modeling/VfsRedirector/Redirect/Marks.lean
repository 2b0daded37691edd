import VfsRedirector.Redirect.Requests

/-!
# The mark of a recursive call

`EnterRecursiveCall` puts a thread in the map of `RecursionEngine` and
`LeaveRecursiveCall` takes it out: there is one mark for a thread, not one for each
region between the two. A hook that finds its thread marked opens no region, and
one that does not leaves its thread unmarked. So a thread is marked wherever it is
in a region (`regions_marked`), unless a region is opened in another one. There is
one place where this can happen: create calls `QvrGetBackingVnodeForRedirectedIO`
in a region, and this opens one if `vn_getpath` gives the path of the shadow vnode.

## Results

* `KeepsMark.bind`, `KeepsMark.region` — code that keeps the mark, and a region around
  it.
* `MarksNested.marked` — what is called in a region does not take the mark away.
* `regions_marked` — in a run that meets the condition of create, who is marked at a
  call.
-/

namespace VfsRedirector

open Library Prog Kernel

variable {Thread Vnode : Type}

-- ---------------------------------------------------------------------------
-- Regions
-- ---------------------------------------------------------------------------

namespace KernelOp

/-- What the thread's mark becomes, if there is memory for it. -/
def mark : KernelOp Vnode → Option Cookie → Option Cookie
  | .enterRecursiveCall cookie, _ => some cookie
  | .leaveRecursiveCall, _ => none
  | _, m => m

/-- How many regions are opened. -/
def opened : KernelOp Vnode → Int
  | .enterRecursiveCall _ => 1
  | .leaveRecursiveCall => -1
  | _ => 0

/-- The calls that reach a file system. -/
def FileSystem : KernelOp Vnode → Prop
  | .vnodeLookup .. | .vnodeOpen _ | .vnodeClose _ | .vnodePut _ | .vnodeRecycle _ |
    .vnodeGetattr .. | .vnGetpath _ | .vnRdwr .. | .clusterPush _ | .qvrVnodeGetSize .. |
    .qvrVnodeSetsize .. | .ubcMsync .. | .vnopLookup .. | .vnopCreate .. | .vnopClose .. |
    .vnopInactive _ | .vnopExchange _ | .vnopRename .. | .vnopGetattr .. | .vnopRead .. |
    .vnopWrite .. | .vnopPagein .. | .vnopPageout .. => True
  | _ => False

/-- What the code relies on, if it found the mark `m`: the thread has its mark, and for
`create` that `vn_getpath` fails. -/
def Marking (create : Bool) (m : Option Cookie) (log : CallLog Vnode) :
    (o : KernelOp Vnode) → o.Res → Prop
  | .cookieForRecursiveCall, r => r = Log.after mark m log
  | .vnGetpath _, r => create = true → r.1 ≠ 0
  | _, _ => True

/-- Not `EnterRecursiveCall` or `LeaveRecursiveCall`. -/
def NoMark : KernelOp Vnode → Prop
  | .enterRecursiveCall _ | .leaveRecursiveCall => False
  | _ => True

/-- A plain call does not touch the marks. -/
theorem Plain.noMark {o : KernelOp Vnode} (h : o.Plain) : o.NoMark := by
  cases o <;> trivial

/-- A call that is none of the two of a region changes no mark. -/
theorem NoMark.mark_eq {o : KernelOp Vnode} (h : o.NoMark) (m : Option Cookie) : o.mark m = m := by
  cases o with
  | enterRecursiveCall cookie => exact h.elim
  | leaveRecursiveCall => exact h.elim
  | _ => rfl

/-- A call that is none of the two of a region opens and leaves none. -/
theorem NoMark.opened_eq {o : KernelOp Vnode} (h : o.NoMark) : o.opened = 0 := by
  cases o with
  | enterRecursiveCall cookie => exact h.elim
  | leaveRecursiveCall => exact h.elim
  | _ => rfl

end KernelOp

/-- The regions that have been opened and not been left. -/
def openRegions (log : CallLog Vnode) : Int := (log.map fun call => call.1.opened).sum

@[simp] theorem openRegions_nil : openRegions ([] : CallLog Vnode) = 0 := rfl

@[simp] theorem openRegions_append (log : CallLog Vnode) (call : Σ o : KernelOp Vnode, o.Res) :
    openRegions (log ++ [call]) = openRegions log + call.1.opened := by
  simp [openRegions]

/-- Where a hook is that found the mark `m`. -/
inductive Place where
  | outside
  | inside

/-- Only a hook that found no mark is inside of a region. -/
def Place.At (m : Option Cookie) (log : CallLog Vnode) : Place → Prop
  | outside => openRegions log = 0 ∧ Log.after KernelOp.mark m log = m
  | inside => m = none ∧ openRegions log = 1 ∧ Log.after KernelOp.mark m log ≠ none

/-- The mark is there in a region, and does not change if it was there before. -/
def Marked (m : Option Cookie) (log : CallLog Vnode) : Prop := ∃ place : Place, place.At m log

variable {create : Bool} {m : Option Cookie} {place : Place} {log : CallLog Vnode} {α β : Type}
  {p : Kernel Vnode α}

/-- A call that touches no mark does not move a hook into a region or out of it. -/
theorem Place.At.append (h : place.At m log) {o : KernelOp Vnode} (ho : o.NoMark) (r : o.Res) :
    place.At m (log ++ [⟨o, r⟩]) := by
  cases place with
  | outside => simpa [Place.At, ho.mark_eq, ho.opened_eq] using h
  | inside => simpa [Place.At, ho.mark_eq, ho.opened_eq] using h

/-- In a region there is a mark. -/
theorem Marked.in_region (h : Marked m log) (hregion : 0 < openRegions log) :
    Log.after KernelOp.mark m log ≠ none := by
  obtain ⟨place, hplace⟩ := h
  cases place with
  | outside =>
    rw [hplace.1] at hregion
    exact absurd hregion (lt_irrefl 0)
  | inside => exact hplace.2.2

/-- A hook that found a mark keeps it. -/
theorem Marked.recursive (h : Marked m log) (hm : m ≠ none) :
    Log.after KernelOp.mark m log ≠ none := by
  obtain ⟨place, hplace⟩ := h
  cases place with
  | outside => exact hplace.2.symm ▸ hm
  | inside => exact hplace.2.2

/-- Code that finds the mark `m`, from `log` on. -/
abbrev Marks (create : Bool) (m : Option Cookie) (p : Kernel Vnode α) (Q : α → CallLog Vnode → Prop)
    (log : CallLog Vnode) : Prop :=
  p.Always (fun log _ => Marked m log) (fun log o r => o.Marking create m log r) Q log

/-- Code that is at `place` when it starts and when it ends. -/
def KeepsMark (create : Bool) (m : Option Cookie) (place : Place) (p : Kernel Vnode α) : Prop :=
  ∀ log, place.At m log → Marks create m p (fun _ log => place.At m log) log

namespace KeepsMark

/-- Code that does nothing stays where it is. -/
theorem pure {a : α} : KeepsMark create m place (Pure.pure a : Kernel Vnode α) :=
  fun _ h => Always.pure h

/-- Code that keeps the mark can be followed by code that does. -/
theorem bind {f : α → Kernel Vnode β} (hp : KeepsMark create m place p)
    (hf : ∀ a, KeepsMark create m place (f a)) : KeepsMark create m place (p >>= f) :=
  fun log h => .bind (hp log h) fun a log h => hf a log h

/-- Code without the two calls of a region stays where it is. -/
theorem calls (hp : p.Calls KernelOp.NoMark) : KeepsMark create m place p :=
  fun _ h => Always.calls hp h (fun _ _ _ h => ⟨place, h⟩) fun _ _ r ho h _ => h.append ho r

/-- Plain code stays where it is. -/
theorem plain (hp : p.Calls KernelOp.Plain) : KeepsMark create m place p :=
  calls (hp.mono fun _ => KernelOp.Plain.noMark)

/-- Light code does. -/
theorem light (hp : p.Calls KernelOp.Light) : KeepsMark create m place p :=
  plain (plain_light hp)

/-- The refill of a cache stays where it is. -/
theorem caching (hp : p.Calls KernelOp.Caching) : KeepsMark create m place p :=
  plain (hp.mono fun _ => KernelOp.Caching.plain)

/-- A call that is none of the two of a region stays where it is. -/
theorem perform {o : KernelOp Vnode} (ho : o.NoMark) : KeepsMark create m place (Prog.perform o) :=
  calls (.perform ho)

/-- A region that is opened outside of others. -/
theorem region {cookie : Cookie} (hp : KeepsMark create none .inside p) :
    KeepsMark create none .outside (inRecursiveCall cookie p) := by
  intro log h
  have henter : Place.inside.At none (log ++ [⟨.enterRecursiveCall cookie, ()⟩]) := by
    simp [Place.At, KernelOp.opened, KernelOp.mark, h.1]
  refine .call ⟨.outside, h⟩ fun _ _ => ?_
  refine .bind (hp _ henter) fun a log hinside => ?_
  refine .call ⟨.inside, hinside⟩ fun _ _ => ?_
  show Place.outside.At none (log ++ [⟨.leaveRecursiveCall, ()⟩])
  simp [Place.At, KernelOp.opened, KernelOp.mark, hinside.2.1]

end KeepsMark

/-- What is not recursive found no mark. -/
theorem marks_isRecursiveCallOrUserClient (h : Place.outside.At m log) :
    Marks create m isRecursiveCallOrUserClient
      (fun r log => Place.outside.At m log ∧ (r = false → m = none)) log := by
  refine .call ⟨.outside, h⟩ fun cookie hcookie => ?_
  have hafter := h.append (o := .cookieForRecursiveCall) trivial cookie
  cases cookie with
  | some cookie => exact ⟨hafter, fun hfalse => absurd hfalse.symm Bool.false_ne_true⟩
  | none =>
    have hm : m = none := by
      rw [← h.2]
      exact hcookie.symm
    refine ⟨⟨.outside, hafter⟩, fun client _ => ⟨?_, fun _ => hm⟩⟩
    exact hafter.append (o := .isUserClient) trivial client

/-- A hook that goes on only if the call is not recursive goes on without a mark. -/
theorem KeepsMark.check {q : Kernel Vnode α} (hrecursive : KeepsMark create m .outside p)
    (hq : m = none → KeepsMark create m .outside q) :
    KeepsMark create m .outside (do if ← isRecursiveCallOrUserClient then p else q) := by
  intro log h
  refine .bind (marks_isRecursiveCallOrUserClient h) fun r log hr => ?_
  split
  · exact hrecursive log hr.1
  · next hne => exact hq (hr.2 (Bool.eq_false_iff.mpr hne)) log hr.1

-- ---------------------------------------------------------------------------
-- The backing vnode
-- ---------------------------------------------------------------------------

/-- The lookup of the backing vnode and the refill of the cache have a region each. -/
theorem keepsMark_lookupBackingVnode (vn : Vnode) (vnodePath : List UInt8)
    (appData : ApplicationData) :
    KeepsMark create none .outside (lookupBackingVnode vn vnodePath appData) := by
  refine .bind (.light (light_convertToRedirectedPath ..)) fun r => ?_
  obtain ⟨error, path⟩ := r
  cases path with
  | none => exact .pure
  | some redirectedFilePath =>
    refine .bind (.region (.perform trivial)) fun r => ?_
    obtain ⟨error, backingVnode⟩ := r
    dsimp only
    split
    · refine .bind (.perform trivial) fun _ => ?_
      refine .bind (.region (.caching (calls_refillCache ..))) fun _ => ?_
      exact .bind (.light (light_freePath _)) fun _ => .pure
    · exact .bind (.light (light_freePath _)) fun _ => .pure

/-- In create the path of the vnode is not found, and no region is opened. -/
theorem keepsMark_findBackingVnode (hplace : place = .outside ∨ create = true) (vn : Vnode)
    (appData : ApplicationData) : KeepsMark create none place (findBackingVnode vn appData) := by
  have hfree : ∀ (addr : Nat) (backingVnode : Option Vnode), KeepsMark create none place (do
      ioFree addr MAXPATHLEN
      Pure.pure backingVnode : Kernel Vnode (Option Vnode)) :=
    fun _ _ => .bind (.perform trivial) fun _ => .pure
  refine .bind (.perform trivial) fun addr => ?_
  cases addr with
  | none => exact .pure
  | some vnodePath =>
    intro log h
    refine .call ⟨place, h⟩ fun r hgetpath => ?_
    obtain ⟨error, path⟩ := r
    have hafter := h.append (o := .vnGetpath vn) trivial (error, path)
    dsimp only
    split
    · obtain rfl | hcreate := hplace
      · refine .bind (keepsMark_lookupBackingVnode vn path appData _ hafter) fun _ log h => ?_
        exact hfree vnodePath _ log h
      · exact absurd rfl (hgetpath hcreate)
    · exact hfree vnodePath none _ hafter

/-- A backing vnode is obtained outside of every region, or in create without opening one. -/
theorem keepsMark_qvrGetBackingVnodeForRedirectedIo (hplace : place = .outside ∨ create = true)
    (vn : Vnode) (appData : ApplicationData) (forceUpdate : Bool) :
    KeepsMark create none place (qvrGetBackingVnodeForRedirectedIo vn appData forceUpdate) := by
  refine .bind (.perform trivial) fun type => ?_
  split
  · exact .pure
  · split
    · exact .bind (.perform trivial) fun _ => keepsMark_findBackingVnode hplace vn appData
    · refine .bind (.perform trivial) fun backingVnode => ?_
      cases backingVnode with
      | none => exact keepsMark_findBackingVnode hplace vn appData
      | some backingVnode => exact .pure

/-- The shadow vnode is given to the application outside of every region, or in create without
opening one. -/
theorem keepsMark_useShadowVnode (hplace : place = .outside ∨ create = true) (shadowVnode : Vnode)
    (appData : ApplicationData) :
    KeepsMark create none place (useShadowVnode shadowVnode appData) := by
  refine .bind ?_ fun _ => .bind (.perform trivial) fun backingVnode => ?_
  · refine .bind (keepsMark_qvrGetBackingVnodeForRedirectedIo hplace _ _ _) fun vnodeIo => ?_
    exact .light (light_putIfAny vnodeIo)
  · cases backingVnode with
    | none => exact .pure
    | some backingVnode =>
      refine .bind (.perform trivial) fun _ => .bind (.perform trivial) fun _ => ?_
      exact .bind (.perform trivial) fun _ => .pure

-- ---------------------------------------------------------------------------
-- Lookup
-- ---------------------------------------------------------------------------

/-- The original lookup is called in no region of the hook. -/
theorem keepsMark_lookupOriginal (dvp : Vnode) (cnp : Componentname) :
    KeepsMark create m .outside (lookupOriginal dvp cnp) := by
  refine .bind (.perform trivial) fun cookie => ?_
  split
  · exact .perform trivial
  · exact .perform trivial
  · exact .bind (.perform trivial) fun _ => .perform trivial

/-- The shadow file is connected after the region of its lookup is left. -/
theorem keepsMark_connectShadowFile (appData : ApplicationData) (cnp : Componentname)
    (shadowPath : List UInt8) (shadowVnode : Vnode) (daemon : Bool) :
    KeepsMark create none .outside
      (connectShadowFile appData cnp shadowPath shadowVnode daemon) := by
  refine .bind (.light (light_convertToRedirectedPath ..)) fun r => ?_
  obtain ⟨error, path⟩ := r
  cases path with
  | none => exact .pure
  | some redirectedShadowPath =>
    have hrest : KeepsMark create none .outside (do
        freePath (some redirectedShadowPath)
        useShadowVnode shadowVnode appData) :=
      .bind (.light (light_freePath _)) fun _ =>
        keepsMark_useShadowVnode (.inl rfl) shadowVnode appData
    dsimp only
    split
    · exact .bind (.perform trivial) fun _ => hrest
    · exact hrest

section Lookup

variable [DecidableEq Vnode]

/-- The shadow file is found or created in one region, and connected after it. -/
theorem keepsMark_lookupShadow (appData : ApplicationData) (cnp : Componentname)
    (original : Vnode) :
    KeepsMark create none .outside (lookupShadow appData cnp original) := by
  refine .bind (.perform trivial) fun _ => .bind (.perform trivial) fun _ => ?_
  refine .bind (.light (light_convertToShadowCopyPath _)) fun r => ?_
  obtain ⟨error, shadowPath⟩ := r
  cases shadowPath with
  | none => exact .pure
  | some shadowPath =>
    refine .bind (.light (light_convertToShadowCopyPath _)) fun r => ?_
    obtain ⟨error, shadowName⟩ := r
    cases shadowName with
    | none => exact .pure
    | some shadowName =>
      refine .bind (.region (.calls ?_)) fun r => ?_
      · exact calls_openShadowFile (fun _ => KernelOp.Plain.noMark) (fun _ => trivial) _ _
      · obtain ⟨error, shadowVnode, daemon⟩ := r
        dsimp only
        split
        · refine .bind (keepsMark_connectShadowFile _ _ _ _ _) fun r => ?_
          obtain ⟨error, a_vpp⟩ := r
          split <;> exact .pure
        · exact .pure

/-- Lookup of a file whose I/O is redirected opens one region after another. -/
theorem keepsMark_lookupRedirectIo (appData : ApplicationData) (dvp : Vnode) (cnp : Componentname) :
    KeepsMark create none .outside (lookupRedirectIo appData dvp cnp) := by
  refine .bind (.region (.perform trivial)) fun r => ?_
  obtain ⟨error, a_vpp⟩ := r
  dsimp only
  split
  · refine .bind (.perform trivial) fun appDataVnode => ?_
    split
    · exact .pure
    · refine .bind (.perform trivial) fun type => ?_
      split
      · exact .pure
      · refine .bind (.perform trivial) fun isControlledFile => ?_
        split
        · exact keepsMark_lookupShadow _ _ _
        · exact .pure
  · exact .pure

omit [DecidableEq Vnode] in
/-- The two results are merged with calls that open no region. -/
theorem keepsMark_mergeLookups (appData : ApplicationData) (l : LookupLocals Vnode)
    (found : Int × Option Vnode) : KeepsMark create m place (mergeLookups appData l found) := by
  rw [mergeLookups.eq_def]
  split
  · refine .bind (.light (light_putIfAny _)) fun _ => ?_
    exact .bind (.perform trivial) fun _ => .pure
  · split <;> exact .pure
  · split
    · exact .pure
    · split <;> exact .pure

omit [DecidableEq Vnode] in
/-- The original and the redirected file are looked up in one region each. -/
theorem keepsMark_lookupRedirectPath (appData : ApplicationData) (dvp : Vnode) (cnp : Componentname)
    (l : LookupLocals Vnode) :
    KeepsMark create none .outside (lookupRedirectPath appData dvp cnp l) := by
  refine .bind (.light (light_convertToRedirectedPath ..)) fun r => ?_
  obtain ⟨error, path⟩ := r
  cases path with
  | none => exact .pure
  | some redirectedFilePath =>
    refine .bind (.perform trivial) fun _ => ?_
    refine .bind (.region (.perform trivial)) fun r => ?_
    obtain ⟨error, a_vpp⟩ := r
    refine .bind (.plain (plain_isRegularOrNone _)) fun isRegular => ?_
    dsimp only
    split
    · exact .bind (.region (.perform trivial)) fun found => keepsMark_mergeLookups _ _ _
    · exact .pure

/-- Whichever way the file is redirected, the lookup ends outside of its regions. -/
theorem keepsMark_lookupRedirected (createNew openExisting : ApplicationData) (dvp : Vnode)
    (cnp : Componentname) :
    KeepsMark create none .outside (lookupRedirected createNew openExisting dvp cnp) := by
  have hpath : ∀ l, KeepsMark create none .outside
      (lookupRedirectPath openExisting dvp cnp l >>= lookupExit cnp) := fun l =>
    .bind (keepsMark_lookupRedirectPath _ _ _ _) fun l => .light (light_lookupExit ..)
  rw [lookupRedirected]
  split
  · refine .bind (keepsMark_lookupRedirectIo _ _ _) fun r => ?_
    obtain ⟨done, l⟩ := r
    cases done with
    | true => exact .light (light_lookupExit ..)
    | false => exact hpath l
  · exact hpath _

/-- The lookup hook leaves the mark as it found it. -/
theorem keepsMark_qvrVnopLookupHookEx2 (ctx : VfsContext) (dvp : Vnode) (cnp : Componentname) :
    KeepsMark create m .outside (qvrVnopLookupHookEx2 ctx dvp cnp) := by
  rw [qvrVnopLookupHookEx2.eq_def]
  split
  · refine .check (keepsMark_lookupOriginal dvp cnp) fun hm => ?_
    subst hm
    split
    · exact .perform trivial
    · exact keepsMark_lookupRedirected _ _ _ _
  · exact keepsMark_lookupOriginal dvp cnp

end Lookup

-- ---------------------------------------------------------------------------
-- Create
-- ---------------------------------------------------------------------------

/-- The one part that looks for a backing vnode in a region. -/
theorem keepsMark_createShadowFile (appData : ApplicationData) (cnp : Componentname)
    (shadowPath redirectedShadowPath : List UInt8) (originalVnode : Vnode) :
    KeepsMark true none .inside
      (createShadowFile appData cnp shadowPath redirectedShadowPath originalVnode) := by
  refine .bind (.perform trivial) fun _ => .bind (.perform trivial) fun _ => ?_
  refine .bind (.perform trivial) fun r => ?_
  obtain ⟨error, shadowVnode⟩ := r
  dsimp only
  split
  · next shadow =>
    refine .bind (.perform trivial) fun _ => ?_
    refine .bind (keepsMark_useShadowVnode (.inr rfl) _ _) fun r => ?_
    obtain ⟨error, a_vpp⟩ := r
    have hrest : KeepsMark true none .inside (do
        vnodeClose shadow
        vnodePut originalVnode
        Pure.pure (error, a_vpp) : Kernel Vnode (Int × Option Vnode)) :=
      .bind (.perform trivial) fun _ => .bind (.perform trivial) fun _ => .pure
    dsimp only
    split
    · exact .bind (.perform trivial) fun _ => hrest
    · exact hrest
  · exact .bind (.perform trivial) fun _ => .pure

/-- The original file and its shadow file are created in one region. -/
theorem keepsMark_createRedirected (appData : ApplicationData) (dvp : Vnode) (cnp : Componentname) :
    KeepsMark true none .outside (createRedirected appData dvp cnp) := by
  refine .bind (.light (light_convertToShadowCopyPath _)) fun r => ?_
  obtain ⟨error, shadowPath⟩ := r
  cases shadowPath with
  | none => exact .pure
  | some shadowPath =>
    refine .bind (.light (light_convertToRedirectedPath ..)) fun r => ?_
    obtain ⟨error, redirectedPath⟩ := r
    cases redirectedPath with
    | none => exact .bind (.light (light_freePath _)) fun _ => .pure
    | some redirectedShadowPath =>
      -- only the making of the files is in a recursive call
      refine .bind (.region ?_) fun r => ?_
      · refine .bind (.perform trivial) fun r => ?_
        obtain ⟨error, a_vpp⟩ := r
        dsimp only
        split
        · exact keepsMark_createShadowFile _ _ _ _ _
        · exact .pure
      · obtain ⟨error, a_vpp⟩ := r
        have hrest : KeepsMark true none .outside (do
            freePath (some shadowPath)
            freePath (some redirectedShadowPath)
            Pure.pure (error, a_vpp) : Kernel Vnode (Int × Option Vnode)) :=
          .bind (.light (light_freePath _)) fun _ =>
            .bind (.light (light_freePath _)) fun _ => .pure
        dsimp only
        split
        · exact .bind (.perform trivial) fun _ => hrest
        · exact hrest

/-- The create hook leaves the mark as it found it, given that `vn_getpath` fails. -/
theorem keepsMark_qvrVnopCreateHookEx2 (ctx : VfsContext) (dvp : Vnode) (cnp : Componentname) :
    KeepsMark true m .outside (qvrVnopCreateHookEx2 ctx dvp cnp) := by
  rw [qvrVnopCreateHookEx2]
  split
  · exact .perform trivial
  · refine .check (.perform trivial) fun hm => ?_
    subst hm
    refine .bind (.perform trivial) fun isControlledFile => ?_
    split
    · exact keepsMark_createRedirected _ _ _
    · exact .perform trivial

-- ---------------------------------------------------------------------------
-- Rename
-- ---------------------------------------------------------------------------

/-- The target of a rename is looked up in a region. -/
theorem keepsMark_lookupOriginalTarget (ap : RenameArgs Vnode) :
    KeepsMark create none .outside (lookupOriginalTarget ap) := by
  rw [lookupOriginalTarget]
  split
  · exact .region (.perform trivial)
  · exact .pure

/-- Source and target are looked up in a region each, and renamed outside of both. -/
theorem keepsMark_renameOriginal (fvp : Vnode) (ap : RenameArgs Vnode) :
    KeepsMark create none .outside (renameOriginal fvp ap) := by
  refine .bind (.region (.perform trivial)) fun r => ?_
  obtain ⟨error, newFvp⟩ := r
  dsimp only
  split
  · exact .light (light_renameExit ..)
  · refine .bind (keepsMark_lookupOriginalTarget ap) fun r => ?_
    obtain ⟨error, newTvp⟩ := r
    dsimp only
    split
    · exact .light (light_renameExit ..)
    · exact .bind (.perform trivial) fun _ => .light (light_renameExit ..)

/-- A target that only the protected storage has is emptied in a region of its own. -/
theorem keepsMark_lookupLeftoverTarget (ap : RenameArgs Vnode) (redirectedTvp : Vnode)
    (l : RenameLocals Vnode) :
    KeepsMark create none .outside (lookupLeftoverTarget ap redirectedTvp l) := by
  refine .bind (.region (.perform trivial)) fun r => ?_
  obtain ⟨error2, originalTvp⟩ := r
  dsimp only
  split
  · refine .bind (.light (light_putIfAny _)) fun _ => ?_
    exact .bind (.perform trivial) fun _ => .pure
  · refine .bind (.region (.perform trivial)) fun _ => .bind (.perform trivial) fun _ => ?_
    exact .bind (.perform trivial) fun _ => .pure

/-- The lookups of both targets follow each other. -/
theorem keepsMark_lookupTargets (ap : RenameArgs Vnode) (toRedirectedFilePath : List UInt8)
    (l : RenameLocals Vnode) :
    KeepsMark create none .outside (lookupTargets ap toRedirectedFilePath l) := by
  rw [lookupTargets]
  split
  · refine .bind (.region (.perform trivial)) fun r => ?_
    obtain ⟨error, a_tvp⟩ := r
    dsimp only
    split
    · exact .pure
    · exact .bind (.region (.perform trivial)) fun _ => .pure
  · refine .bind (.region (.perform trivial)) fun r => ?_
    obtain ⟨error2, redirectedTvp⟩ := r
    dsimp only
    split
    · exact .bind (keepsMark_lookupLeftoverTarget _ _ _) fun _ => .pure
    · exact .pure

/-- Source and targets are looked up one after another. -/
theorem keepsMark_lookupRenamed (appData : ApplicationData) (ap : RenameArgs Vnode)
    (fromRedirectedFilePath toRedirectedFilePath : List UInt8) :
    KeepsMark create none .outside
      (lookupRenamed appData ap fromRedirectedFilePath toRedirectedFilePath) := by
  refine .bind (.region (.perform trivial)) fun r => ?_
  obtain ⟨error, a_fdvp⟩ := r
  dsimp only
  split
  · exact .pure
  · refine .bind (.region (.perform trivial)) fun r => ?_
    obtain ⟨error, a_tdvp⟩ := r
    dsimp only
    split
    · exact .pure
    · refine .bind (.region (.perform trivial)) fun r => ?_
      obtain ⟨error, a_fvp⟩ := r
      dsimp only
      split
      · exact .pure
      · refine .bind (.region (.perform trivial)) fun r => ?_
        obtain ⟨error, originalFvp⟩ := r
        dsimp only
        split
        · exact .pure
        · exact keepsMark_lookupTargets _ _ _

/-- The renames of the three files open no region: they go through the file system's operation. -/
theorem keepsMark_renameAll (fvp : Vnode) (apRedirected apShadow apOriginal : RenameArgs Vnode) :
    KeepsMark create m place (renameAll fvp apRedirected apShadow apOriginal) := by
  rw [renameAll]
  split
  · exact .pure
  · refine .bind (.perform trivial) fun error => ?_
    split
    · exact .pure
    · refine .bind (.perform trivial) fun error => ?_
      split
      · exact .pure
      · refine .bind (.perform trivial) fun error => ?_
        split
        · exact .pure
        · exact .light (light_renameDone ..)

/-- A rename of a file whose I/O is redirected opens its regions one after another. -/
theorem keepsMark_renameRedirectIo (appData : ApplicationData) (fvp : Vnode)
    (ap : RenameArgs Vnode) :
    KeepsMark create none .outside (renameRedirectIo appData fvp ap) := by
  refine .bind (.light (light_renameConversions ..)) fun r => ?_
  obtain ⟨error, paths⟩ := r
  dsimp only
  split
  · refine .bind (keepsMark_lookupRenamed _ _ _ _) fun r => ?_
    obtain ⟨error, l⟩ := r
    dsimp only
    split
    · exact .light (light_renameExit ..)
    · exact .bind (.region (keepsMark_renameAll _ _ _ _)) fun _ => .light (light_renameExit ..)
  · exact .light (light_renameExit ..)

/-- The rename hook leaves the mark as it found it. -/
theorem keepsMark_qvrVnopRenameHookEx2 (ctx : VfsContext) (fvp : Vnode) (ap : RenameArgs Vnode) :
    KeepsMark create m .outside (qvrVnopRenameHookEx2 ctx fvp ap) := by
  have hunchanged : KeepsMark create m .outside (renameUnchanged fvp ap) :=
    .bind (.perform trivial) fun _ => .pure
  refine .bind (.perform trivial) fun appDataVnode => ?_
  split
  · exact hunchanged
  · refine .check hunchanged fun hm => ?_
    subst hm
    split
    · exact keepsMark_renameRedirectIo _ _ _
    · exact keepsMark_renameOriginal _ _

-- ---------------------------------------------------------------------------
-- The other hooks
-- ---------------------------------------------------------------------------

/-- Close opens no region, also with a backing vnode. -/
theorem keepsMark_qvrVnopCloseHookEx2 (a_vp : Vnode) (a_fflag : Int) :
    KeepsMark create m place (qvrVnopCloseHookEx2 a_vp a_fflag) := by
  refine .bind (.perform trivial) fun vnodeIo => ?_
  cases vnodeIo with
  | none => exact .perform trivial
  | some vnodeIo =>
    refine .bind (.perform trivial) fun _ => .bind (.perform trivial) fun _ => ?_
    exact .perform trivial

/-- Inactive opens no region, also with a backing vnode. -/
theorem keepsMark_qvrVnopInactiveHookEx2 (a_vp : Vnode) :
    KeepsMark create m place (qvrVnopInactiveHookEx2 a_vp) := by
  refine .bind (.perform trivial) fun vnodeIo => ?_
  cases vnodeIo with
  | none => exact .perform trivial
  | some vnodeIo =>
    refine .bind (.perform trivial) fun _ => .bind (.perform trivial) fun _ => ?_
    refine .bind (.perform trivial) fun _ => .bind (.perform trivial) fun _ => ?_
    exact .perform trivial

/-- A hook that has a backing vnode found no mark. -/
theorem marks_backingVnodeForIo {op : HookedOp} {a_vp : Vnode} (h : Place.outside.At m log) :
    Marks create m (backingVnodeForIo op a_vp)
      (fun r log => Place.outside.At m log ∧ (r ≠ none → m = none)) log := by
  refine .call ⟨.outside, h⟩ fun appData _ => ?_
  have hafter := h.append (o := .getVnodeAppData a_vp) trivial appData
  cases appData with
  | none => exact ⟨hafter, fun hne => absurd rfl hne⟩
  | some appData =>
    refine .bind (marks_isRecursiveCallOrUserClient hafter) fun r log hr => ?_
    cases r with
    | true => exact ⟨hr.1, fun hne => absurd rfl hne⟩
    | false =>
      obtain rfl := hr.2 rfl
      refine Always.mono (.call ⟨.outside, hr.1⟩ fun _ _ => ?_) fun _ _ h => ⟨h, fun _ => rfl⟩
      have haudit := hr.1.append (o := .auditVnode op a_vp) trivial ()
      exact keepsMark_qvrGetBackingVnodeForRedirectedIo (.inl rfl) a_vp appData false _ haudit

/-- After a hook has asked for the backing vnode it goes on where it was, without a mark if there is
one. -/
theorem keepsMark_thenBackingVnode {op : HookedOp} {a_vp : Vnode}
    {f : Option Vnode → Kernel Vnode α}
    (hnone : KeepsMark create m .outside (f none))
    (hsome : ∀ vnodeIo, m = none → KeepsMark create m .outside (f (some vnodeIo))) :
    KeepsMark create m .outside (backingVnodeForIo op a_vp >>= f) := by
  intro log h
  refine .bind (marks_backingVnodeForIo h) fun vnodeIo log hr => ?_
  cases vnodeIo with
  | none => exact hnone log hr.1
  | some vnodeIo => exact hsome vnodeIo (hr.2 (Option.some_ne_none _)) log hr.1

/-- The read hook leaves the mark as it found it. -/
theorem keepsMark_qvrVnopReadHookEx2 (ap : IoArgs Vnode) :
    KeepsMark create m .outside (qvrVnopReadHookEx2 ap) := by
  refine keepsMark_thenBackingVnode ?_ fun vnodeIo hm => ?_
  · exact .perform trivial
  · subst hm
    refine .bind (.region (.perform trivial)) fun error => ?_
    exact .bind (.perform trivial) fun _ => .pure

/-- The size is adjusted where the operation on the backing vnode was done. -/
theorem keepsMark_thenAdjustSize {backingVnop : Kernel Vnode Int}
    (h : KeepsMark create m place backingVnop) (vnode vnodeIo : Vnode) (context : Context) :
    KeepsMark create m place (thenAdjustSize vnode vnodeIo context backingVnop) := by
  refine .bind h fun error => ?_
  split
  · exact .bind (.caching (calls_qvrAdjustVnodeSizeByBackingVnode ..)) fun _ => .pure
  · exact .pure

/-- The write hook leaves the mark as it found it. -/
theorem keepsMark_qvrVnopWriteHookEx2 (ap : IoArgs Vnode) :
    KeepsMark create m .outside (qvrVnopWriteHookEx2 ap) := by
  refine keepsMark_thenBackingVnode ?_ fun vnodeIo hm => ?_
  · exact .perform trivial
  · subst hm
    refine .bind (.region ?_) fun error => ?_
    · exact keepsMark_thenAdjustSize (by exact .perform trivial) _ _ _
    · exact .bind (.perform trivial) fun _ => .pure

-- ---------------------------------------------------------------------------
-- Paging
-- ---------------------------------------------------------------------------

/-- Pages that must be committed are aborted without a region. -/
theorem keepsMark_abortIfMustCommit (upl : Option Nat) (apIo : PagingArgs Vnode) :
    KeepsMark create m place (abortIfMustCommit upl apIo) := by
  rw [abortIfMustCommit.eq_def]
  split
  · split
    · exact .perform trivial
    · exact .pure
  · exact .pure

/-- Pages are paged out to the backing vnode in the region of that operation. -/
theorem keepsMark_pageoutToBackingVnode (ap apIo : PagingArgs Vnode) (vnodeIo : Vnode)
    (upl : Option Nat) :
    KeepsMark create none .outside (pageoutToBackingVnode ap apIo vnodeIo upl) := by
  have habort : ∀ error : Int, KeepsMark create none .outside (do
      abortIfMustCommit upl apIo
      Pure.pure error : Kernel Vnode Int) :=
    fun _ => .bind (keepsMark_abortIfMustCommit _ _) fun _ => .pure
  refine .bind (.region ?_) fun error => ?_
  · exact keepsMark_thenAdjustSize (by exact .perform trivial) _ _ _
  · dsimp only
    split
    · exact .bind (.caching (calls_writePages ..)) fun error => habort error
    · exact habort error

/-- Pageout with a backing vnode opens one region for what it writes. -/
theorem keepsMark_pageoutBacking (ap : PagingArgs Vnode) (vnodeIo : Vnode) :
    KeepsMark create none .outside (pageoutBacking ap vnodeIo) := by
  refine .bind (.perform trivial) fun flags => ?_
  dsimp only
  split
  · refine .bind (.perform trivial) fun r => ?_
    obtain ⟨error, upl⟩ := r
    dsimp only
    split
    · exact keepsMark_pageoutToBackingVnode _ _ _ _
    · exact .bind (keepsMark_abortIfMustCommit _ _) fun _ => .pure
  · exact keepsMark_pageoutToBackingVnode _ _ _ _

/-- The pageout hook leaves the mark as it found it. -/
theorem keepsMark_qvrVnopPageoutHookEx2 (ap : PagingArgs Vnode) :
    KeepsMark create m .outside (qvrVnopPageoutHookEx2 ap) := by
  refine keepsMark_thenBackingVnode ?_ fun vnodeIo hm => ?_
  · exact .bind (.perform trivial) fun _ => .pure
  · subst hm
    refine .bind (keepsMark_pageoutBacking _ _) fun error => ?_
    exact .bind (.perform trivial) fun _ => .pure

/-- Pages are read from the backing vnode in one region. -/
theorem keepsMark_pageinFromBackingVnode (ap apIo : PagingArgs Vnode) (vnodeIo : Vnode)
    (upl : Option Nat) :
    KeepsMark create none .outside (pageinFromBackingVnode ap apIo vnodeIo upl) := by
  have habort : ∀ error : Int, KeepsMark create none .outside (do
      abortIfMustCommit upl apIo
      Pure.pure error : Kernel Vnode Int) :=
    fun _ => .bind (keepsMark_abortIfMustCommit _ _) fun _ => .pure
  refine .bind (.region (.perform trivial)) fun error => ?_
  dsimp only
  split
  · exact .bind (.caching (calls_readInCache ..)) fun error => habort error
  · exact habort error

/-- Pagein with a backing vnode opens no other one. -/
theorem keepsMark_pageinBacking (ap : PagingArgs Vnode) (vnodeIo : Vnode) :
    KeepsMark create none .outside (pageinBacking ap vnodeIo) := by
  refine .bind (.perform trivial) fun flags => ?_
  dsimp only
  split
  · refine .bind (.perform trivial) fun r => ?_
    obtain ⟨error, upl⟩ := r
    dsimp only
    split
    · exact keepsMark_pageinFromBackingVnode _ _ _ _
    · exact .bind (keepsMark_abortIfMustCommit _ _) fun _ => .pure
  · exact keepsMark_pageinFromBackingVnode _ _ _ _

/-- Whether or not there is a backing vnode, pagein ends where it started. -/
theorem keepsMark_pageinRedirected (ap : PagingArgs Vnode) (appData : Option ApplicationData) :
    KeepsMark create none .outside (pageinRedirected ap appData) := by
  cases appData with
  | none => exact .pure
  | some appData =>
    refine .bind (.perform trivial) fun _ => ?_
    refine .bind (keepsMark_qvrGetBackingVnodeForRedirectedIo (.inl rfl) _ _ _) fun vnodeIo => ?_
    cases vnodeIo with
    | none => exact .pure
    | some vnodeIo =>
      have hput : ∀ error : Int, KeepsMark create none .outside (do
          vnodePut vnodeIo
          Pure.pure error : Kernel Vnode Int) :=
        fun _ => .bind (.perform trivial) fun _ => .pure
      dsimp only
      split
      · exact .bind (keepsMark_pageinBacking _ _) fun error => hput error
      · exact .bind (.caching (calls_readInCache ..)) fun error => hput error

/-- The test for the daemon only asks. -/
theorem keepsMark_orUserClient (condition : Bool) :
    KeepsMark create m place (orUserClient condition : Kernel Vnode Bool) := by
  rw [orUserClient]
  split
  · exact .pure
  · exact .perform trivial

/-- Only what is not recursive is redirected: `orUserClient` is true otherwise. -/
theorem keepsMark_qvrVnopPageinHookEx2 (ap : PagingArgs Vnode) :
    KeepsMark create m .outside (qvrVnopPageinHookEx2 ap) := by
  intro log h
  refine .call ⟨.outside, h⟩ fun cookie hcookie => ?_
  have hafter := h.append (o := .cookieForRecursiveCall) trivial cookie
  have hcookie : cookie = m := hcookie.trans h.2
  subst hcookie
  refine KeepsMark.bind (p := getVnodeAppData ap.a_vp) (.perform trivial) (fun appData => ?_)
    _ hafter
  refine .bind (keepsMark_orUserClient _) fun callOriginal => ?_
  have hrest : ∀ error : Int, KeepsMark create cookie .outside (do
      let done ← orUserClient (error ≠ 0 || cookie.isSome)
      if done then Pure.pure error else pageinRedirected ap appData : Kernel Vnode Int) := by
    intro error
    cases cookie with
    -- in a recursive call the hook ends here
    | some cookie =>
      have hdone : (orUserClient (error ≠ 0 || (some cookie).isSome) : Kernel Vnode Bool) =
          Pure.pure true := by simp [orUserClient]
      rw [hdone]
      exact .pure
    | none =>
      refine .bind (keepsMark_orUserClient _) fun done => ?_
      split
      · exact .pure
      · exact keepsMark_pageinRedirected ap appData
  dsimp only
  split
  · exact .bind (.perform trivial) fun error => hrest error
  · exact hrest 0

-- ---------------------------------------------------------------------------
-- Exchange and getattr
-- ---------------------------------------------------------------------------

/-- The paths of the backing vnodes are given to the daemon without a region. -/
theorem keepsMark_exchangeBacking (backingFvp backingTvp : Vnode) :
    KeepsMark create m place (exchangeBacking backingFvp backingTvp) := by
  have hgetpath : ∀ (error : Int) (vp : Vnode),
      KeepsMark create m place (getpathUnless error vp) := by
    intro error vp
    rw [getpathUnless]
    split
    · exact .pure
    · exact .perform trivial
  have hfree : ∀ addr, KeepsMark create m place (freeIfAny addr : Kernel Vnode Unit) := by
    intro addr
    cases addr with
    | none => exact .pure
    | some addr => exact .perform trivial
  refine .bind (.perform trivial) fun fromBuffer => .bind (.perform trivial) fun toBuffer => ?_
  refine .bind (hgetpath _ _) fun r => ?_
  obtain ⟨error, fromPath⟩ := r
  refine .bind (hgetpath _ _) fun r => ?_
  obtain ⟨error, toPath⟩ := r
  have hrest : KeepsMark create m place (do
      freeIfAny fromBuffer
      freeIfAny toBuffer
      Pure.pure error : Kernel Vnode Int) :=
    .bind (hfree _) fun _ => .bind (hfree _) fun _ => .pure
  dsimp only
  split
  · exact .bind (.perform trivial) fun _ => hrest
  · exact hrest

/-- An exchange with `redirectIO` opens no region. -/
theorem keepsMark_exchangeRedirectIo (ap : ExchangeArgs Vnode) :
    KeepsMark create m place (exchangeRedirectIo ap) := by
  have hput : ∀ (backingFvp backingTvp : Option Vnode) (error : Int), KeepsMark create m place (do
      let error ← if error = 0 then vnopExchange ap else Pure.pure error
      putIfAny backingFvp
      putIfAny backingTvp
      Pure.pure error) := by
    intro backingFvp backingTvp error
    have hrest : ∀ error : Int, KeepsMark create m place (do
        putIfAny backingFvp
        putIfAny backingTvp
        Pure.pure error) := fun _ =>
      .bind (.light (light_putIfAny _)) fun _ => .bind (.light (light_putIfAny _)) fun _ => .pure
    dsimp only
    split
    · exact .bind (.perform trivial) fun error => hrest error
    · exact hrest error
  refine .bind (.perform trivial) fun backingFvp => ?_
  cases backingFvp with
  | none => exact hput none none 0
  | some backingFvp =>
    refine .bind (.perform trivial) fun backingTvp => ?_
    cases backingTvp with
    | none => exact hput (some backingFvp) none 0
    | some backingTvp =>
      refine .bind (keepsMark_exchangeBacking _ _) fun error => ?_
      exact hput (some backingFvp) (some backingTvp) error

/-- The exchange hook leaves the mark as it found it. -/
theorem keepsMark_qvrVnopExchangeHookEx2 (ctx : VfsContext) (ap : ExchangeArgs Vnode) :
    KeepsMark create m .outside (qvrVnopExchangeHookEx2 ctx ap) := by
  refine .bind (.perform trivial) fun appDataVnode => ?_
  split
  · exact .perform trivial
  · split
    · exact .perform trivial
    · exact .check (.perform trivial) fun _ => keepsMark_exchangeRedirectIo ap

/-- Sizes are copied to the caller's attributes without a region. -/
theorem keepsMark_adjustSizes (shadowVp : Vnode) (a_vap : VnodeAttr) :
    KeepsMark create m place (adjustSizes shadowVp a_vap) := by
  refine .bind (.perform trivial) fun backingVnodeRef => ?_
  cases backingVnodeRef with
  | none => exact .pure
  | some backingVnodeRef =>
    have hput : ∀ a_vap : VnodeAttr, KeepsMark create m place (do
        vnodePut backingVnodeRef
        Pure.pure a_vap : Kernel Vnode VnodeAttr) :=
      fun _ => .bind (.perform trivial) fun _ => .pure
    refine .bind (.perform trivial) fun va => ?_
    dsimp only
    split
    · exact hput a_vap
    · exact .bind (.perform trivial) fun _ => hput _

/-- The attributes of the real vnode are asked without a region. -/
theorem keepsMark_getattrOfReal (shadowVp realVnodeRef : Vnode) (ap : GetattrArgs Vnode) :
    KeepsMark create m place (getattrOfReal shadowVp realVnodeRef ap) := by
  refine .bind (.perform trivial) fun r => ?_
  obtain ⟨error, a_vap⟩ := r
  dsimp only
  split
  · exact .pure
  · exact .bind (keepsMark_adjustSizes _ _) fun _ => .pure

/-- The getattr hook leaves the mark as it found it. -/
theorem keepsMark_qvrVnopGetattrHookEx2 (ap : GetattrArgs Vnode) :
    KeepsMark create m .outside (qvrVnopGetattrHookEx2 ap) := by
  have horiginal : KeepsMark create m .outside (getattrOriginal ap) :=
    .bind (.perform trivial) fun _ => .pure
  refine .bind (.perform trivial) fun realVnodeRef => ?_
  cases realVnodeRef with
  | none => exact horiginal
  | some realVnodeRef =>
    refine .check (.bind (.perform trivial) fun _ => horiginal) fun hm => ?_
    subst hm
    refine .bind (.region (keepsMark_getattrOfReal _ _ _)) fun _ => ?_
    exact .bind (.perform trivial) fun _ => .pure

-- ---------------------------------------------------------------------------
-- Main result
-- ---------------------------------------------------------------------------

def Request.creates : Request Vnode → Bool
  | .create .. => true
  | _ => false

variable [DecidableEq Vnode]

/-- Every hook opens no region in another one, and leaves the mark as it found it. -/
theorem keepsMark_code (request : Request Vnode) (m : Option Cookie) :
    KeepsMark request.creates m .outside request.code := by
  have hreturn : ∀ {create : Bool} {hook : Kernel Vnode Int} {vnodes : RequestVnodes Vnode},
      KeepsMark create m .outside hook → KeepsMark create m .outside
        (do return (← (do return (← hook, vnodes) : Kernel Vnode (Int × RequestVnodes Vnode))).1) :=
    fun hhook => .bind (.bind hhook fun _ => .pure) fun _ => .pure
  cases request with
  | lookup ctx dvp cnp => exact .bind (keepsMark_qvrVnopLookupHookEx2 ctx dvp cnp) fun _ => .pure
  | create ctx dvp cnp => exact .bind (keepsMark_qvrVnopCreateHookEx2 ctx dvp cnp) fun _ => .pure
  | other ctx request =>
    cases request with
    | close a_vp a_fflag => exact hreturn (keepsMark_qvrVnopCloseHookEx2 a_vp a_fflag)
    | inactive a_vp => exact hreturn (keepsMark_qvrVnopInactiveHookEx2 a_vp)
    | read ap => exact hreturn (keepsMark_qvrVnopReadHookEx2 ap)
    | write ap => exact hreturn (keepsMark_qvrVnopWriteHookEx2 ap)
    | pagein ap => exact hreturn (keepsMark_qvrVnopPageinHookEx2 ap)
    | pageout ap => exact hreturn (keepsMark_qvrVnopPageoutHookEx2 ap)
    | exchange ap => exact hreturn (keepsMark_qvrVnopExchangeHookEx2 ctx ap)
    | getattr ap =>
      exact .bind (.bind (keepsMark_qvrVnopGetattrHookEx2 ap) fun _ => .pure) fun _ => .pure
    | rename fvp ap hfvp =>
      exact .bind (.bind (keepsMark_qvrVnopRenameHookEx2 ctx fvp ap) fun _ => .pure) fun _ => .pure

variable [DecidableEq Thread]

/-- Of a call, the memory that it asks for is there. -/
def AllocationsSucceed : HooksAction Thread Vnode → Prop
  | .call _ c => c.alloc = true ∧ ∀ size, c.result (.ioMalloc size) ≠ none
  | _ => True

/-- `vn_getpath` fails. -/
def KernelOp.NoPath : (o : KernelOp Vnode) → o.Res → Prop
  | .vnGetpath _, r => r.1 ≠ 0
  | _, _ => True

/-- In create `vn_getpath` does not give a path. It is called for a shadow vnode that is a
regular file and has no backing vnode yet. -/
def NotNested (s : RedirectHooks Thread Vnode) (a : HooksAction Thread Vnode) : Prop :=
  ∀ call ∈ s.returned Shared.effect a, call.1.creates = true → call.2.1.NoPath call.2.2

/-- At every call that a thread makes in a region, it is marked. -/
def RegionsMarked (s : RedirectHooks Thread Vnode) : Prop :=
  ∀ t, ∀ v ∈ s.stack t, ∀ o k, v.code = .call o k → o.FileSystem → 0 < openRegions v.log →
    s.shared.marks.getDataByKey t ≠ none

/-- A step changes the mark of no thread but its own. -/
def OthersKept (s : RedirectHooks Thread Vnode) : Prop :=
  ∀ a s', (redirectHookSystem Thread Vnode).step s a = some s' → ∀ t, a.thread ≠ some t →
    s'.shared.marks.getDataByKey t = s.shared.marks.getDataByKey t

omit [DecidableEq Thread] in
/-- What happens to the maps of vnodes leaves the marks alone. -/
theorem marks_apply (e : MapEvent Vnode) (s : Shared Thread Vnode) :
    (e.apply s).marks = s.marks := by
  cases e <;> rfl

/-- A call of one thread does not change the mark of another. -/
theorem getDataByKey_effect_of_ne {s : Shared Thread Vnode} {t u : Thread} (h : u ≠ t)
    (o : KernelOp Vnode) (c : Outcome Vnode) :
    (Shared.effect t s o c).1.marks.getDataByKey u = s.marks.getDataByKey u := by
  cases o with
  | enterRecursiveCall cookie =>
    show (s.marks.addDataByKey t cookie c.alloc).1.getDataByKey u = _
    cases c.alloc with
    | false => rw [DataMap.addDataByKey_fail]
    | true => rw [DataMap.getDataByKey_addDataByKey, if_neg h]
  | leaveRecursiveCall =>
    show (s.marks.removeKey t).getDataByKey u = _
    rw [DataMap.getDataByKey_removeKey, if_neg h]
  | _ => rfl

/-- A call of a thread does to its mark what the call is for, if there is memory. -/
theorem getDataByKey_effect_self (s : Shared Thread Vnode) (t : Thread) (o : KernelOp Vnode)
    {c : Outcome Vnode} (hc : c.alloc = true) :
    (Shared.effect t s o c).1.marks.getDataByKey t = o.mark (s.marks.getDataByKey t) := by
  cases o with
  | enterRecursiveCall cookie =>
    show (s.marks.addDataByKey t cookie c.alloc).1.getDataByKey t = some cookie
    rw [hc, DataMap.getDataByKey_addDataByKey, if_pos rfl]
  | leaveRecursiveCall =>
    show (s.marks.removeKey t).getDataByKey t = none
    rw [DataMap.getDataByKey_removeKey, if_pos rfl]
  | _ => rfl

/-- The step of a thread leaves the others alone, whatever the state. -/
theorem othersKept (s : RedirectHooks Thread Vnode) : OthersKept s := by
  intro a s' hstep t ht
  obtain ⟨u, request, rfl, rfl⟩ | ⟨u, c, request, o, k, log, stack, rfl, hstack, rfl⟩ |
    ⟨u, request, x, log, stack, rfl, hstack, rfl⟩ | ⟨e, rfl, rfl⟩ := threadSystem_step_cases hstep
  · rfl
  · exact getDataByKey_effect_of_ne (fun h => ht (congrArg some h.symm)) o c
  · rfl
  · exact congrArg (DataMap.getDataByKey · t) (marks_apply e s.shared)

/-- The invocations of a thread, with the mark that each of them found. -/
abbrev MarksNested : Option Cookie → List (Invocation (@KernelOp.Res Vnode) (Request Vnode) Int) →
    Prop :=
  Nested KernelOp.mark (fun _ m log _ => Marked m log)
    (fun request m log o r => o.Marking request.creates m log r) none

omit [DecidableEq Vnode] [DecidableEq Thread] in
/-- What is called in a region does not take the mark away. -/
theorem MarksNested.marked {m : Option Cookie}
    {stack : List (Invocation (@KernelOp.Res Vnode) (Request Vnode) Int)}
    (h : MarksNested m stack) :
    ∀ v ∈ stack, ∀ o k, v.code = .call o k → 0 < openRegions v.log → m ≠ none := by
  induction stack generalizing m with
  | nil => simp
  | cons top stack ih =>
    obtain ⟨entry, hrest, hafter, halways⟩ := h
    intro v hv o k hcode hregion
    rw [← hafter]
    obtain rfl | hv := List.mem_cons.mp hv
    · rw [hcode] at halways
      exact halways.1.in_region hregion
    · have hentry : entry ≠ none := ih hrest v hv o k hcode hregion
      refine halways.now (I := fun log => Log.after KernelOp.mark entry log ≠ none)
        (fun _ h => h.recursive hentry) fun _ h => ?_
      rw [h]
      exact hentry

/-- In every reachable state the invocations of a thread are nested by their marks. -/
theorem marksNested_of_reachable {s : RedirectHooks Thread Vnode}
    (h : ReachableBy (redirectHookSystem Thread Vnode)
      (fun s a => AllocationsSucceed a ∧ NotNested s a) s)
    (t : Thread) : MarksNested (s.shared.marks.getDataByKey t) (s.stack t) := by
  refine h.nested (fun s t => s.marks.getDataByKey t) (fun s hs t => ?_) (fun e s t => ?_)
    (fun s t c o hok u => ?_) (fun request m => ?_) (fun s t c request o k log stack m hok hstack
      hafter => ?_) t
  · rw [hs.2, DataMap.getDataByKey_empty]
  · rw [marks_apply]
  · by_cases hu : u = t
    · subst hu
      rw [if_pos rfl, getDataByKey_effect_self _ _ _ hok.1.1]
    · rw [if_neg hu, getDataByKey_effect_of_ne hu]
  · exact (keepsMark_code request m [] ⟨rfl, rfl⟩).mono fun _ _ h => h.2
  · have hreturned := hok.2 _ (Threads.returned_call hstack)
    cases o with
    | cookieForRecursiveCall => exact hafter.symm
    | vnGetpath vp => exact hreturned
    | _ => trivial

/-- In every run in which create does not find the path of a shadow vnode, a thread is
marked at every call of a file system that it makes in a region, whatever else is run on
it in between, and no other thread changes its mark. -/
theorem regions_marked {s : RedirectHooks Thread Vnode}
    (h : ReachableBy (redirectHookSystem Thread Vnode)
      (fun s a => AllocationsSucceed a ∧ NotNested s a) s) :
    RegionsMarked s ∧ OthersKept s := by
  refine ⟨fun t v hv o k hcode _ hregion => ?_, othersKept s⟩
  exact (marksNested_of_reachable h t).marked v hv o k hcode hregion

-- ---------------------------------------------------------------------------
-- Create in a region
-- ---------------------------------------------------------------------------

def createRun (getpath : Int) (calls : Nat) : List (HooksAction Nat Nat) :=
  .start 0 createRequest :: List.replicate calls (.call 0 (answerAll getpath))

/-- In the run of create every call gets the same answers. -/
theorem answer_createRun {getpath : Int} {calls : Nat} {t : Nat} {c : Outcome Nat}
    (h : .call t c ∈ createRun getpath calls) : c = answerAll getpath := by
  simp only [createRun, List.mem_cons, List.mem_replicate, ThreadAction.call.injEq, reduceCtorEq,
    false_or] at h
  exact h.2.2

/-- In the run of create there is memory for every call. -/
theorem allocationsSucceed_createRun {getpath : Int} {calls : Nat} :
    ∀ a ∈ createRun getpath calls, AllocationsSucceed a := by
  intro a ha
  cases a with
  | call t c =>
    rw [answer_createRun ha]
    exact ⟨rfl, fun _ => Option.some_ne_none 0⟩
  | _ => trivial

/-- With `ENOENT` for the path of the shadow vnode the run meets the condition. -/
theorem notNested_createRun {calls : Nat} :
    ∀ a ∈ createRun ENOENT calls, ∀ s, NotNested s a := by
  intro a ha s call hcall _
  obtain ⟨t, c, request, o, rfl, rfl⟩ := Threads.mem_returned hcall
  obtain rfl := answer_createRun ha
  cases o with
  | vnGetpath vp => exact (by decide : ENOENT ≠ 0)
  | _ => trivial

/-- The path of the shadow vnode is found, and create closes the vnode without a mark. -/
theorem close_not_marked : ∃ s : RedirectHooks Nat Nat,
    ReachableBy (redirectHookSystem Nat Nat) (fun _ a => AllocationsSucceed a) s ∧
      ¬ RegionsMarked s := by
  have hrun : (exec (redirectHookSystem Nat Nat) unloaded (createRun 0 33)).any (fun s =>
      s.shared.marks.getDataByKey 0 == none && (s.stack 0).any fun v =>
        v.code.nextCall == some (.vnodeClose 4) && openRegions v.log == 1) = true := by
    decide +kernel
  obtain ⟨s, hs, hstate⟩ := (Option.any_eq_true _ _).mp hrun
  obtain ⟨hmark, hstack⟩ := Bool.and_eq_true_iff.mp hstate
  obtain ⟨v, hv, hcall⟩ := List.any_eq_true.mp hstack
  obtain ⟨hclose, hregion⟩ := Bool.and_eq_true_iff.mp hcall
  obtain ⟨k, hcode⟩ := Prog.nextCall_eq_some.mp (eq_of_beq hclose)
  refine ⟨s, reachable_unloaded.execAll _ (fun a ha _ => allocationsSucceed_createRun a ha) hs, ?_⟩
  refine fun h => h 0 v hv _ k hcode trivial ?_ (eq_of_beq hmark)
  rw [eq_of_beq hregion]
  exact one_pos

/-- The path is not found, and create closes the vnode in the region with the mark. -/
theorem close_marked : ∃ s : RedirectHooks Nat Nat, (RegionsMarked s ∧ OthersKept s) ∧
    ∃ v ∈ s.stack 0, v.code.nextCall = some (.vnodeClose 4) ∧ openRegions v.log = 1 := by
  have hrun : (exec (redirectHookSystem Nat Nat) unloaded (createRun ENOENT 17)).any (fun s =>
      (s.stack 0).any fun v =>
        v.code.nextCall == some (.vnodeClose 4) && openRegions v.log == 1) = true := by
    decide +kernel
  obtain ⟨s, hs, hstack⟩ := (Option.any_eq_true _ _).mp hrun
  obtain ⟨v, hv, hcall⟩ := List.any_eq_true.mp hstack
  obtain ⟨hclose, hregion⟩ := Bool.and_eq_true_iff.mp hcall
  refine ⟨s, regions_marked ?_, v, hv, eq_of_beq hclose, eq_of_beq hregion⟩
  exact reachable_unloaded.execAll _ (fun a ha s =>
    ⟨allocationsSucceed_createRun a ha, notNested_createRun a ha s⟩) hs

end VfsRedirector
