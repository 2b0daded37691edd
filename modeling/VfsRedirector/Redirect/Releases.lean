import VfsRedirector.Redirect.Ownership

/-!
# What the other hooks leave behind

Close, inactive, read, write, pagein, pageout, exchange, getattr and rename give
nothing to their caller: what they take, they give back on every path
(`owns_…`), and the vnodes of the request, which getattr and rename replace for
the calls they make, are those of the caller again when the hook returns.

## Results

* `owns_renameExit`, `owns_exchangeRedirectIo` — the ends of a rename and of an
  exchange.
* `hooks_release` — every hook gives back what it took, but for what it returns.
-/

namespace VfsRedirector

open Library Prog Kernel

variable {Vnode : Type}

-- ---------------------------------------------------------------------------
-- The requests
-- ---------------------------------------------------------------------------

/-- The vnodes of a request; `none` where it has no such field, and for `NULLVP`. -/
structure RequestVnodes (Vnode : Type) where
  a_vp : Option Vnode := none
  a_fvp : Option Vnode := none
  a_tvp : Option Vnode := none
  deriving DecidableEq

inductive HookRequest (Vnode : Type) where
  | close (a_vp : Vnode) (a_fflag : Int)
  | inactive (a_vp : Vnode)
  | read (ap : IoArgs Vnode)
  | write (ap : IoArgs Vnode)
  | pagein (ap : PagingArgs Vnode)
  | pageout (ap : PagingArgs Vnode)
  | exchange (ap : ExchangeArgs Vnode)
  | getattr (ap : GetattrArgs Vnode)
  /-- of a file that exists -/
  | rename (fvp : Vnode) (ap : RenameArgs Vnode) (hfvp : ap.a_fvp = some fvp)

def GetattrArgs.vnodes (ap : GetattrArgs Vnode) : RequestVnodes Vnode := { a_vp := some ap.a_vp }

def RenameArgs.vnodes (ap : RenameArgs Vnode) : RequestVnodes Vnode :=
  { a_fvp := ap.a_fvp, a_tvp := ap.a_tvp }

namespace HookRequest

def vnodes : HookRequest Vnode → RequestVnodes Vnode
  | close a_vp _ | inactive a_vp => { a_vp := some a_vp }
  | read ap | write ap => { a_vp := some ap.a_vp }
  | pagein ap | pageout ap => { a_vp := some ap.a_vp }
  | exchange ap => { a_fvp := some ap.a_fvp, a_tvp := some ap.a_tvp }
  | getattr ap => ap.vnodes
  | rename _ ap _ => ap.vnodes

/-- The hook for a request, with the vnodes that are in the request when it returns:
only getattr and rename write to it. -/
def run (ctx : VfsContext) (request : HookRequest Vnode) :
    Kernel Vnode (Int × RequestVnodes Vnode) :=
  match request with
  | close a_vp a_fflag => return (← qvrVnopCloseHookEx2 a_vp a_fflag, request.vnodes)
  | inactive a_vp => return (← qvrVnopInactiveHookEx2 a_vp, request.vnodes)
  | read ap => return (← qvrVnopReadHookEx2 ap, request.vnodes)
  | write ap => return (← qvrVnopWriteHookEx2 ap, request.vnodes)
  | pagein ap => return (← qvrVnopPageinHookEx2 ap, request.vnodes)
  | pageout ap => return (← qvrVnopPageoutHookEx2 ap, request.vnodes)
  | exchange ap => return (← qvrVnopExchangeHookEx2 ctx ap, request.vnodes)
  | getattr ap => do
    let (error, ap) ← qvrVnopGetattrHookEx2 ap
    return (error, ap.vnodes)
  | rename fvp ap _ => do
    let (error, ap) ← qvrVnopRenameHookEx2 ctx fvp ap
    return (error, ap.vnodes)

end HookRequest

variable [DecidableEq Vnode] {E : Int → Prop} {allow : KernelOp Vnode → Outcome Vnode → Prop}

-- ---------------------------------------------------------------------------
-- Close and inactive
-- ---------------------------------------------------------------------------

/-- What is called takes and gives nothing. -/
abbrev OwnsNothing {α : Type} (allow : KernelOp Vnode → Outcome Vnode → Prop) (p : Kernel Vnode α) :
    Prop :=
  Owns allow 0 p (fun _ => True) fun _ => 0

/-- A call that takes and gives nothing. -/
theorem owns_call {o : KernelOp Vnode} (h : o.Neutral) :
    OwnsNothing allow (.perform o : Kernel Vnode o.Res) :=
  owns_neutral (.perform h) (.trivial _)

/-- Close puts the backing vnode it has looked up. -/
theorem owns_qvrVnopCloseHookEx2 (a_vp : Vnode) (a_fflag : Int) :
    OwnsNothing allow (qvrVnopCloseHookEx2 a_vp a_fflag) := by
  refine .bind (owns_getVnodeIoRef _) fun vnodeIo _ => ?_
  cases vnodeIo with
  | none => exact .conseq (owns_call trivial) fun _ _ => ⟨trivial, by simp⟩
  | some vnodeIo =>
    refine .bind (owns_call trivial) fun _ _ => .bind (owns_vnodePut _) fun _ _ => ?_
    exact .conseq (owns_call trivial) fun _ _ => ⟨trivial, by abel⟩

/-- Inactive puts it after its entry is removed. -/
theorem owns_qvrVnopInactiveHookEx2 (a_vp : Vnode) :
    OwnsNothing allow (qvrVnopInactiveHookEx2 a_vp) := by
  refine .bind (owns_getVnodeIoRef _) fun vnodeIo _ => ?_
  cases vnodeIo with
  | none => exact .conseq (owns_call trivial) fun _ _ => ⟨trivial, by simp⟩
  | some vnodeIo =>
    refine .bind (owns_call trivial) fun _ _ => .bind (owns_call trivial) fun _ _ => ?_
    refine .bind (owns_call trivial) fun _ _ => .bind (owns_vnodePut _) fun _ _ => ?_
    exact .conseq (owns_call trivial) fun _ _ => ⟨trivial, by abel⟩

-- ---------------------------------------------------------------------------
-- Read and write
-- ---------------------------------------------------------------------------

/-- The sizes are read and set without a reference. -/
theorem owns_thenAdjustSize (vnode vnodeIo : Vnode) (context : Context)
    {backingVnop : Kernel Vnode Int} (hvnop : OwnsNothing allow backingVnop) :
    OwnsNothing allow (thenAdjustSize vnode vnodeIo context backingVnop) := by
  refine .bind hvnop fun error _ => ?_
  split
  · refine .bind (owns_caching (calls_qvrAdjustVnodeSizeByBackingVnode _ _ _)) fun _ _ => ?_
    exact .pure trivial (by abel)
  · exact .pure trivial (by abel)

section Calls

variable (hallow : ∀ o c, allow o c → Documented E o c)
include hallow

/-- The hook for I/O holds the backing vnode it is given, and nothing else. -/
theorem owns_backingVnodeForIo (op : HookedOp) (a_vp : Vnode) :
    Owns allow 0 (backingVnodeForIo op a_vp) (fun _ => True) Held.iocount := by
  refine .bind (owns_call trivial) fun appData _ => ?_
  cases appData with
  | none => exact .pure trivial (by simp)
  | some appData =>
    refine .bind owns_isRecursiveCallOrUserClient fun skip _ => ?_
    split
    · exact .pure trivial (by simp)
    · refine .bind (owns_call trivial) fun _ _ => ?_
      exact (owns_qvrGetBackingVnodeForRedirectedIo hallow _ _ _).conseq
        fun _ _ => ⟨trivial, by abel⟩

/-- The backing vnode is put when the operation on it has returned. -/
theorem owns_withBackingVnode {op : HookedOp} {a_vp : Vnode}
    {hook : Option Vnode → Kernel Vnode Int} (hnone : OwnsNothing allow (hook none))
    (hsome : ∀ vnodeIo, Owns allow (Held.iocount (some vnodeIo)) (hook (some vnodeIo))
      (fun _ => True) fun _ => 0) :
    OwnsNothing allow (backingVnodeForIo op a_vp >>= hook) := by
  refine .bind (owns_backingVnodeForIo hallow _ _) fun vnodeIo _ => ?_
  cases vnodeIo with
  | none => exact hnone.conseq fun _ _ => ⟨trivial, by simp⟩
  | some vnodeIo => exact (hsome vnodeIo).conseq fun _ _ => ⟨trivial, by abel⟩

/-- Read puts the backing vnode when the read has returned. -/
theorem owns_qvrVnopReadHookEx2 (ap : IoArgs Vnode) :
    OwnsNothing allow (qvrVnopReadHookEx2 ap) := by
  refine owns_withBackingVnode hallow (owns_call trivial) fun vnodeIo => ?_
  refine .bind (owns_inRecursiveCall (owns_call trivial)) fun error _ => ?_
  exact .bind (owns_vnodePut _) fun _ _ => .pure trivial (by abel)

/-- Write puts it when the sizes are adjusted. -/
theorem owns_qvrVnopWriteHookEx2 (ap : IoArgs Vnode) :
    OwnsNothing allow (qvrVnopWriteHookEx2 ap) := by
  refine owns_withBackingVnode hallow (owns_call trivial) fun vnodeIo => ?_
  refine .bind (owns_inRecursiveCall (owns_thenAdjustSize _ _ _ (owns_call trivial)))
    fun error _ => ?_
  exact .bind (owns_vnodePut _) fun _ _ => .pure trivial (by abel)

-- ---------------------------------------------------------------------------
-- Pageout and pagein
-- ---------------------------------------------------------------------------

omit hallow in
/-- A UPL is no iocount and no buffer. -/
theorem owns_abortIfMustCommit (upl : Option Nat) (apIo : PagingArgs Vnode) :
    OwnsNothing allow (abortIfMustCommit upl apIo) := by
  unfold abortIfMustCommit
  split
  · split
    · exact owns_call trivial
    · exact .pure trivial rfl
  · exact .pure trivial rfl

omit hallow in
/-- Paging out to the backing vnode takes nothing. -/
theorem owns_pageoutToBackingVnode (ap apIo : PagingArgs Vnode) (vnodeIo : Vnode)
    (upl : Option Nat) : OwnsNothing allow (pageoutToBackingVnode ap apIo vnodeIo upl) := by
  refine .bind (owns_inRecursiveCall (owns_thenAdjustSize _ _ _ (owns_call trivial)))
    fun error _ => ?_
  have habort : ∀ error : Int, OwnsNothing allow (do
      abortIfMustCommit upl apIo
      Pure.pure error) :=
    fun _ => .bind (owns_abortIfMustCommit _ _) fun _ _ => .pure trivial (by abel)
  dsimp only
  split
  · refine .bind (owns_caching (calls_writePages _ _ _)) fun error _ => ?_
    exact (habort error).conseq fun _ _ => ⟨trivial, by abel⟩
  · exact (habort error).conseq fun _ _ => ⟨trivial, by abel⟩

omit hallow in
/-- Paging out takes nothing either if it needs a UPL first. -/
theorem owns_pageoutBacking (ap : PagingArgs Vnode) (vnodeIo : Vnode) :
    OwnsNothing allow (pageoutBacking ap vnodeIo) := by
  refine .bind (owns_call trivial) fun flags _ => ?_
  dsimp only
  split
  · refine .bind (owns_call trivial) fun r _ => ?_
    obtain ⟨error, upl⟩ := r
    dsimp only
    split
    · exact (owns_pageoutToBackingVnode _ _ _ _).conseq fun _ _ => ⟨trivial, by abel⟩
    · exact .bind (owns_abortIfMustCommit _ _) fun _ _ => .pure trivial (by abel)
  · exact (owns_pageoutToBackingVnode _ _ _ _).conseq fun _ _ => ⟨trivial, by abel⟩

/-- Pageout puts the backing vnode on both ways. -/
theorem owns_qvrVnopPageoutHookEx2 (ap : PagingArgs Vnode) :
    OwnsNothing allow (qvrVnopPageoutHookEx2 ap) := by
  refine owns_withBackingVnode hallow ?_ fun vnodeIo => ?_
  · exact .bind (owns_call trivial) fun _ _ => .pure trivial (by abel)
  · refine .bind (owns_pageoutBacking _ _) fun error _ => ?_
    exact .bind (owns_vnodePut _) fun _ _ => .pure trivial (by abel)

omit hallow in
/-- Paging in from the backing vnode takes nothing. -/
theorem owns_pageinFromBackingVnode (ap apIo : PagingArgs Vnode) (vnodeIo : Vnode)
    (upl : Option Nat) : OwnsNothing allow (pageinFromBackingVnode ap apIo vnodeIo upl) := by
  refine .bind (owns_inRecursiveCall (owns_call trivial)) fun error _ => ?_
  have habort : ∀ error : Int, OwnsNothing allow (do
      abortIfMustCommit upl apIo
      Pure.pure error) :=
    fun _ => .bind (owns_abortIfMustCommit _ _) fun _ _ => .pure trivial (by abel)
  dsimp only
  split
  · refine .bind (owns_caching (calls_readInCache ..)) fun error _ => ?_
    exact (habort error).conseq fun _ _ => ⟨trivial, by abel⟩
  · exact (habort error).conseq fun _ _ => ⟨trivial, by abel⟩

omit hallow in
/-- With a UPL it takes nothing either. -/
theorem owns_pageinBacking (ap : PagingArgs Vnode) (vnodeIo : Vnode) :
    OwnsNothing allow (pageinBacking ap vnodeIo) := by
  refine .bind (owns_call trivial) fun flags _ => ?_
  dsimp only
  split
  · refine .bind (owns_call trivial) fun r _ => ?_
    obtain ⟨error, upl⟩ := r
    dsimp only
    split
    · exact (owns_pageinFromBackingVnode _ _ _ _).conseq fun _ _ => ⟨trivial, by abel⟩
    · exact .bind (owns_abortIfMustCommit _ _) fun _ _ => .pure trivial (by abel)
  · exact (owns_pageinFromBackingVnode _ _ _ _).conseq fun _ _ => ⟨trivial, by abel⟩

/-- What follows the original pagein holds the backing vnode until its end. -/
theorem owns_pageinRedirected (ap : PagingArgs Vnode) (appData : Option ApplicationData) :
    OwnsNothing allow (pageinRedirected ap appData) := by
  cases appData with
  | none => exact .pure trivial rfl
  | some appData =>
    refine .bind (owns_call trivial) fun _ _ => ?_
    refine .bind (owns_qvrGetBackingVnodeForRedirectedIo hallow _ _ _) fun vnodeIo _ => ?_
    cases vnodeIo with
    | none => exact .pure trivial (by simp)
    | some vnodeIo =>
      have hput : ∀ error : Int, Owns allow (Held.iocount (some vnodeIo)) (do
          vnodePut vnodeIo
          Pure.pure error) (fun _ => True) fun _ => 0 :=
        fun _ => .bind (owns_vnodePut _) fun _ _ => .pure trivial (by abel)
      dsimp only
      split
      · refine .bind (owns_pageinBacking _ _) fun error _ => ?_
        exact (hput error).conseq fun _ _ => ⟨trivial, by abel⟩
      · refine .bind (owns_caching (calls_readInCache ..)) fun error _ => ?_
        exact (hput error).conseq fun _ _ => ⟨trivial, by abel⟩

omit hallow in
/-- The question about the daemon takes nothing. -/
theorem owns_orUserClient (condition : Bool) :
    OwnsNothing allow (orUserClient condition) := by
  unfold orUserClient
  split
  · exact .pure trivial rfl
  · exact owns_call trivial

/-- Pagein holds nothing when it returns, also where the original fails. -/
theorem owns_qvrVnopPageinHookEx2 (ap : PagingArgs Vnode) :
    OwnsNothing allow (qvrVnopPageinHookEx2 ap) := by
  refine .bind (owns_call trivial) fun cookie _ => .bind (owns_call trivial) fun appData _ => ?_
  refine .bind (owns_orUserClient _) fun callOriginal _ => ?_
  have hredirected : ∀ error : Int, OwnsNothing allow (do
      let done ← orUserClient (error ≠ 0 || cookie.isSome)
      if done then Pure.pure error else pageinRedirected ap appData) := by
    intro error
    refine .bind (owns_orUserClient _) fun done _ => ?_
    split
    · exact .pure trivial (by abel)
    · exact (owns_pageinRedirected hallow _ _).conseq fun _ _ => ⟨trivial, by abel⟩
  dsimp only
  split
  · refine .bind (owns_call trivial) fun error _ => ?_
    exact (hredirected error).conseq fun _ _ => ⟨trivial, by abel⟩
  · exact (hredirected 0).conseq fun _ _ => ⟨trivial, by abel⟩

-- ---------------------------------------------------------------------------
-- Exchange
-- ---------------------------------------------------------------------------

omit hallow in
/-- A buffer for a path is freed with the size it was allocated with. -/
theorem owns_freeIfAny (addr : Option Nat) :
    Owns allow (Held.memory addr MAXPATHLEN) (freeIfAny addr) (fun _ => True)
      fun _ => 0 := by
  cases addr with
  | none => exact .pure trivial (Held.memory_none _).symm
  | some addr => exact owns_ioFree addr MAXPATHLEN

omit hallow in
/-- The path is written to a buffer that is there. -/
theorem owns_getpathUnless (error : Int) (vp : Vnode) :
    OwnsNothing allow (getpathUnless error vp) := by
  unfold getpathUnless
  split
  · exact .pure trivial rfl
  · exact owns_call trivial

omit hallow in
/-- Both buffers are freed, if they were allocated. -/
theorem owns_exchangeBacking (backingFvp backingTvp : Vnode) :
    OwnsNothing allow (exchangeBacking backingFvp backingTvp) := by
  refine .bind (owns_ioMalloc _) fun fromBuffer _ => .bind (owns_ioMalloc _) fun toBuffer _ => ?_
  refine .bind (owns_getpathUnless _ _) fun r _ => ?_
  obtain ⟨error, fromPath⟩ := r
  refine .bind (owns_getpathUnless _ _) fun r _ => ?_
  obtain ⟨error, toPath⟩ := r
  have hfree : Owns allow (Held.memory fromBuffer MAXPATHLEN + Held.memory toBuffer MAXPATHLEN) (do
      freeIfAny fromBuffer
      freeIfAny toBuffer
      Pure.pure error) (fun _ => True) fun _ => 0 := by
    refine .bind (owns_freeIfAny _) fun _ _ => .bind (owns_freeIfAny _) fun _ _ => ?_
    exact .pure trivial (by abel)
  dsimp only
  split
  · refine .bind (owns_call trivial) fun _ _ => ?_
    exact hfree.conseq fun _ _ => ⟨trivial, by abel⟩
  · exact hfree.conseq fun _ _ => ⟨trivial, by abel⟩

omit hallow in
/-- The second backing vnode is looked up only if the first one is there. -/
theorem owns_exchangeRedirectIo (ap : ExchangeArgs Vnode) :
    OwnsNothing allow (exchangeRedirectIo ap) := by
  -- however far the hook came, its end puts what it has
  have hexit : ∀ (backingFvp backingTvp : Option Vnode) (error : Int),
      Owns allow (Held.iocount backingFvp + Held.iocount backingTvp) (do
        let error ← if error = 0 then vnopExchange ap else Pure.pure error
        putIfAny backingFvp
        putIfAny backingTvp
        Pure.pure error) (fun _ => True) fun _ => 0 := by
    intro backingFvp backingTvp error
    have hput : ∀ error : Int, Owns allow (Held.iocount backingFvp + Held.iocount backingTvp) (do
        putIfAny backingFvp
        putIfAny backingTvp
        Pure.pure error) (fun _ => True) fun _ => 0 := by
      intro error
      refine .bind (owns_putIfAny _) fun _ _ => .bind (owns_putIfAny _) fun _ _ => ?_
      exact .pure trivial (by abel)
    dsimp only
    split
    · refine .bind (owns_call trivial) fun error _ => ?_
      exact (hput error).conseq fun _ _ => ⟨trivial, by abel⟩
    · exact hput error
  refine .bind (owns_getVnodeIoRef _) fun backingFvp _ => ?_
  cases backingFvp with
  | none => exact (hexit none none 0).conseq fun _ _ => ⟨trivial, by simp⟩
  | some backingFvp =>
    refine .bind (owns_getVnodeIoRef _) fun backingTvp _ => ?_
    cases backingTvp with
    | none => exact (hexit (some backingFvp) none 0).conseq fun _ _ => ⟨trivial, by simp⟩
    | some backingTvp =>
      refine .bind (owns_exchangeBacking _ _) fun error _ => ?_
      exact (hexit (some backingFvp) (some backingTvp) error).conseq
        fun _ _ => ⟨trivial, by abel⟩

omit hallow in
/-- Exchange puts the backing vnodes it has looked up. -/
theorem owns_qvrVnopExchangeHookEx2 (ctx : VfsContext) (ap : ExchangeArgs Vnode) :
    OwnsNothing allow (qvrVnopExchangeHookEx2 ctx ap) := by
  refine .bind (owns_call trivial) fun appDataVnode _ => ?_
  split
  · exact .conseq (owns_call trivial) fun _ _ => ⟨trivial, by abel⟩
  · split
    · exact .conseq (owns_call trivial) fun _ _ => ⟨trivial, by abel⟩
    · refine .bind owns_isRecursiveCallOrUserClient fun skip _ => ?_
      split
      · exact .conseq (owns_call trivial) fun _ _ => ⟨trivial, by abel⟩
      · exact (owns_exchangeRedirectIo ap).conseq fun _ _ => ⟨trivial, by abel⟩

-- ---------------------------------------------------------------------------
-- Getattr
-- ---------------------------------------------------------------------------

omit hallow in
/-- The backing vnode is put after its attributes were asked. -/
theorem owns_adjustSizes (shadowVp : Vnode) (a_vap : VnodeAttr) :
    OwnsNothing allow (adjustSizes shadowVp a_vap) := by
  refine .bind (owns_getVnodeIoRef _) fun backingVnodeRef _ => ?_
  cases backingVnodeRef with
  | none => exact .pure trivial (by simp)
  | some backingVnodeRef =>
    have hput : ∀ a_vap : VnodeAttr, Owns allow (Held.iocount (some backingVnodeRef)) (do
        vnodePut backingVnodeRef
        Pure.pure a_vap) (fun _ => True) fun _ => 0 :=
      fun _ => .bind (owns_vnodePut _) fun _ _ => .pure trivial (by abel)
    refine .bind (owns_call trivial) fun va _ => ?_
    dsimp only
    split
    · exact (hput a_vap).conseq fun _ _ => ⟨trivial, by abel⟩
    · refine .bind (owns_call trivial) fun r _ => ?_
      obtain ⟨attrError, va⟩ := r
      exact (hput _).conseq fun _ _ => ⟨trivial, by abel⟩

omit hallow in
/-- The request as it is keeps its vnode. -/
theorem owns_getattrOriginal (ap : GetattrArgs Vnode) :
    Owns allow 0 (getattrOriginal ap) (fun r => r.2.a_vp = ap.a_vp) fun _ => 0 :=
  .bind (owns_call trivial) fun _ _ => .pure rfl (by abel)

omit hallow in
/-- In the region getattr takes the backing vnode and puts it. -/
theorem owns_getattrOfReal (shadowVp realVnodeRef : Vnode) (ap : GetattrArgs Vnode) :
    OwnsNothing allow (getattrOfReal shadowVp realVnodeRef ap) := by
  refine .bind (owns_call trivial) fun r _ => ?_
  obtain ⟨error, a_vap⟩ := r
  dsimp only
  split
  · exact .pure trivial (by abel)
  · exact .bind (owns_adjustSizes _ _) fun _ _ => .pure trivial (by abel)

omit hallow in
/-- `ap->a_vp` is the shadow vnode again. -/
theorem owns_qvrVnopGetattrHookEx2 (ap : GetattrArgs Vnode) :
    Owns allow 0 (qvrVnopGetattrHookEx2 ap) (fun r => r.2.a_vp = ap.a_vp) fun _ => 0 := by
  refine .bind (owns_getVnodeShadowReverseRef _) fun realVnodeRef _ => ?_
  cases realVnodeRef with
  | none => exact (owns_getattrOriginal ap).conseq fun _ h => ⟨h, by simp⟩
  | some realVnodeRef =>
    refine .bind owns_isRecursiveCallOrUserClient fun skip _ => ?_
    split
    · refine .bind (owns_vnodePut _) fun _ _ => ?_
      exact (owns_getattrOriginal ap).conseq fun _ h => ⟨h, by abel⟩
    · refine .bind (owns_inRecursiveCall (owns_getattrOfReal _ _ _)) fun _ _ => ?_
      exact .bind (owns_vnodePut _) fun _ _ => .pure rfl (by abel)

-- ---------------------------------------------------------------------------
-- Rename
-- ---------------------------------------------------------------------------

/-- The buffers of all paths. -/
def pathsHeld (paths : List PathBuffer) : Held Vnode :=
  (paths.map fun path => Held.path (some path)).sum

omit [DecidableEq Vnode] hallow in
/-- The buffers of a list are that of its head and those of its tail. -/
theorem pathsHeld_cons (path : PathBuffer) (paths : List PathBuffer) :
    (pathsHeld (path :: paths) : Held Vnode) = Held.path (some path) + pathsHeld paths := by
  rw [pathsHeld, List.map_cons, List.sum_cons, pathsHeld]

omit [DecidableEq Vnode] hallow in
/-- The exit of rename frees the last paths first, which are the same buffers. -/
theorem pathsHeld_take_drop (n : Nat) (paths : List PathBuffer) :
    (pathsHeld (paths.take n) + pathsHeld (paths.drop n) : Held Vnode) = pathsHeld paths := by
  rw [pathsHeld, pathsHeld, pathsHeld, ← List.sum_append, ← List.map_append,
    List.take_append_drop]

omit hallow in
/-- Freeing all paths leaves nothing. -/
theorem owns_freePaths (paths : List PathBuffer) :
    Owns allow (pathsHeld paths) (freePaths paths) (fun _ => True)
      fun _ => 0 := by
  induction paths with
  | nil => exact .pure trivial rfl
  | cons path paths ih =>
    refine .bind (owns_freePath (some path)) fun _ _ => ?_
    refine ih.conseq fun _ _ => ⟨trivial, ?_⟩
    rw [pathsHeld_cons]
    abel

omit hallow in
/-- The path between the two conversions is freed, and the result is held. -/
theorem owns_convertToShadowAndThenRedirectedPath (path redirectedDir : List UInt8) :
    Owns allow 0 (convertToShadowAndThenRedirectedPath path redirectedDir)
      (fun _ => True) (Held.path ·.2) := by
  refine .bind (owns_convertToShadowCopyPath _) ?_
  rintro _ (rfl | ⟨shadowPath, rfl, -⟩)
  · exact .pure trivial (by simp)
  · refine .bind (owns_convertToRedirectedPath _ _) fun r _ => ?_
    exact .bind (owns_freePath _) fun _ _ => .pure trivial (by abel)

omit hallow in
/-- The paths that were converted before one fails are in the result. -/
theorem owns_convertPaths {conversions : List (Kernel Vnode (Int × Option PathBuffer))}
    (h : ∀ conversion ∈ conversions, Owns allow 0 conversion (fun _ => True) (Held.path ·.2)) :
    Owns allow 0 (convertPaths conversions) (fun _ => True) (pathsHeld ·.2) := by
  induction conversions with
  | nil => exact .pure trivial rfl
  | cons conversion conversions ih =>
    rw [List.forall_mem_cons] at h
    refine .bind h.1 fun r _ => ?_
    obtain ⟨error, path⟩ := r
    cases path with
    | none => exact .pure trivial (by simp [pathsHeld])
    | some path =>
      refine .bind (ih h.2) fun r _ => .pure trivial ?_
      rw [pathsHeld_cons]
      abel

omit hallow in
/-- Each of the eight conversions holds its result. -/
theorem owns_renameConversions (appData : ApplicationData) (ap : RenameArgs Vnode) :
    ∀ conversion ∈ renameConversions appData ap,
      Owns allow 0 conversion (fun _ => True) (Held.path ·.2) := by
  have hshadow : ∀ path, Owns allow 0 (convertToShadowCopyPath path)
      (fun _ => True) (Held.path ·.2) :=
    fun path => (owns_convertToShadowCopyPath path).conseq fun _ _ => ⟨trivial, by simp⟩
  have hredirected := @owns_convertToShadowAndThenRedirectedPath Vnode _ allow
  simp only [renameConversions, List.forall_mem_cons]
  exact ⟨hredirected _ _, hredirected _ _, hredirected _ _, hredirected _ _, hshadow _, hshadow _,
    hshadow _, hshadow _, by simp⟩

/-- What `__exit` puts. -/
def RenameLocals.held (l : RenameLocals Vnode) : Held Vnode :=
  Held.iocount l.a_fdvp + Held.iocount l.a_fvp + Held.iocount l.a_tdvp + Held.iocount l.a_tvp +
    Held.iocount l.originalFvp + Held.iocount l.originalTvp + Held.iocount l.newFvp +
    Held.iocount l.newTvp

omit hallow in
/-- The exit of rename puts and frees whatever the locals have, and gives the request its vnodes
back. -/
theorem owns_renameExit (ap : RenameArgs Vnode) (error : Int) (paths : List PathBuffer)
    (l : RenameLocals Vnode) :
    Owns allow (pathsHeld paths + l.held) (renameExit ap error paths l)
      (fun r => r.2.vnodes = { a_fvp := l.oldFvp.or ap.a_fvp, a_tvp := l.oldTvp.or ap.a_tvp })
      fun _ => 0 := by
  -- what the lookups got is put, and both halves of the paths are freed
  have hput : Owns allow (pathsHeld paths + l.held) (do
      putIfAny l.a_fdvp
      putIfAny l.a_fvp
      putIfAny l.a_tdvp
      putIfAny l.a_tvp
      freePaths (paths.drop 4)
      freePaths (paths.take 4)
      putIfAny l.originalFvp
      putIfAny l.originalTvp
      putIfAny l.newFvp
      putIfAny l.newTvp
      Pure.pure (error, { ap with a_fvp := l.oldFvp.or ap.a_fvp, a_tvp := l.oldTvp.or ap.a_tvp }))
      (fun r => r.2.vnodes = { a_fvp := l.oldFvp.or ap.a_fvp, a_tvp := l.oldTvp.or ap.a_tvp })
      fun _ => 0 := by
    refine .bind (owns_putIfAny _) fun _ _ => .bind (owns_putIfAny _) fun _ _ => ?_
    refine .bind (owns_putIfAny _) fun _ _ => .bind (owns_putIfAny _) fun _ _ => ?_
    refine .bind (owns_freePaths _) fun _ _ => .bind (owns_freePaths _) fun _ _ => ?_
    refine .bind (owns_putIfAny _) fun _ _ => .bind (owns_putIfAny _) fun _ _ => ?_
    refine .bind (owns_putIfAny _) fun _ _ => .bind (owns_putIfAny _) fun _ _ => ?_
    refine .pure rfl ?_
    rw [← pathsHeld_take_drop 4 paths, RenameLocals.held]
    abel
  refine .bind (owns_call trivial) fun _ _ => ?_
  dsimp only
  split
  · refine .bind (owns_call trivial) fun _ _ => ?_
    exact hput.conseq fun _ h => ⟨h, by abel⟩
  · exact hput.conseq fun _ h => ⟨h, by abel⟩

/-- A lookup in a region holds the vnode it gives, and none if it fails. -/
theorem owns_lookupIn (cookie : Cookie) (path : List UInt8) (context : Context) :
    Owns allow 0 (inRecursiveCall cookie (vnodeLookup path context)) (Gives E)
      (Held.iocount ·.2) :=
  owns_inRecursiveCall (owns_vnodeLookup hallow _ _)

/-! ### Without `redirectIO` -/

/-- There is an original target only if the request has a target. -/
theorem owns_lookupOriginalTarget (ap : RenameArgs Vnode) :
    Owns allow 0 (lookupOriginalTarget ap)
      (fun r => (r.2.bind fun _ => ap.a_tvp).or (r.2.or ap.a_tvp) = ap.a_tvp)
      (Held.iocount ·.2) := by
  unfold lookupOriginalTarget
  split
  · next tvp htvp =>
    refine (owns_lookupIn hallow _ _ _).conseq fun r _ => ⟨?_, by abel⟩
    rw [htvp]
    cases r.2 <;> rfl
  · exact .pure rfl (by simp)

/-- The vnodes of the request are replaced for the original operation only. -/
theorem owns_renameOriginal {fvp : Vnode} {ap : RenameArgs Vnode} (hfvp : ap.a_fvp = some fvp) :
    Owns allow 0 (renameOriginal fvp ap) (fun r => r.2.vnodes = ap.vnodes) fun _ => 0 := by
  refine .bind (owns_lookupIn hallow _ _ _) fun r _ => ?_
  obtain ⟨error, newFvp⟩ := r
  dsimp only
  split
  · refine (owns_renameExit _ _ _ _).conseq fun r hr => ⟨hr, ?_⟩
    simp [pathsHeld, RenameLocals.held]
  · refine .bind (owns_lookupOriginalTarget hallow ap) fun r htvp => ?_
    obtain ⟨error, newTvp⟩ := r
    dsimp only
    split
    · exact (owns_renameExit _ _ _ _).conseq
        fun r hr => ⟨hr, by simp [pathsHeld, RenameLocals.held]⟩
    · refine .bind (owns_call trivial) fun error _ => ?_
      refine (owns_renameExit _ _ _ _).conseq fun r hr => ⟨hr.trans ?_, ?_⟩
      · have hor : ap.a_fvp.or newFvp = ap.a_fvp := by rw [hfvp, Option.some_or]
        exact congrArg₂
          (fun a_fvp a_tvp : Option Vnode => (⟨none, a_fvp, a_tvp⟩ : RequestVnodes Vnode)) hor htvp
      · simp [pathsHeld, RenameLocals.held]

/-! ### With `redirectIO` -/

/-- The result of a lookup, in the locals. -/
def RenameLocals.Found (r : Int × RenameLocals Vnode) : Prop :=
  r.2.oldFvp = none ∧ r.2.oldTvp = none

/-- The leftover target is put, or is kept in the locals with a reference of its own. -/
theorem owns_lookupLeftoverTarget (ap : RenameArgs Vnode) (redirectedTvp : Vnode)
    {l : RenameLocals Vnode} (htvp : l.a_tvp = none) :
    Owns allow (Held.iocount (some redirectedTvp) + l.held)
      (lookupLeftoverTarget ap redirectedTvp l)
      (fun l' => l'.oldFvp = l.oldFvp ∧ l'.oldTvp = l.oldTvp) RenameLocals.held := by
  refine .bind (owns_lookupIn hallow _ _ _) ?_
  rintro _ (⟨originalTvp, rfl⟩ | ⟨error, herror, -, rfl⟩)
  · refine .bind (owns_putIfAny _) fun _ _ => .bind (owns_vnodePut _) fun _ _ => ?_
    exact .pure ⟨rfl, rfl⟩ (by abel)
  · dsimp only
    split
    · exact absurd rfl herror
    · refine .bind (owns_inRecursiveCall (owns_call trivial)) fun _ _ => ?_
      refine .bind (owns_vnodeGet _) fun _ _ => .bind (owns_vnodePut _) fun _ _ => ?_
      refine .pure ⟨rfl, rfl⟩ ?_
      simp [RenameLocals.held, htvp]
      abel

/-- The target vnodes that are found are in the locals. -/
theorem owns_lookupTargets (ap : RenameArgs Vnode) (toRedirectedFilePath : List UInt8)
    {l : RenameLocals Vnode} (hl : l.oldFvp = none ∧ l.oldTvp = none) (htvp : l.a_tvp = none)
    (horiginal : l.originalTvp = none) :
    Owns allow l.held (lookupTargets ap toRedirectedFilePath l) RenameLocals.Found
      (·.2.held) := by
  unfold lookupTargets
  -- with a target vnode both are looked up; without one there may be a leftover
  split
  · refine .bind (owns_lookupIn hallow _ _ _) fun r _ => ?_
    obtain ⟨error, a_tvp⟩ := r
    have hheld : { l with a_tvp }.held = l.held + Held.iocount a_tvp := by
      simp only [RenameLocals.held, htvp, Held.iocount_none]
      abel
    dsimp only
    split
    · exact .pure hl (by rw [hheld]; abel)
    · refine .bind (owns_lookupIn hallow _ _ _) fun r _ => ?_
      obtain ⟨error, originalTvp⟩ := r
      refine .pure hl ?_
      simp only [RenameLocals.held, htvp, horiginal, Held.iocount_none]
      abel
  · refine .bind (owns_lookupIn hallow _ _ _) ?_
    rintro _ (⟨redirectedTvp, rfl⟩ | ⟨error, herror, -, rfl⟩)
    · refine .bind (owns_lookupLeftoverTarget hallow ap redirectedTvp htvp) fun l' hl' => ?_
      exact .pure ⟨hl'.1.trans hl.1, hl'.2.trans hl.2⟩ (by abel)
    · dsimp only
      split
      · simp_all
      · exact .pure hl (by simp)

/-- Each lookup adds its vnode to the locals, also where it fails. -/
theorem owns_lookupRenamed (appData : ApplicationData) (ap : RenameArgs Vnode)
    (fromRedirectedFilePath toRedirectedFilePath : List UInt8) :
    Owns allow 0 (lookupRenamed appData ap fromRedirectedFilePath toRedirectedFilePath)
      RenameLocals.Found (·.2.held) := by
  refine .bind (owns_lookupIn hallow _ _ _) fun r _ => ?_
  obtain ⟨error, a_fdvp⟩ := r
  dsimp only
  split
  · exact .pure ⟨rfl, rfl⟩ (by simp [RenameLocals.held])
  · refine .bind (owns_lookupIn hallow _ _ _) fun r _ => ?_
    obtain ⟨error, a_tdvp⟩ := r
    dsimp only
    split
    · exact .pure ⟨rfl, rfl⟩ (by simp [RenameLocals.held])
    · refine .bind (owns_lookupIn hallow _ _ _) fun r _ => ?_
      obtain ⟨error, a_fvp⟩ := r
      dsimp only
      split
      · exact .pure ⟨rfl, rfl⟩ (by simp [RenameLocals.held]; abel)
      · refine .bind (owns_lookupIn hallow _ _ _) fun r _ => ?_
        obtain ⟨error, originalFvp⟩ := r
        dsimp only
        split
        · exact .pure ⟨rfl, rfl⟩ (by simp [RenameLocals.held]; abel)
        · refine (owns_lookupTargets hallow _ _ ⟨rfl, rfl⟩ rfl rfl).conseq fun _ h => ⟨h, ?_⟩
          simp [RenameLocals.held]
          abel

omit [DecidableEq Vnode] hallow in
/-- The renames take and give nothing. -/
theorem calls_renameAll (fvp : Vnode) (apRedirected apShadow apOriginal : RenameArgs Vnode) :
    (renameAll fvp apRedirected apShadow apOriginal).Calls KernelOp.Neutral := by
  have hdone : (renameDone fvp apOriginal.a_fvp).Calls KernelOp.Neutral := by
    refine .bind (.perform trivial) fun _ => .bind (.perform trivial) fun _ => ?_
    refine .bind ?_ fun _ => .pure
    unfold purgeOriginal
    split
    · exact .pure
    · exact .perform trivial
  unfold renameAll
  split
  · exact .pure
  · refine .bind (.perform trivial) fun error => ?_
    split
    · exact .pure
    · refine .bind (.perform trivial) fun error => ?_
      split
      · exact .pure
      · refine .bind (.perform trivial) fun error => ?_
        split
        · exact .pure
        · exact hdone

/-- With `redirectIO` everything that was looked up and converted goes through the exit. -/
theorem owns_renameRedirectIo (appData : ApplicationData) (fvp : Vnode) (ap : RenameArgs Vnode) :
    Owns allow 0 (renameRedirectIo appData fvp ap) (fun r => r.2.vnodes = ap.vnodes)
      fun _ => 0 := by
  have hexit : ∀ (error : Int) (paths : List PathBuffer) (l : RenameLocals Vnode),
      l.oldFvp = none ∧ l.oldTvp = none →
        Owns allow (pathsHeld paths + l.held) (renameExit ap error paths l)
          (fun r => r.2.vnodes = ap.vnodes) fun _ => 0 := by
    intro error paths l hl
    refine (owns_renameExit ap error paths l).conseq fun r hr => ⟨hr.trans ?_, by abel⟩
    rw [hl.1, hl.2, Option.none_or, Option.none_or, RenameArgs.vnodes]
  refine .bind (owns_convertPaths (owns_renameConversions appData ap)) fun r _ => ?_
  obtain ⟨error, paths⟩ := r
  dsimp only
  split
  · refine .bind (owns_lookupRenamed hallow _ _ _ _) fun r hl => ?_
    obtain ⟨error, l⟩ := r
    dsimp only
    split
    · exact (hexit _ _ l hl).conseq fun _ h => ⟨h, by abel⟩
    · refine .bind (owns_inRecursiveCall (owns_neutral (calls_renameAll _ _ _ _) (.trivial _)))
        fun error _ => ?_
      exact (hexit _ _ l hl).conseq fun _ h => ⟨h, by abel⟩
  · exact (hexit _ _ {} ⟨rfl, rfl⟩).conseq fun _ h => ⟨h, by simp [RenameLocals.held]⟩

omit hallow in
/-- A rename that is passed on keeps its vnodes. -/
theorem owns_renameUnchanged (fvp : Vnode) (ap : RenameArgs Vnode) :
    Owns allow 0 (renameUnchanged fvp ap) (fun r => r.2.vnodes = ap.vnodes) fun _ => 0 :=
  .bind (owns_call trivial) fun _ _ => .pure rfl (by abel)

/-- Rename holds nothing when it returns, and the request has its vnodes. -/
theorem owns_qvrVnopRenameHookEx2 (ctx : VfsContext) {fvp : Vnode} {ap : RenameArgs Vnode}
    (hfvp : ap.a_fvp = some fvp) :
    Owns allow 0 (qvrVnopRenameHookEx2 ctx fvp ap) (fun r => r.2.vnodes = ap.vnodes)
      fun _ => 0 := by
  refine .bind (owns_call trivial) fun appDataVnode _ => ?_
  split
  · exact (owns_renameUnchanged fvp ap).conseq fun _ h => ⟨h, by abel⟩
  · refine .bind owns_isRecursiveCallOrUserClient fun skip _ => ?_
    split
    · exact (owns_renameUnchanged fvp ap).conseq fun _ h => ⟨h, by abel⟩
    · split
      · exact (owns_renameRedirectIo hallow _ fvp ap).conseq fun _ h => ⟨h, by abel⟩
      · exact (owns_renameOriginal hallow hfvp).conseq fun _ h => ⟨h, by abel⟩

-- ---------------------------------------------------------------------------
-- Main result
-- ---------------------------------------------------------------------------

/-- One lemma for all hooks that give nothing. -/
theorem owns_run (ctx : VfsContext) (request : HookRequest Vnode) :
    Owns allow 0 (request.run ctx) (fun r => r.2 = request.vnodes) fun _ => 0 := by
  have hunchanged : ∀ {p : Kernel Vnode Int}, OwnsNothing allow p →
      Owns allow 0 (do return (← p, request.vnodes)) (fun r => r.2 = request.vnodes)
        fun _ => 0 :=
    fun hp => .bind hp fun _ _ => .pure rfl (by abel)
  cases request with
  | close a_vp a_fflag => exact hunchanged (owns_qvrVnopCloseHookEx2 a_vp a_fflag)
  | inactive a_vp => exact hunchanged (owns_qvrVnopInactiveHookEx2 a_vp)
  | read ap => exact hunchanged (owns_qvrVnopReadHookEx2 hallow ap)
  | write ap => exact hunchanged (owns_qvrVnopWriteHookEx2 hallow ap)
  | pagein ap => exact hunchanged (owns_qvrVnopPageinHookEx2 hallow ap)
  | pageout ap => exact hunchanged (owns_qvrVnopPageoutHookEx2 hallow ap)
  | exchange ap => exact hunchanged (owns_qvrVnopExchangeHookEx2 ctx ap)
  | getattr ap =>
    refine .bind (owns_qvrVnopGetattrHookEx2 ap) fun r hr => .pure ?_ (by abel)
    rw [HookRequest.vnodes, GetattrArgs.vnodes, GetattrArgs.vnodes, hr]
  | rename fvp ap hfvp =>
    exact .bind (owns_qvrVnopRenameHookEx2 hallow ctx hfvp) fun r hr => .pure hr (by abel)

end Calls

/-- Whatever the calls of a hook return, a failing lookup giving no vnode: when the hook
returns, the iocounts of all vnodes are changed by the entries of `VNodeMap` alone, every
buffer has been freed once, with its size, and the request has its vnodes. -/
theorem hooks_release (ctx : VfsContext) (request : HookRequest Vnode) {s s' : Ledger Vnode}
    {r : Int × RequestVnodes Vnode}
    (hrun : Prog.Runs Ledger.effect (Documented fun _ => True) (request.run ctx) s r s') :
    s.Settled s' none ∧ r.2 = request.vnodes := by
  have howned : Owns (Documented fun _ => True) 0 (request.run ctx)
      (fun r => r.2 = request.vnodes) fun _ => Held.iocount none :=
    (owns_run (fun _ _ h => h) ctx request).conseq fun _ h => ⟨h, by simp⟩
  exact (howned.settled hrun).symm

/-- The three renames of `/d/a` to `/d/b`, which exists. -/
theorem hooks_release_rename :
    let fcnp : Componentname := ⟨[47, 100, 47, 97], 4, [97], 1, .RENAME, true, 0⟩
    let tcnp : Componentname := ⟨[47, 100, 47, 98], 4, [98], 1, .RENAME, true, 0⟩
    let ap : RenameArgs Nat := ⟨some 2, some 3, fcnp, some 2, some 4, tcnp, .caller⟩
    let s : Ledger Nat :=
      { Ledger.empty with map := VNodeMap.empty.addVnodeAppData 3 ⟨[47, 114], true⟩ true }
    let request : HookRequest Nat := .rename 3 ap rfl
    let run := Prog.exec Ledger.effect (fun _ _ => ⟨Ledger.success [], true⟩)
      (request.run ⟨some [47, 114]⟩) 0 s
    run.2 = (0, ⟨none, some 3, some 4⟩) ∧ run.1.next = 12 ∧ run.1.iocount 5 = 0 ∧
      s.Settled run.1 none ∧ run.2.2 = request.vnodes := by
  intro fcnp tcnp ap s request run
  have hresult : run.2 = (0, ⟨none, some 3, some 4⟩) ∧ run.1.next = 12 ∧
      run.1.iocount 5 = 0 := by decide +kernel
  obtain ⟨hresult, hnext, hiocount⟩ := hresult
  have hdocumented : ∀ (_ : Nat) (o : KernelOp Nat),
      Documented (fun _ => True) o ⟨Ledger.success [], true⟩ :=
    fun _ o => Ledger.documented_success trivial _ o
  exact ⟨hresult, hnext, hiocount, hooks_release ⟨some [47, 114]⟩ request
    (Prog.runs_exec hdocumented _ 0 s)⟩

end VfsRedirector
