import VfsRedirector.Redirect.Hooks

/-!
# The hooks for I/O, attributes and the end of use

The other hooks that redirect, as programs over `KernelOp`: read, write, pagein
and pageout go to the backing vnode if there is one, exchange tells the daemon,
getattr answers for a shadow vnode with the attributes of the original file and
the sizes of the backing file, and close and inactive flush and release the
backing vnode. A hook returns its error; getattr returns the request too, where it
leaves attributes.
-/

namespace VfsRedirector

open Library Kernel

variable {Vnode : Type}

-- ---------------------------------------------------------------------------
-- Close and inactive
-- ---------------------------------------------------------------------------

def qvrVnopCloseHookEx2 (a_vp : Vnode) (a_fflag : Int) : Kernel Vnode Int := do
  match ← getVnodeIoRef a_vp with
  | some vnodeIo => do
    clusterPush vnodeIo
    vnodePut vnodeIo
  | none => pure ()
  vnopClose a_vp a_fflag

def qvrVnopInactiveHookEx2 (a_vp : Vnode) : Kernel Vnode Int := do
  match ← getVnodeIoRef a_vp with
  | some vnodeIo => do
    clusterPush vnodeIo
    vnodeRecycle vnodeIo
    removeVnodeIo a_vp
    vnodePut vnodeIo
  | none => pure ()
  vnopInactive a_vp

-- ---------------------------------------------------------------------------
-- Read and write
-- ---------------------------------------------------------------------------

def qvrAdjustVnodeSizeByBackingVnode (vnode backingVnode : Vnode) (context : Context) :
    Kernel Vnode Int := do
  let (error, oldSize) ← qvrVnodeGetSize vnode context
  if error ≠ 0 then pure error
  else do
    let (error, newSize) ← qvrVnodeGetSize backingVnode .superUser
    if error ≠ 0 then pure error
    else if newSize > oldSize then qvrVnodeSetsize vnode newSize context
    else pure 0

/-- The backing vnode for read, write and pageout, with the audit record before it;
`none` where the original is called. -/
def backingVnodeForIo (op : HookedOp) (a_vp : Vnode) : Kernel Vnode (Option Vnode) := do
  match ← getVnodeAppData a_vp with
  | none => pure none
  | some appData => do
    if ← isRecursiveCallOrUserClient then pure none
    else do
      auditVnode op a_vp
      qvrGetBackingVnodeForRedirectedIo a_vp appData false

def qvrVnopReadHookEx2 (ap : IoArgs Vnode) : Kernel Vnode Int := do
  match ← backingVnodeForIo .read ap.a_vp with
  | some vnodeIo => do
    let error ← inRecursiveCall .currentThread
      (vnopRead (.vnop vnodeIo) { ap with a_vp := vnodeIo })
    vnodePut vnodeIo
    pure error
  | none => vnopRead (.original ap.a_vp) ap

/-- An operation on the backing vnode that writes; the file grows with it. -/
def thenAdjustSize (vnode vnodeIo : Vnode) (context : Context) (backingVnop : Kernel Vnode Int) :
    Kernel Vnode Int := do
  let error ← backingVnop
  if error = 0 then do
    let _ ← qvrAdjustVnodeSizeByBackingVnode vnode vnodeIo context
    pure error
  else pure error

def qvrVnopWriteHookEx2 (ap : IoArgs Vnode) : Kernel Vnode Int := do
  match ← backingVnodeForIo .write ap.a_vp with
  | some vnodeIo => do
    let error ← inRecursiveCall .currentThread
      (thenAdjustSize ap.a_vp vnodeIo ap.a_context
        (vnopWrite (.vnop vnodeIo) { ap with a_vp := vnodeIo, a_context := .superUser }))
    vnodePut vnodeIo
    pure error
  | none => vnopWrite (.original ap.a_vp) ap

-- ---------------------------------------------------------------------------
-- Pageout
-- ---------------------------------------------------------------------------

/-- `ubc_upl_abort_range` of the upl that was created for the backing vnode, which
the caller does not commit. -/
def abortIfMustCommit (upl : Option Nat) (apIo : PagingArgs Vnode) : Kernel Vnode Unit :=
  match upl with
  | some upl =>
    if apIo.a_flags.nocommit then ubcUplAbortRange upl apIo.a_f_offset apIo.a_size false
    else pure ()
  | none => pure ()

/-- From `__exit_upl` on in pageout. `uplAllPages` is aborted if `upl` is there; it may
be `NULL` then, which is 0 here. -/
def pageoutExitUpl (upl uplAllPages : Option Nat) (map size : Nat) (error : Int) :
    Kernel Vnode Int := do
  if map ≠ 0 then ubcUplUnmap (uplAllPages.getD 0) else pure ()
  match upl with
  | some _ => ubcUplAbortRange (uplAllPages.getD 0) 0 size (error ≠ 0)
  | none => pure ()
  pure error

def msyncOr (flags : PagingFlags) (other : UplFlag) : UplFlag :=
  if flags.msync then .UBC_MSYNC else other

/-- The pages of the vnode go to the backing file. Where `ubc_create_upl` returns 0 it has made a
upl (`UplKpi`); the source does not check it, and would call `ubc_upl_map` with `NULL`. -/
def writePages (ap : PagingArgs Vnode) (vnodeIo : Vnode) (upl : Option Nat) : Kernel Vnode Int := do
  let (error, uplAllPages) ←
    ubcCreateUpl ap.a_vp ap.a_f_offset ap.a_size [msyncOr ap.a_flags .UBC_PAGEOUT]
  match error, uplAllPages with
  | 0, some allPages => do
    let (error, map) ← ubcUplMap allPages
    if error ≠ 0 then pageoutExitUpl upl uplAllPages 0 ap.a_size error
    else do
      let error ← vnRdwr .write vnodeIo map ap.a_size ap.a_f_offset
      pageoutExitUpl upl uplAllPages map ap.a_size error
  | error, _ => pageoutExitUpl upl uplAllPages 0 ap.a_size error

/-- `pl` is that of the request: without one the file system is to take the pages. -/
def pageoutToBackingVnode (ap apIo : PagingArgs Vnode) (vnodeIo : Vnode) (upl : Option Nat) :
    Kernel Vnode Int := do
  let error ← inRecursiveCall .currentThread
    (thenAdjustSize ap.a_vp vnodeIo ap.a_context (vnopPageout (.vnop vnodeIo) apIo))
  let error ←
    if error = 0 ∧ ap.a_pl = none then writePages ap vnodeIo upl else pure error
  abortIfMustCommit upl apIo
  pure error

/-- A backing file system without the new interface is given a upl. -/
def pageoutBacking (ap : PagingArgs Vnode) (vnodeIo : Vnode) : Kernel Vnode Int := do
  let apIo := { ap with a_vp := vnodeIo, a_context := .superUser }
  let flags ← qvrGetVnodeVfsFlags vnodeIo
  if flags.pageoutV2 = false ∧ apIo.a_pl = none then do
    let (error, upl) ← ubcCreateUpl vnodeIo apIo.a_f_offset apIo.a_size
      [msyncOr apIo.a_flags .UBC_PAGEOUT, .RET_ONLY_DIRTY]
    match error, upl with
    | 0, some _ => pageoutToBackingVnode ap { apIo with a_pl := upl } vnodeIo upl
    | error, upl => do
      abortIfMustCommit upl apIo
      pure error
  else pageoutToBackingVnode ap apIo vnodeIo none

/-- The error of the original operation is not looked at. -/
def qvrVnopPageoutHookEx2 (ap : PagingArgs Vnode) : Kernel Vnode Int := do
  match ← backingVnodeForIo .write ap.a_vp with
  | some vnodeIo => do
    let error ← pageoutBacking ap vnodeIo
    vnodePut vnodeIo
    pure error
  | none => do
    let _ ← vnopPageout (.original ap.a_vp) ap
    pure ENODATA

-- ---------------------------------------------------------------------------
-- Pagein
-- ---------------------------------------------------------------------------

def pageinFromBackingVnode (ap apIo : PagingArgs Vnode) (vnodeIo : Vnode) (upl : Option Nat) :
    Kernel Vnode Int := do
  let error ← inRecursiveCall .currentThread (vnopPagein (.vnop vnodeIo) apIo)
  let error ←
    if error = 0 ∧ ap.a_pl = none then
      qvrReadInCacheFromBackingFile ap.a_vp vnodeIo ap.a_f_offset ap.a_size
    else pure error
  abortIfMustCommit upl apIo
  pure error

/-- Without `redirectIO`; the original has not been called. -/
def pageinBacking (ap : PagingArgs Vnode) (vnodeIo : Vnode) : Kernel Vnode Int := do
  let apIo := { ap with a_vp := vnodeIo }
  let flags ← qvrGetVnodeVfsFlags vnodeIo
  if flags.pageinV2 = false ∧ apIo.a_pl = none then do
    let (error, upl) ← ubcCreateUpl vnodeIo apIo.a_f_offset apIo.a_size
      [.UBC_PAGEIN, .RET_ONLY_ABSENT]
    match error, upl with
    | 0, some _ => pageinFromBackingVnode ap { apIo with a_pl := upl } vnodeIo upl
    | error, upl => do
      abortIfMustCommit upl apIo
      pure error
  else pageinFromBackingVnode ap apIo vnodeIo none

/-- What follows the original operation, if it was called. -/
def pageinRedirected (ap : PagingArgs Vnode) : Option ApplicationData → Kernel Vnode Int
  | none => pure 0
  | some appData => do
    auditVnode .read ap.a_vp
    match ← qvrGetBackingVnodeForRedirectedIo ap.a_vp appData false with
    | none => pure 0
    | some vnodeIo => do
      let error ← match appData.redirectIo with
        | false => pageinBacking ap vnodeIo
        | true => qvrReadInCacheFromBackingFile ap.a_vp vnodeIo ap.a_f_offset ap.a_size
      vnodePut vnodeIo
      pure error

/-- `IsUserClient()`, unless the condition in front of it holds. -/
def orUserClient (condition : Bool) : Kernel Vnode Bool :=
  if condition then pure true else isUserClient

def qvrVnopPageinHookEx2 (ap : PagingArgs Vnode) : Kernel Vnode Int := do
  let isRecursiveCall := (← cookieForRecursiveCall).isSome
  let appData ← getVnodeAppData ap.a_vp
  let callOriginal ←
    orUserClient (appData.isNone || appData.any (·.redirectIo) || isRecursiveCall)
  let error ← match callOriginal with
    | true => vnopPagein (.original ap.a_vp) ap
    | false => pure 0
  let done ← orUserClient (error ≠ 0 || isRecursiveCall)
  if done then pure error else pageinRedirected ap appData

-- ---------------------------------------------------------------------------
-- Exchange
-- ---------------------------------------------------------------------------

/-- A path in a buffer of `MAXPATHLEN` bytes, unless there was an error. -/
def getpathUnless (error : Int) (vp : Vnode) : Kernel Vnode (Int × List UInt8) :=
  if error ≠ 0 then pure (error, []) else vnGetpath vp

/-- `IOFree` of a buffer of `MAXPATHLEN` bytes, if there is one. -/
def freeIfAny : Option Nat → Kernel Vnode Unit
  | some addr => ioFree addr MAXPATHLEN
  | none => pure ()

/-- The daemon exchanges the contents of the backing files. -/
def exchangeBacking (backingFvp backingTvp : Vnode) : Kernel Vnode Int := do
  let fromBuffer ← ioMalloc MAXPATHLEN
  let toBuffer ← ioMalloc MAXPATHLEN
  let error := if fromBuffer.isNone ∨ toBuffer.isNone then ENOMEM else 0
  let (error, fromPath) ← getpathUnless error backingFvp
  let (error, toPath) ← getpathUnless error backingTvp
  if error = 0 then exchangeFiles fromPath toPath else pure ()
  freeIfAny fromBuffer
  freeIfAny toBuffer
  pure error

/-- The backing vnodes stay referenced until the original is done. -/
def exchangeRedirectIo (ap : ExchangeArgs Vnode) : Kernel Vnode Int := do
  let backingFvp ← getVnodeIoRef ap.a_fvp
  let backingTvp ← match backingFvp with
    | some _ => getVnodeIoRef ap.a_tvp
    | none => pure none
  let error ← match backingFvp, backingTvp with
    | some backingFvp, some backingTvp => exchangeBacking backingFvp backingTvp
    | _, _ => pure 0
  let error ← if error = 0 then vnopExchange ap else pure error
  putIfAny backingFvp
  putIfAny backingTvp
  pure error

def qvrVnopExchangeHookEx2 (ctx : VfsContext) (ap : ExchangeArgs Vnode) : Kernel Vnode Int := do
  let appDataVnode ← getVnodeAppData ap.a_fvp
  match appDataVnode.or ctx.openExisting with
  | none => vnopExchange ap
  | some appData =>
    match appData.redirectIo with
    | false => vnopExchange ap
    | true => do
      if ← isRecursiveCallOrUserClient then vnopExchange ap else exchangeRedirectIo ap

-- ---------------------------------------------------------------------------
-- Getattr
-- ---------------------------------------------------------------------------

/-- `VATTR_INIT` clears the two masks; the value is what is in memory. -/
def Attribute.init (a : Attribute) : Attribute := { a with active := false, supported := false }

/-- `VATTR_WANTED` of what is wanted in the request. -/
def Attribute.wanted (a request : Attribute) : Attribute :=
  if request.active then { a with active := true } else a

/-- The value of the backing file, if it is wanted. -/
def Attribute.takeValue (a backing : Attribute) : Attribute :=
  if a.active then { a with value := backing.value } else a

namespace VnodeAttr

def init (va : VnodeAttr) : VnodeAttr :=
  ⟨va.va_total_size.init, va.va_total_alloc.init, va.va_data_size.init, va.va_data_alloc.init,
    va.others.map Attribute.init⟩

def wanted (va request : VnodeAttr) : VnodeAttr :=
  { va with
    va_total_size := va.va_total_size.wanted request.va_total_size
    va_total_alloc := va.va_total_alloc.wanted request.va_total_alloc
    va_data_size := va.va_data_size.wanted request.va_data_size
    va_data_alloc := va.va_data_alloc.wanted request.va_data_alloc }

def queryAttributes (va : VnodeAttr) : Bool :=
  va.va_total_size.active || va.va_total_alloc.active || va.va_data_size.active ||
    va.va_data_alloc.active

def takeValues (va backing : VnodeAttr) : VnodeAttr :=
  { va with
    va_total_size := va.va_total_size.takeValue backing.va_total_size
    va_total_alloc := va.va_total_alloc.takeValue backing.va_total_alloc
    va_data_size := va.va_data_size.takeValue backing.va_data_size
    va_data_alloc := va.va_data_alloc.takeValue backing.va_data_alloc }

end VnodeAttr

/-- The sizes are those of the backing file. -/
def adjustSizes (shadowVp : Vnode) (a_vap : VnodeAttr) : Kernel Vnode VnodeAttr := do
  match ← getVnodeIoRef shadowVp with
  | none => pure a_vap
  | some backingVnodeRef => do
    let va ← localVnodeAttr
    let a_vap ← match a_vap.queryAttributes with
      | false => pure a_vap
      | true => do
        let (attrError, va) ← vnodeGetattr backingVnodeRef (va.init.wanted a_vap)
        pure (if attrError = 0 then a_vap.takeValues va else a_vap)
    vnodePut backingVnodeRef
    pure a_vap

/-- What stands in the recursion, with `ap->a_vp` replaced by the real vnode. -/
def getattrOfReal (shadowVp realVnodeRef : Vnode) (ap : GetattrArgs Vnode) :
    Kernel Vnode (Int × GetattrArgs Vnode) := do
  let (error, a_vap) ← vnopGetattr (.vnop realVnodeRef) ap
  if error ≠ 0 then pure (error, { ap with a_vap })
  else do
    let a_vap ← adjustSizes shadowVp a_vap
    pure (error, { ap with a_vap })

/-- The request as it is. -/
def getattrOriginal (ap : GetattrArgs Vnode) : Kernel Vnode (Int × GetattrArgs Vnode) := do
  let (error, a_vap) ← vnopGetattr (.original ap.a_vp) ap
  pure (error, { ap with a_vap })

def qvrVnopGetattrHookEx2 (ap : GetattrArgs Vnode) : Kernel Vnode (Int × GetattrArgs Vnode) := do
  match ← getVnodeShadowReverseRef ap.a_vp with
  | none => getattrOriginal ap
  | some realVnodeRef => do
    if ← isRecursiveCallOrUserClient then do
      vnodePut realVnodeRef
      getattrOriginal ap
    else do
      let shadowVp := ap.a_vp
      let (error, ap) ← inRecursiveCall .currentThread
        (getattrOfReal shadowVp realVnodeRef { ap with a_vp := realVnodeRef })
      vnodePut realVnodeRef
      pure (error, { ap with a_vp := shadowVp })

end VfsRedirector
