import VfsRedirector.Redirect.Kernel

/-!
# The lookup, create and rename hooks

`QvrVnopLookupHookEx2`, `QvrVnopCreateHookEx2` and `QvrVnopRenameHookEx2` as
programs over `KernelOp`. A part of a hook up to its `goto __exit` is a definition
of its own; what the source keeps in local variables until then is in
`LookupLocals` and `RenameLocals`. `gSynchroniseWithOriginal` is true and
`gRedirectionIsNullAndVoid` is false, as the source has them.
-/

namespace VfsRedirector

open Library Kernel

variable {Vnode : Type}

-- ---------------------------------------------------------------------------
-- The backing vnode
-- ---------------------------------------------------------------------------

/-- `i386_round_page` -/
def roundPage (size : Nat) : Nat := (size + 4095) / 4096 * 4096

/-- From `__exit_upl` on: `map` is 0 where there is no mapping. -/
def readInCacheExit (size upl map : Nat) (error : Int) : Kernel Vnode Int := do
  if map ≠ 0 then ubcUplUnmap upl else pure ()
  ubcUplAbortRange upl 0 size (error ≠ 0)
  pure error

def qvrReadInCacheFromBackingFile (vnode vnodeIo : Vnode) (offset : Int) (size : Nat) :
    Kernel Vnode Int := do
  if size = 0 then pure 0
  else do
    let (error, upl) ← ubcCreateUpl vnode offset size [.UBC_PAGEIN]
    match error, upl with
    | 0, some upl => do
      let (error, map) ← ubcUplMap upl
      if error ≠ 0 then readInCacheExit size upl 0 error
      else do
        let error ← vnRdwr .read vnodeIo map size offset
        readInCacheExit size upl map error
    | error, none => pure error
    | error, some upl => readInCacheExit size upl 0 error

/-- Pages of the vnode may hold what was read before it had a backing vnode. -/
def refillCache (vn backingVnode : Vnode) : Kernel Vnode Unit := do
  let (error, fileSize) ← qvrVnodeGetSize vn .superUser
  if error = 0 then do
    ubcMsync vn (roundPage fileSize)
    if ← ubcPagesResident vn then do
      let _ ← qvrReadInCacheFromBackingFile vn backingVnode 0 (roundPage fileSize)
      pure ()
    else pure ()
  else pure ()

/-- The file at the redirected path of `vnodePath` becomes the backing vnode. -/
def lookupBackingVnode (vn : Vnode) (vnodePath : List UInt8) (appData : ApplicationData) :
    Kernel Vnode (Option Vnode) := do
  match ← convertToRedirectedPath vnodePath appData.redirectTo with
  | (_, none) => pure none
  | (_, some redirectedFilePath) => do
    let (error, backingVnode) ←
      inRecursiveCall .currentThread (vnodeLookup redirectedFilePath.string .superUser)
    match error, backingVnode with
    | 0, some backing => do
      addVnodeIo vn backing
      inRecursiveCall .currentThread (refillCache vn backing)
      freePath (some redirectedFilePath)
      pure (some backing)
    | _, _ => do
      freePath (some redirectedFilePath)
      pure none

/-- The backing vnode by the path of the vnode. -/
def findBackingVnode (vn : Vnode) (appData : ApplicationData) : Kernel Vnode (Option Vnode) := do
  match ← ioMalloc MAXPATHLEN with
  | none => pure none
  | some vnodePath => do
    let (error, path) ← vnGetpath vn
    let backingVnode ← match error with
      | 0 => lookupBackingVnode vn path appData
      | _ => pure none
    ioFree vnodePath MAXPATHLEN
    pure backingVnode

/-- Every caller has application data. -/
def qvrGetBackingVnodeForRedirectedIo (vn : Vnode) (appData : ApplicationData)
    (forceUpdate : Bool) : Kernel Vnode (Option Vnode) := do
  let type ← vnodeVtype vn
  if type ≠ .vreg ∨ appData.redirectIo = false then pure none
  else if forceUpdate then do
    removeVnodeIo vn
    findBackingVnode vn appData
  else do
    match ← getVnodeIoRef vn with
    | some backingVnode => pure (some backingVnode)
    | none => findBackingVnode vn appData

def qvrAssociateVnodeForRedirectedIo (vn : Vnode) (appData : ApplicationData) (forceUpdate : Bool) :
    Kernel Vnode Unit := do
  let vnodeIo ← qvrGetBackingVnodeForRedirectedIo vn appData forceUpdate
  putIfAny vnodeIo

/-- What lookup and create do with a shadow vnode once the daemon has been called:
it is what the application gets, if it has a backing vnode. -/
def useShadowVnode (shadowVnode : Vnode) (appData : ApplicationData) :
    Kernel Vnode (Int × Option Vnode) := do
  qvrAssociateVnodeForRedirectedIo shadowVnode appData false
  match ← getVnodeIoRef shadowVnode with
  | some backingVnode => do
    addVnodeAppData shadowVnode appData
    vnodePut backingVnode
    vnodeGet shadowVnode
    pure (0, some shadowVnode)
  | none => pure (ENFILE, none)

-- ---------------------------------------------------------------------------
-- Lookup
-- ---------------------------------------------------------------------------

/-- The original operation for a request that is not redirected; inside of a rename
the name operation becomes that at the cookie. -/
def lookupOriginal (dvp : Vnode) (cnp : Componentname) : Kernel Vnode (Int × Option Vnode) := do
  match ← cookieForRecursiveCall with
  | none | some .currentThread => vnopLookup dvp cnp
  | some cookie => do
    let cn_nameiop ← nameiopAt cookie
    vnopLookup dvp { cnp with cn_nameiop }

/-- The locals of the hook, with `*ap->a_vpp`. -/
structure LookupLocals (Vnode : Type) where
  error : Int
  a_vpp : Option Vnode
  shadowPath : Option PathBuffer := none
  shadowName : Option PathBuffer := none
  redirectedFilePath : Option PathBuffer := none
  shadowVnode : Option Vnode := none
  originalVnode : Option Vnode := none

/-- From `__exit` on. -/
def lookupExit (cnp : Componentname) (l : LookupLocals Vnode) :
    Kernel Vnode (Int × Option Vnode) := do
  match l.redirectedFilePath with
  | some path => audit ⟨.lookup, cnp.cn_pnbuf, path.string, l.error⟩
  | none => pure ()
  freePath l.redirectedFilePath
  freePath l.shadowPath
  freePath l.shadowName
  putIfAny l.shadowVnode
  putIfAny l.originalVnode
  pure (l.error, l.a_vpp)

/-- A new shadow file gets the size of the original one. -/
def equalizeFileSizes (originalVnode shadowVnode : Vnode) : Kernel Vnode Int := do
  let (error, originalFileSize) ← qvrVnodeGetSize originalVnode .caller
  if error ≠ 0 then pure error
  else do
    let (error, shadowFileSize) ← qvrVnodeGetSize shadowVnode .superUser
    if error ≠ 0 then pure error
    else if shadowFileSize ≠ originalFileSize then
      qvrVnodeSetsize shadowVnode originalFileSize .superUser
    else pure 0

variable [DecidableEq Vnode]

/-- What is done with a new shadow file; `attemptToOpenShadowFile` is that it is the
original one. -/
def initShadowFile (originalVnode shadow : Vnode) : Kernel Vnode Int := do
  vnodeGet shadow -- for the vnode_put of vnode_close
  vnodeClose shadow
  if shadow = originalVnode then pure 0 else equalizeFileSizes originalVnode shadow

/-- The reverse entry, unless there was an error. -/
def connectReverse (error : Int) (shadow originalVnode : Vnode) : Kernel Vnode Unit := do
  if error = 0 ∧ shadow ≠ originalVnode then addVnodeShadowReverse shadow originalVnode
  else pure ()

/-- The shadow file is found or created; the last component says whether the
daemon has to be called. -/
def openShadowFile (shadowPath : List UInt8) (originalVnode : Vnode) :
    Kernel Vnode (Int × Option Vnode × Bool) := do
  let (error, shadowVnode) ← vnodeLookup shadowPath .superUser
  match error, shadowVnode with
  | 0, some shadow => do
    connectReverse 0 shadow originalVnode
    pure (0, some shadow, false)
  | _, _ => do
    let (error, shadowVnode) ← vnodeOpen shadowPath
    match error, shadowVnode with
    | 0, some shadow => do
      let error ← initShadowFile originalVnode shadow
      connectReverse error shadow originalVnode
      pure (error, some shadow, true)
    | _, _ => pure (error, none, false)

/-- The shadow vnode in place of the original one. -/
def connectShadowFile (appData : ApplicationData) (cnp : Componentname) (shadowPath : List UInt8)
    (shadowVnode : Vnode) (daemon : Bool) : Kernel Vnode (Int × Option Vnode) := do
  match ← convertToRedirectedPath shadowPath appData.redirectTo with
  | (error, none) => pure (error, none)
  | (_, some redirectedShadowPath) => do
    if daemon then
      callDaemon ⟨cnp.cn_pnbuf, some shadowPath, redirectedShadowPath.string, false⟩
    else pure ()
    freePath (some redirectedShadowPath)
    useShadowVnode shadowVnode appData

/-- A shadow file for a file that is controlled. The locals are those for `__exit`
if the first component is true; otherwise path redirection goes on with them. -/
def lookupShadow (appData : ApplicationData) (cnp : Componentname) (original : Vnode) :
    Kernel Vnode (Bool × LookupLocals Vnode) := do
  vnodeGet original
  vnodePut original
  let l : LookupLocals Vnode := { error := 0, a_vpp := none, originalVnode := some original }
  match ← convertToShadowCopyPath cnp.cn_pnbuf with
  | (error, none) => pure (true, { l with error })
  | (_, some shadowPath) => do
    let l := { l with shadowPath := some shadowPath }
    match ← convertToShadowCopyPath cnp.cn_nameptr with
    | (error, none) => pure (true, { l with error })
    | (_, some shadowName) => do
      let l := { l with shadowName := some shadowName }
      match ← inRecursiveCall .currentThread (openShadowFile shadowPath.string original) with
      | (0, some shadow, daemon) => do
        let l := { l with shadowVnode := some shadow }
        match ← connectShadowFile appData cnp shadowPath.string shadow daemon with
        | (0, a_vpp) => pure (true, { l with error := 0, a_vpp })
        | _ => pure (false, { l with error := -1 })
      | (_, shadowVnode, _) => pure (false, { l with error := -1, shadowVnode })

/-- With `redirectIO`; as for `lookupShadow`. -/
def lookupRedirectIo (appData : ApplicationData) (dvp : Vnode) (cnp : Componentname) :
    Kernel Vnode (Bool × LookupLocals Vnode) := do
  let (error, a_vpp) ← inRecursiveCall .currentThread (vnopLookup dvp cnp)
  let l : LookupLocals Vnode := { error, a_vpp }
  match error, a_vpp with
  | 0, some original => do
    let appDataVnode ← getVnodeAppData original
    if appDataVnode.any (·.redirectIo) then pure (true, l)
    else do
      let type ← vnodeVtype original
      if type ≠ .vreg then pure (true, l)
      else do
        let isControlledFile ← filter .lookup cnp.cn_pnbuf
        if isControlledFile then lookupShadow appData cnp original else pure (true, l)
  | _, _ => pure (true, l)

/-- What becomes of the results of the original lookup, `l`, and of the one in the
protected storage. -/
def mergeLookups (appData : ApplicationData) (l : LookupLocals Vnode) :
    Int × Option Vnode → Kernel Vnode (LookupLocals Vnode)
  | (0, some redirectedVnode) => do
    putIfAny l.a_vpp
    addVnodeAppData redirectedVnode appData
    pure { l with error := 0, a_vpp := some redirectedVnode }
  | (0, none) =>
    if l.a_vpp.isNone then pure { l with error := EJUSTRETURN } else pure l
  | (error2, _) =>
    if l.error = 0 then pure l
    else if l.error = EJUSTRETURN ∧ (error2 = ENOENT ∨ error2 = EJUSTRETURN) then
      pure { l with error := EJUSTRETURN }
    else pure { l with error := error2 }

/-- The type of the vnode that a lookup gave is not of interest when it failed. -/
def isRegularOrNone : Int × Option Vnode → Kernel Vnode Bool
  | (0, some vp) => do
    let type ← vnodeVtype vp
    pure (type = .vreg)
  | _ => pure true

/-- Path redirection, with the data for `ADT_OpenExisting`. -/
def lookupRedirectPath (appData : ApplicationData) (dvp : Vnode) (cnp : Componentname)
    (l : LookupLocals Vnode) : Kernel Vnode (LookupLocals Vnode) := do
  let createOrRenameOrDelete : Bool :=
    cnp.cn_nameiop = .CREATE ∨ cnp.cn_nameiop = .RENAME ∨ cnp.cn_nameiop = .DELETE
  match ← convertToRedirectedPath cnp.cn_pnbuf appData.redirectTo with
  | (error, none) => pure { l with error }
  | (_, some redirectedFilePath) => do
    let l := { l with redirectedFilePath := some redirectedFilePath }
    callDaemon ⟨cnp.cn_pnbuf, none, redirectedFilePath.string, false⟩
    let (error, a_vpp) ←
      inRecursiveCall .currentThread (vnopLookup dvp { cnp with makeEntry := false })
    let l := { l with error, a_vpp }
    let isRegular ← isRegularOrNone (error, a_vpp)
    if isRegular ∧ (error = 0 ∨ (error = EJUSTRETURN ∧ createOrRenameOrDelete) ∨ error = ENOENT)
    then do
      let found ←
        inRecursiveCall .currentThread (vnodeLookup redirectedFilePath.string .superUser)
      mergeLookups appData l found
    else pure l

/-- Of a request that is redirected; `redirectTo` is that of the application. -/
def lookupRedirected (createNew openExisting : ApplicationData) (dvp : Vnode)
    (cnp : Componentname) : Kernel Vnode (Int × Option Vnode) := do
  let (done, l) ← match createNew.redirectIo with
    | true => lookupRedirectIo createNew dvp cnp
    | false => pure (false, { error := -1, a_vpp := none })
  let l ← match done with
    | true => pure l
    | false => lookupRedirectPath openExisting dvp cnp l
  lookupExit cnp l

def qvrVnopLookupHookEx2 (ctx : VfsContext) (dvp : Vnode) (cnp : Componentname) :
    Kernel Vnode (Int × Option Vnode) := do
  match ctx.createNew, ctx.openExisting with
  | some createNew, some openExisting => do
    if ← isRecursiveCallOrUserClient then lookupOriginal dvp cnp
    else if strncasecmpEq createNew.redirectTo.length (cnp.cn_pnbuf ++ [0])
        (createNew.redirectTo ++ [0]) = some true then
      vnopLookup dvp cnp
    else lookupRedirected createNew openExisting dvp cnp
  | _, _ => lookupOriginal dvp cnp -- an application has the data of both types

-- ---------------------------------------------------------------------------
-- Create
-- ---------------------------------------------------------------------------

omit [DecidableEq Vnode]

/-- The shadow file of a file that has just been created, in place of it. -/
def createShadowFile (appData : ApplicationData) (cnp : Componentname)
    (shadowPath redirectedShadowPath : List UInt8) (originalVnode : Vnode) :
    Kernel Vnode (Int × Option Vnode) := do
  vnodeGet originalVnode
  vnodePut originalVnode
  let (error, shadowVnode) ← vnodeOpen shadowPath
  match error, shadowVnode with
  | 0, some shadow => do
    callDaemon ⟨cnp.cn_pnbuf, some shadowPath, redirectedShadowPath, true⟩
    let (error, a_vpp) ← useShadowVnode shadow appData
    if error = 0 then addVnodeShadowReverse shadow originalVnode else pure ()
    vnodeClose shadow
    vnodePut originalVnode
    pure (error, a_vpp)
  | error, _ => do
    vnodePut originalVnode
    pure (error, none)

/-- What the hook does in the recursion. -/
def createOriginalAndShadow (appData : ApplicationData) (dvp : Vnode) (cnp : Componentname)
    (shadowPath redirectedShadowPath : List UInt8) : Kernel Vnode (Int × Option Vnode) := do
  let (error, a_vpp) ← vnopCreate dvp cnp
  match error, a_vpp with
  | 0, some original => createShadowFile appData cnp shadowPath redirectedShadowPath original
  | error, a_vpp => pure (error, a_vpp)

/-- Of a file that is controlled. -/
def createRedirected (appData : ApplicationData) (dvp : Vnode) (cnp : Componentname) :
    Kernel Vnode (Int × Option Vnode) := do
  match ← convertToShadowCopyPath cnp.cn_pnbuf with
  | (error, none) => pure (error, none)
  | (_, some shadowPath) => do
    match ← convertToRedirectedPath shadowPath.string appData.redirectTo with
    | (error, none) => do
      freePath (some shadowPath)
      pure (error, none)
    | (_, some redirectedShadowPath) => do
      let (error, a_vpp) ← inRecursiveCall .currentThread
        (createOriginalAndShadow appData dvp cnp shadowPath.string redirectedShadowPath.string)
      if error = 0 then audit ⟨.create, cnp.cn_pnbuf, redirectedShadowPath.string, error⟩
      else pure ()
      freePath (some shadowPath)
      freePath (some redirectedShadowPath)
      pure (error, a_vpp)

def qvrVnopCreateHookEx2 (ctx : VfsContext) (dvp : Vnode) (cnp : Componentname) :
    Kernel Vnode (Int × Option Vnode) := do
  match ctx.createNew with
  | none => vnopCreate dvp cnp
  | some appData => do
    if ← isRecursiveCallOrUserClient then vnopCreate dvp cnp
    else do
      let isControlledFile ← filter .create cnp.cn_pnbuf
      if isControlledFile then createRedirected appData dvp { cnp with makeEntry := false }
      else vnopCreate dvp cnp

-- ---------------------------------------------------------------------------
-- Rename
-- ---------------------------------------------------------------------------

/-- The vnodes that the hook has to put in the end, and those of the request. -/
structure RenameLocals (Vnode : Type) where
  /-- of `apRedirected` -/
  a_fdvp : Option Vnode := none
  a_fvp : Option Vnode := none
  a_tdvp : Option Vnode := none
  a_tvp : Option Vnode := none
  originalFvp : Option Vnode := none
  originalTvp : Option Vnode := none
  newFvp : Option Vnode := none
  newTvp : Option Vnode := none
  oldFvp : Option Vnode := none
  oldTvp : Option Vnode := none

/-- One conversion after another; the paths so far when one fails. -/
def convertPaths : List (Kernel Vnode (Int × Option PathBuffer)) →
    Kernel Vnode (Int × List PathBuffer)
  | [] => pure (0, [])
  | conversion :: conversions => do
    match ← conversion with
    | (error, none) => pure (error, [])
    | (_, some path) => do
      let (error, paths) ← convertPaths conversions
      pure (error, path :: paths)

/-- `QvrFreeShadowPath`, `QvrFreeRedirectedPath`, of all paths. -/
def freePaths : List PathBuffer → Kernel Vnode Unit
  | [] => pure ()
  | path :: paths => do
    freePath (some path)
    freePaths paths

/-- A componentname with another path and name. -/
def Componentname.withPath (cnp : Componentname) (path name : PathBuffer) : Componentname :=
  { cnp with
    cn_pnbuf := path.string
    cn_pnlen := path.size - 1
    cn_nameptr := name.string
    cn_namelen := name.size - 1
    cn_hash := 0 }

/-- From `__exit` on; `paths` in the order of their conversion. -/
def renameExit (ap : RenameArgs Vnode) (error : Int) (paths : List PathBuffer)
    (l : RenameLocals Vnode) : Kernel Vnode (Int × RenameArgs Vnode) := do
  audit ⟨.rename, ap.a_fcnp.cn_pnbuf, ap.a_tcnp.cn_pnbuf, error⟩
  match paths with
  | fromRedirectedFilePath :: _ :: toRedirectedFilePath :: _ =>
    audit ⟨.rename, fromRedirectedFilePath.string, toRedirectedFilePath.string, error⟩
  | _ => pure ()
  putIfAny l.a_fdvp
  putIfAny l.a_fvp
  putIfAny l.a_tdvp
  putIfAny l.a_tvp
  freePaths (paths.drop 4)
  freePaths (paths.take 4)
  putIfAny l.originalFvp
  putIfAny l.originalTvp
  putIfAny l.newFvp
  putIfAny l.newTvp
  pure (error, { ap with a_fvp := l.oldFvp.or ap.a_fvp, a_tvp := l.oldTvp.or ap.a_tvp })

/-- The original target, where the request has a target. -/
def lookupOriginalTarget (ap : RenameArgs Vnode) : Kernel Vnode (Int × Option Vnode) :=
  match ap.a_tvp with
  | some _ => inRecursiveCall .a_tcnp (vnodeLookup ap.a_tcnp.cn_pnbuf ap.a_context)
  | none => pure (0, none)

/-- The request with the original vnodes in place of those that may be redirected. -/
def RenameArgs.swapped (ap : RenameArgs Vnode) (newFvp newTvp : Option Vnode) : RenameArgs Vnode :=
  { ap with a_fvp := newFvp, a_tvp := newTvp.or ap.a_tvp }

/-- Without `redirectIO`: the originals are renamed. -/
def renameOriginal (fvp : Vnode) (ap : RenameArgs Vnode) :
    Kernel Vnode (Int × RenameArgs Vnode) := do
  let (error, newFvp) ← inRecursiveCall .a_fcnp (vnodeLookup ap.a_fcnp.cn_pnbuf ap.a_context)
  if error ≠ 0 then renameExit ap error [] { newFvp }
  else do
    let (error, newTvp) ← lookupOriginalTarget ap
    if error ≠ 0 then renameExit ap error [] { newFvp, newTvp }
    else do
      let error ← vnopRename (.original fvp) (ap.swapped newFvp newTvp)
      renameExit (ap.swapped newFvp newTvp) error []
        { newFvp, newTvp, oldFvp := ap.a_fvp, oldTvp := newTvp.bind fun _ => ap.a_tvp }

/-- A target that only the protected storage has is emptied and replaced. -/
def lookupLeftoverTarget (ap : RenameArgs Vnode) (redirectedTvp : Vnode)
    (l : RenameLocals Vnode) : Kernel Vnode (RenameLocals Vnode) := do
  let (error2, originalTvp) ←
    inRecursiveCall .currentThread (vnodeLookup ap.a_tcnp.cn_pnbuf ap.a_context)
  match error2 with
  | 0 => do
    putIfAny originalTvp
    vnodePut redirectedTvp
    pure l
  | _ => do
    let _ ← inRecursiveCall .currentThread (qvrVnodeSetsize redirectedTvp 0 .superUser)
    vnodeGet redirectedTvp
    vnodePut redirectedTvp
    pure { l with a_tvp := some redirectedTvp }

/-- The target in the protected storage, and the original target. -/
def lookupTargets (ap : RenameArgs Vnode) (toRedirectedFilePath : List UInt8)
    (l : RenameLocals Vnode) : Kernel Vnode (Int × RenameLocals Vnode) := do
  match ap.a_tvp with
  | some _ => do
    let (error, a_tvp) ←
      inRecursiveCall .currentThread (vnodeLookup toRedirectedFilePath .superUser)
    let l := { l with a_tvp }
    if error ≠ 0 then pure (error, l)
    else do
      let (error, originalTvp) ←
        inRecursiveCall .currentThread (vnodeLookup ap.a_tcnp.cn_pnbuf ap.a_context)
      pure (error, { l with originalTvp })
  | none => do
    let (error2, redirectedTvp) ←
      inRecursiveCall .currentThread (vnodeLookup toRedirectedFilePath .superUser)
    match error2, redirectedTvp with
    | 0, some redirectedTvp => do
      let l ← lookupLeftoverTarget ap redirectedTvp l
      pure (0, l)
    | _, _ => pure (0, l)

/-- All vnodes that are renamed besides those of the request. -/
def lookupRenamed (appData : ApplicationData) (ap : RenameArgs Vnode)
    (fromRedirectedFilePath toRedirectedFilePath : List UInt8) :
    Kernel Vnode (Int × RenameLocals Vnode) := do
  let (error, a_fdvp) ←
    inRecursiveCall .currentThread (vnodeLookup appData.redirectTo .superUser)
  let l : RenameLocals Vnode := { a_fdvp }
  if error ≠ 0 then pure (error, l)
  else do
    let (error, a_tdvp) ←
      inRecursiveCall .currentThread (vnodeLookup appData.redirectTo .superUser)
    let l := { l with a_tdvp }
    if error ≠ 0 then pure (error, l)
    else do
      let (error, a_fvp) ← inRecursiveCall .a_fcnp (vnodeLookup fromRedirectedFilePath .superUser)
      let l := { l with a_fvp }
      if error ≠ 0 then pure (error, l)
      else do
        let (error, originalFvp) ←
          inRecursiveCall .a_fcnp (vnodeLookup ap.a_fcnp.cn_pnbuf ap.a_context)
        let l := { l with originalFvp }
        if error ≠ 0 then pure (error, l)
        else lookupTargets ap toRedirectedFilePath l

/-- `cache_purge` of the original file; a lookup that succeeds gives a vnode. -/
def purgeOriginal : Option Vnode → Kernel Vnode Unit
  | none => pure ()
  | some originalFvp => cachePurge originalFvp

/-- What follows the last rename. -/
def renameDone (fvp : Vnode) (originalFvp : Option Vnode) : Kernel Vnode Int := do
  removeShadowReverse fvp
  cachePurge fvp
  purgeOriginal originalFvp
  pure 0

/-- The renames of the shadow file and of the original. -/
def renameShadowAndOriginal (fvp : Vnode) (apShadow apOriginal : RenameArgs Vnode) :
    Kernel Vnode Int := do
  let error ← vnopRename (.original fvp) apShadow
  if error ≠ 0 then pure error
  else do
    let error ← vnopRename (.original fvp) apOriginal
    if error ≠ 0 then pure error else renameDone fvp apOriginal.a_fvp

/-- The three renames, that in the protected storage first. -/
def renameAll (fvp : Vnode) (apRedirected apShadow apOriginal : RenameArgs Vnode) :
    Kernel Vnode Int := do
  match apRedirected.a_fvp with
  | none => pure EINVAL -- a lookup that succeeds gives a vnode
  | some redirectedFvp => do
    let error ← vnopRename (.vnop redirectedFvp) apRedirected
    if error ≠ 0 then pure error else renameShadowAndOriginal fvp apShadow apOriginal

/-- The paths that a rename converts. -/
def renameConversions (appData : ApplicationData) (ap : RenameArgs Vnode) :
    List (Kernel Vnode (Int × Option PathBuffer)) :=
  [convertToShadowAndThenRedirectedPath ap.a_fcnp.cn_pnbuf appData.redirectTo,
    convertToShadowAndThenRedirectedPath ap.a_fcnp.cn_pnbuf [],
    convertToShadowAndThenRedirectedPath ap.a_tcnp.cn_pnbuf appData.redirectTo,
    convertToShadowAndThenRedirectedPath ap.a_tcnp.cn_pnbuf [],
    convertToShadowCopyPath ap.a_fcnp.cn_pnbuf, convertToShadowCopyPath ap.a_fcnp.cn_nameptr,
    convertToShadowCopyPath ap.a_tcnp.cn_pnbuf, convertToShadowCopyPath ap.a_tcnp.cn_nameptr]

/-- `apRedirected`, with the vnodes that were found. -/
def RenameArgs.redirected (ap : RenameArgs Vnode) (l : RenameLocals Vnode)
    (fromPath fromName toPath toName : PathBuffer) : RenameArgs Vnode where
  a_fdvp := l.a_fdvp
  a_fvp := l.a_fvp
  a_fcnp := ap.a_fcnp.withPath fromPath fromName
  a_tdvp := l.a_tdvp
  a_tvp := l.a_tvp
  a_tcnp := ap.a_tcnp.withPath toPath toName
  a_context := .superUser

/-- `apShadow` -/
def RenameArgs.shadow (ap : RenameArgs Vnode) (fromPath fromName toPath toName : PathBuffer) :
    RenameArgs Vnode :=
  { ap with
    a_fcnp := ap.a_fcnp.withPath fromPath fromName
    a_tcnp := ap.a_tcnp.withPath toPath toName
    a_context := .superUser }

/-- `apOriginal`, which keeps the path of the request: it is that of the original file. -/
def RenameArgs.original (ap : RenameArgs Vnode) (l : RenameLocals Vnode) : RenameArgs Vnode :=
  { ap with
    a_fvp := l.originalFvp
    a_tvp := l.originalTvp
    a_fcnp := { ap.a_fcnp with cn_hash := 0 }
    a_tcnp := { ap.a_tcnp with cn_hash := 0 } }

/-- With `redirectIO`. -/
def renameRedirectIo (appData : ApplicationData) (fvp : Vnode) (ap : RenameArgs Vnode) :
    Kernel Vnode (Int × RenameArgs Vnode) := do
  let (error, paths) ← convertPaths (renameConversions appData ap)
  match paths with
  | [fromRedirectedFilePath, fromRedirectedFileName, toRedirectedFilePath, toRedirectedFileName,
      fromShadowFilePath, fromShadowFileName, toShadowFilePath, toShadowFileName] => do
    let (error, l) ← lookupRenamed appData ap fromRedirectedFilePath.string
      toRedirectedFilePath.string
    if error ≠ 0 then renameExit ap error paths l
    else do
      let error ← inRecursiveCall .currentThread (renameAll fvp
        (ap.redirected l fromRedirectedFilePath fromRedirectedFileName toRedirectedFilePath
          toRedirectedFileName)
        (ap.shadow fromShadowFilePath fromShadowFileName toShadowFilePath toShadowFileName)
        (ap.original l))
      renameExit ap error paths l
  | _ => renameExit ap error paths {}

/-- The request as it is, which comes back unchanged. -/
def renameUnchanged (fvp : Vnode) (ap : RenameArgs Vnode) :
    Kernel Vnode (Int × RenameArgs Vnode) := do
  let error ← vnopRename (.original fvp) ap
  pure (error, ap)

/-- `fvp` is `ap->a_fvp`; the request is returned with the error. -/
def qvrVnopRenameHookEx2 (ctx : VfsContext) (fvp : Vnode) (ap : RenameArgs Vnode) :
    Kernel Vnode (Int × RenameArgs Vnode) := do
  let appDataVnode ← getVnodeAppData fvp
  match appDataVnode.or ctx.openExisting with
  | none => renameUnchanged fvp ap
  | some appData => do
    if ← isRecursiveCallOrUserClient then renameUnchanged fvp ap
    else match appData.redirectIo with
      | true => renameRedirectIo appData fvp ap
      | false => renameOriginal fvp ap

end VfsRedirector
