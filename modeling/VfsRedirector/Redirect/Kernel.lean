import VfsRedirector.Library.Prog
import VfsRedirector.Path.Routes
import VfsRedirector.VNode

/-!
# What the hooks call

The hooks that redirect are code that calls the kernel, the file system under
them, the daemon, `VNodeMap` and the recursion engine. `KernelOp` lists these
calls with what is passed in them, and `KernelOp.Res` what comes back; the hooks
are programs over them. What a call does is left to the environment a program is
run in.

A string that a hook converts is in a buffer from `IOMalloc`; its contents are
those of `qvrConvertToShadowCopyPath_eq` and `qvrConvertToRedirectedPath_eq`.
`assert` is compiled out, and so are the debug prints.
-/

namespace VfsRedirector

open Library

def ENOENT : Int := 2
def EEXIST : Int := 17
def EISDIR : Int := 21
def EINVAL : Int := 22
def ENFILE : Int := 23
def ENODATA : Int := 96
def EJUSTRETURN : Int := -2

inductive Vtype where
  | vreg
  | vdir
  deriving DecidableEq

/-- The `u_int32_t` of a componentname. -/
abbrev NameiOp := UInt32

namespace NameiOp

def LOOKUP : NameiOp := 0
def CREATE : NameiOp := 1
def DELETE : NameiOp := 2
def RENAME : NameiOp := 3

end NameiOp

/-- `ap->a_context`, or `gSuperUserContext`. -/
inductive Context where
  | caller
  | superUser
  deriving DecidableEq

/-- What the recursion engine holds for a thread: the thread itself, or the address
of a field of `apRedirected` in the rename hook. -/
inductive Cookie where
  | currentThread
  | a_fcnp
  | a_tcnp
  deriving DecidableEq

structure ApplicationData where
  redirectTo : List UInt8
  redirectIo : Bool
  deriving DecidableEq

/-- The process that calls. An application is in both rows of `gApplicationsData`,
with the same `redirectTo`; `redirectIO` is true in the first one only. -/
structure VfsContext where
  application : Option (List UInt8)

/-- `QvrGetApplicationDataByContext` for `ADT_CreateNew` -/
def VfsContext.createNew (ctx : VfsContext) : Option ApplicationData :=
  ctx.application.map fun redirectTo => ⟨redirectTo, true⟩

/-- `QvrGetApplicationDataByContext` for `ADT_OpenExisting` -/
def VfsContext.openExisting (ctx : VfsContext) : Option ApplicationData :=
  ctx.application.map fun redirectTo => ⟨redirectTo, false⟩

structure Componentname where
  cn_pnbuf : List UInt8
  cn_pnlen : Nat
  cn_nameptr : List UInt8
  cn_namelen : Nat
  cn_nameiop : NameiOp
  /-- `MAKEENTRY` in `cn_flags` -/
  makeEntry : Bool
  cn_hash : Nat
  deriving DecidableEq

/-- `struct vnop_rename_args`; `none` for `NULLVP`. -/
structure RenameArgs (Vnode : Type) where
  a_fdvp : Option Vnode
  a_fvp : Option Vnode
  a_fcnp : Componentname
  a_tdvp : Option Vnode
  a_tvp : Option Vnode
  a_tcnp : Componentname
  a_context : Context
  deriving DecidableEq

structure ExchangeArgs (Vnode : Type) where
  a_fvp : Vnode
  a_tvp : Vnode
  a_options : Int
  a_context : Context
  deriving DecidableEq

/-- An attribute in a `struct vnode_attr`. -/
structure Attribute where
  active : Bool := false
  supported : Bool := false
  value : Nat := 0
  deriving DecidableEq

/-- A `struct vnode_attr`: the attributes that the getattr hook reads or writes, and all
others. -/
structure VnodeAttr where
  va_total_size : Attribute := {}
  va_total_alloc : Attribute := {}
  va_data_size : Attribute := {}
  va_data_alloc : Attribute := {}
  others : List Attribute := []
  deriving DecidableEq

structure GetattrArgs (Vnode : Type) where
  a_vp : Vnode
  a_vap : VnodeAttr
  a_context : Context
  deriving DecidableEq

/-- `struct vnop_read_args`, `struct vnop_write_args` -/
structure IoArgs (Vnode : Type) where
  a_vp : Vnode
  a_uio : Nat
  a_ioflag : Int
  a_context : Context
  deriving DecidableEq

/-- The bits of `a_flags` that the paging hooks read. -/
structure PagingFlags where
  /-- `UPL_NOCOMMIT` -/
  nocommit : Bool
  /-- `UPL_MSYNC` -/
  msync : Bool
  deriving DecidableEq

/-- `struct vnop_pagein_args`, `struct vnop_pageout_args` -/
structure PagingArgs (Vnode : Type) where
  a_vp : Vnode
  a_pl : Option Nat
  a_pl_offset : Nat
  a_f_offset : Int
  a_size : Nat
  a_flags : PagingFlags
  a_context : Context
  deriving DecidableEq

/-- Where an implementation comes from: `QvrGetOriginalVnodeOp`, or `QvrGetVnop`,
of a vnode. -/
inductive Implementation (Vnode : Type) where
  | original (vn : Vnode)
  | vnop (vn : Vnode)
  deriving DecidableEq

/-- The bits of `vfc_vfsflags` that the paging hooks read. -/
structure VfsFlags where
  /-- `VFC_VFSVNOP_PAGEINV2` -/
  pageinV2 : Bool
  /-- `VFC_VFSVNOP_PAGEOUTV2` -/
  pageoutV2 : Bool
  deriving DecidableEq

/-- The flags for `ubc_create_upl`. -/
inductive UplFlag where
  | UBC_PAGEIN
  | UBC_PAGEOUT
  | UBC_MSYNC
  | RET_ONLY_ABSENT
  | RET_ONLY_DIRTY
  deriving DecidableEq

/-- The operation in an audit record or a request for filtering. -/
inductive HookedOp where
  | lookup
  | create
  | read
  | write
  | rename
  deriving DecidableEq

/-- `Parameters.Lookup` of a `QvrPreOperationCallback`. -/
structure LookupRequest where
  pathToLookup : List UInt8
  shadowFilePath : Option (List UInt8)
  redirectedFilePath : List UInt8
  calledFromCreate : Bool
  deriving DecidableEq

structure Audit where
  op : HookedOp
  path : List UInt8
  redirectedPath : List UInt8
  error : Int
  deriving DecidableEq

inductive KernelOp (Vnode : Type) where
  | ioMalloc (size : Nat)
  | ioFree (addr size : Nat)
  | vnodeLookup (path : List UInt8) (context : Context)
  /-- with `O_CREAT | O_TRUNC | FREAD | FWRITE` -/
  | vnodeOpen (path : List UInt8)
  | vnodeClose (vp : Vnode)
  | vnodeGet (vp : Vnode)
  | vnodePut (vp : Vnode)
  | vnodeRecycle (vp : Vnode)
  | vnodeVtype (vp : Vnode)
  /-- a local `struct vnode_attr`, with what it holds when it is declared -/
  | localVnodeAttr
  | vnodeGetattr (vp : Vnode) (va : VnodeAttr)
  | vnGetpath (vp : Vnode)
  | vnRdwr (op : HookedOp) (vp : Vnode) (map size : Nat) (offset : Int)
  | clusterPush (vp : Vnode)
  | cachePurge (vp : Vnode)
  | qvrGetVnodeVfsFlags (vp : Vnode)
  | qvrVnodeGetSize (vp : Vnode) (context : Context)
  | qvrVnodeSetsize (vp : Vnode) (size : Nat) (context : Context)
  | ubcMsync (vp : Vnode) (size : Nat)
  | ubcPagesResident (vp : Vnode)
  | ubcCreateUpl (vp : Vnode) (offset : Int) (size : Nat) (flags : List UplFlag)
  | ubcUplMap (upl : Nat)
  | ubcUplUnmap (upl : Nat)
  | ubcUplAbortRange (upl : Nat) (offset : Int) (size : Nat) (error : Bool)
  /-- the original operations -/
  | vnopLookup (dvp : Vnode) (cnp : Componentname)
  | vnopCreate (dvp : Vnode) (cnp : Componentname)
  | vnopClose (vp : Vnode) (a_fflag : Int)
  | vnopInactive (vp : Vnode)
  | vnopExchange (ap : ExchangeArgs Vnode)
  | vnopRename (implementation : Implementation Vnode) (ap : RenameArgs Vnode)
  | vnopGetattr (implementation : Implementation Vnode) (ap : GetattrArgs Vnode)
  | vnopRead (implementation : Implementation Vnode) (ap : IoArgs Vnode)
  | vnopWrite (implementation : Implementation Vnode) (ap : IoArgs Vnode)
  | vnopPagein (implementation : Implementation Vnode) (ap : PagingArgs Vnode)
  | vnopPageout (implementation : Implementation Vnode) (ap : PagingArgs Vnode)
  /-- `VFSOpcode_Filter`; whether the reply says that the file is controlled -/
  | filter (op : HookedOp) (path : List UInt8)
  /-- `VFSOpcode_Lookup` -/
  | callDaemon (request : LookupRequest)
  /-- `VFSOpcode_Exchange` -/
  | exchangeFiles (source target : List UInt8)
  | audit (record : Audit)
  /-- with a vnode in place of the paths -/
  | auditVnode (op : HookedOp) (vn : Vnode)
  | isUserClient
  /-- the operations of `RecursionEngine`, for the current thread -/
  | cookieForRecursiveCall
  | enterRecursiveCall (cookie : Cookie)
  | leaveRecursiveCall
  /-- the `cn_nameiop` that is read at an address -/
  | nameiopAt (cookie : Cookie)
  /-- the operations of `VNodeMap` -/
  | getVnodeAppData (vn : Vnode)
  | addVnodeAppData (vn : Vnode) (data : ApplicationData)
  | getVnodeIoRef (vn : Vnode)
  | addVnodeIo (vn vnodeIo : Vnode)
  | removeVnodeIo (vn : Vnode)
  | getVnodeShadowReverseRef (vnodeShadow : Vnode)
  | addVnodeShadowReverse (vnodeShadow vn : Vnode)
  | removeShadowReverse (vnodeShadow : Vnode)
  deriving DecidableEq

namespace KernelOp

/-- An `errno_t` is an `Int`; a vnode that is returned through a pointer is `none`
for `NULLVP`. -/
@[reducible]
def Res {Vnode : Type} : KernelOp Vnode → Type
  | ioMalloc _ => Option Nat
  | vnodeLookup .. | vnodeOpen _ | vnopLookup .. | vnopCreate .. => Int × Option Vnode
  | vnodeVtype _ => Vtype
  | localVnodeAttr => VnodeAttr
  | vnodeGetattr .. | vnopGetattr .. => Int × VnodeAttr
  | vnGetpath _ => Int × List UInt8
  | qvrGetVnodeVfsFlags _ => VfsFlags
  | qvrVnodeGetSize .. | ubcUplMap _ => Int × Nat
  | ubcCreateUpl .. => Int × Option Nat
  | vnRdwr .. | qvrVnodeSetsize .. => Int
  | vnopClose .. | vnopInactive _ | vnopExchange _ | vnopRename .. => Int
  | vnopRead .. | vnopWrite .. | vnopPagein .. | vnopPageout .. => Int
  | ubcPagesResident _ | filter .. | isUserClient => Bool
  | cookieForRecursiveCall => Option Cookie
  | nameiopAt _ => NameiOp
  | getVnodeAppData _ => Option ApplicationData
  | getVnodeIoRef _ | getVnodeShadowReverseRef _ => Option Vnode
  | _ => Unit

instance {Vnode : Type} [DecidableEq Vnode] (o : KernelOp Vnode) : DecidableEq o.Res :=
  match o with
  | ioMalloc _ => inferInstanceAs (DecidableEq (Option Nat))
  | vnodeLookup .. | vnodeOpen _ | vnopLookup .. | vnopCreate .. =>
    inferInstanceAs (DecidableEq (Int × Option Vnode))
  | vnodeVtype _ => inferInstanceAs (DecidableEq Vtype)
  | localVnodeAttr => inferInstanceAs (DecidableEq VnodeAttr)
  | vnodeGetattr .. | vnopGetattr .. => inferInstanceAs (DecidableEq (Int × VnodeAttr))
  | vnGetpath _ => inferInstanceAs (DecidableEq (Int × List UInt8))
  | qvrGetVnodeVfsFlags _ => inferInstanceAs (DecidableEq VfsFlags)
  | qvrVnodeGetSize .. | ubcUplMap _ => inferInstanceAs (DecidableEq (Int × Nat))
  | ubcCreateUpl .. => inferInstanceAs (DecidableEq (Int × Option Nat))
  | vnRdwr .. | qvrVnodeSetsize .. | vnopClose .. | vnopInactive _ | vnopExchange _
  | vnopRename .. | vnopRead .. | vnopWrite .. | vnopPagein .. | vnopPageout .. =>
    inferInstanceAs (DecidableEq Int)
  | ubcPagesResident _ | filter .. | isUserClient => inferInstanceAs (DecidableEq Bool)
  | cookieForRecursiveCall => inferInstanceAs (DecidableEq (Option Cookie))
  | nameiopAt _ => inferInstanceAs (DecidableEq NameiOp)
  | getVnodeAppData _ => inferInstanceAs (DecidableEq (Option ApplicationData))
  | getVnodeIoRef _ | getVnodeShadowReverseRef _ => inferInstanceAs (DecidableEq (Option Vnode))
  | ioFree .. | vnodeClose _ | vnodeGet _ | vnodePut _ | vnodeRecycle _ | clusterPush _
  | cachePurge _ | ubcMsync .. | ubcUplUnmap _ | ubcUplAbortRange .. | callDaemon _
  | exchangeFiles .. | audit _ | auditVnode .. | enterRecursiveCall _ | leaveRecursiveCall
  | addVnodeAppData .. | addVnodeIo .. | removeVnodeIo _ | addVnodeShadowReverse ..
  | removeShadowReverse _ => inferInstanceAs (DecidableEq Unit)

end KernelOp

/-- Code of a hook. -/
abbrev Kernel (Vnode : Type) := Prog (@KernelOp.Res Vnode)

namespace Kernel

variable {Vnode : Type}

def ioMalloc (size : Nat) : Kernel Vnode (Option Nat) := .perform (KernelOp.ioMalloc size)

def ioFree (addr size : Nat) : Kernel Vnode Unit := .perform (KernelOp.ioFree addr size)

def vnodeLookup (path : List UInt8) (context : Context) : Kernel Vnode (Int × Option Vnode) :=
  .perform (KernelOp.vnodeLookup path context)

def vnodeOpen (path : List UInt8) : Kernel Vnode (Int × Option Vnode) :=
  .perform (KernelOp.vnodeOpen path)

def vnodeClose (vp : Vnode) : Kernel Vnode Unit := .perform (KernelOp.vnodeClose vp)

def vnodeGet (vp : Vnode) : Kernel Vnode Unit := .perform (KernelOp.vnodeGet vp)

def vnodePut (vp : Vnode) : Kernel Vnode Unit := .perform (KernelOp.vnodePut vp)

def vnodeRecycle (vp : Vnode) : Kernel Vnode Unit := .perform (KernelOp.vnodeRecycle vp)

def vnodeVtype (vp : Vnode) : Kernel Vnode Vtype := .perform (KernelOp.vnodeVtype vp)

def localVnodeAttr : Kernel Vnode VnodeAttr := .perform KernelOp.localVnodeAttr

def vnodeGetattr (vp : Vnode) (va : VnodeAttr) : Kernel Vnode (Int × VnodeAttr) :=
  .perform (KernelOp.vnodeGetattr vp va)

def vnGetpath (vp : Vnode) : Kernel Vnode (Int × List UInt8) := .perform (KernelOp.vnGetpath vp)

def vnRdwr (op : HookedOp) (vp : Vnode) (map size : Nat) (offset : Int) : Kernel Vnode Int :=
  .perform (KernelOp.vnRdwr op vp map size offset)

def clusterPush (vp : Vnode) : Kernel Vnode Unit := .perform (KernelOp.clusterPush vp)

def cachePurge (vp : Vnode) : Kernel Vnode Unit := .perform (KernelOp.cachePurge vp)

def qvrGetVnodeVfsFlags (vp : Vnode) : Kernel Vnode VfsFlags :=
  .perform (KernelOp.qvrGetVnodeVfsFlags vp)

def qvrVnodeGetSize (vp : Vnode) (context : Context) : Kernel Vnode (Int × Nat) :=
  .perform (KernelOp.qvrVnodeGetSize vp context)

def qvrVnodeSetsize (vp : Vnode) (size : Nat) (context : Context) : Kernel Vnode Int :=
  .perform (KernelOp.qvrVnodeSetsize vp size context)

def ubcMsync (vp : Vnode) (size : Nat) : Kernel Vnode Unit := .perform (KernelOp.ubcMsync vp size)

def ubcPagesResident (vp : Vnode) : Kernel Vnode Bool := .perform (KernelOp.ubcPagesResident vp)

def ubcCreateUpl (vp : Vnode) (offset : Int) (size : Nat) (flags : List UplFlag) :
    Kernel Vnode (Int × Option Nat) :=
  .perform (KernelOp.ubcCreateUpl vp offset size flags)

def ubcUplMap (upl : Nat) : Kernel Vnode (Int × Nat) := .perform (KernelOp.ubcUplMap upl)

def ubcUplUnmap (upl : Nat) : Kernel Vnode Unit := .perform (KernelOp.ubcUplUnmap upl)

def ubcUplAbortRange (upl : Nat) (offset : Int) (size : Nat) (error : Bool) : Kernel Vnode Unit :=
  .perform (KernelOp.ubcUplAbortRange upl offset size error)

def vnopLookup (dvp : Vnode) (cnp : Componentname) : Kernel Vnode (Int × Option Vnode) :=
  .perform (KernelOp.vnopLookup dvp cnp)

def vnopCreate (dvp : Vnode) (cnp : Componentname) : Kernel Vnode (Int × Option Vnode) :=
  .perform (KernelOp.vnopCreate dvp cnp)

def vnopClose (vp : Vnode) (a_fflag : Int) : Kernel Vnode Int :=
  .perform (KernelOp.vnopClose vp a_fflag)

def vnopInactive (vp : Vnode) : Kernel Vnode Int := .perform (KernelOp.vnopInactive vp)

def vnopExchange (ap : ExchangeArgs Vnode) : Kernel Vnode Int := .perform (KernelOp.vnopExchange ap)

def vnopRename (implementation : Implementation Vnode) (ap : RenameArgs Vnode) : Kernel Vnode Int :=
  .perform (KernelOp.vnopRename implementation ap)

def vnopGetattr (implementation : Implementation Vnode) (ap : GetattrArgs Vnode) :
    Kernel Vnode (Int × VnodeAttr) :=
  .perform (KernelOp.vnopGetattr implementation ap)

def vnopRead (implementation : Implementation Vnode) (ap : IoArgs Vnode) : Kernel Vnode Int :=
  .perform (KernelOp.vnopRead implementation ap)

def vnopWrite (implementation : Implementation Vnode) (ap : IoArgs Vnode) : Kernel Vnode Int :=
  .perform (KernelOp.vnopWrite implementation ap)

def vnopPagein (implementation : Implementation Vnode) (ap : PagingArgs Vnode) : Kernel Vnode Int :=
  .perform (KernelOp.vnopPagein implementation ap)

def vnopPageout (implementation : Implementation Vnode) (ap : PagingArgs Vnode) :
    Kernel Vnode Int :=
  .perform (KernelOp.vnopPageout implementation ap)

def filter (op : HookedOp) (path : List UInt8) : Kernel Vnode Bool :=
  .perform (KernelOp.filter op path)

def callDaemon (request : LookupRequest) : Kernel Vnode Unit :=
  .perform (KernelOp.callDaemon request)

def exchangeFiles (source target : List UInt8) : Kernel Vnode Unit :=
  .perform (KernelOp.exchangeFiles source target)

def audit (record : Audit) : Kernel Vnode Unit := .perform (KernelOp.audit record)

def auditVnode (op : HookedOp) (vn : Vnode) : Kernel Vnode Unit :=
  .perform (KernelOp.auditVnode op vn)

def isUserClient : Kernel Vnode Bool := .perform KernelOp.isUserClient

def cookieForRecursiveCall : Kernel Vnode (Option Cookie) :=
  .perform KernelOp.cookieForRecursiveCall

def enterRecursiveCall (cookie : Cookie) : Kernel Vnode Unit :=
  .perform (KernelOp.enterRecursiveCall cookie)

def leaveRecursiveCall : Kernel Vnode Unit := .perform KernelOp.leaveRecursiveCall

def nameiopAt (cookie : Cookie) : Kernel Vnode NameiOp := .perform (KernelOp.nameiopAt cookie)

def getVnodeAppData (vn : Vnode) : Kernel Vnode (Option ApplicationData) :=
  .perform (KernelOp.getVnodeAppData vn)

def addVnodeAppData (vn : Vnode) (data : ApplicationData) : Kernel Vnode Unit :=
  .perform (KernelOp.addVnodeAppData vn data)

def getVnodeIoRef (vn : Vnode) : Kernel Vnode (Option Vnode) := .perform (KernelOp.getVnodeIoRef vn)

def addVnodeIo (vn vnodeIo : Vnode) : Kernel Vnode Unit := .perform (KernelOp.addVnodeIo vn vnodeIo)

def removeVnodeIo (vn : Vnode) : Kernel Vnode Unit := .perform (KernelOp.removeVnodeIo vn)

def getVnodeShadowReverseRef (vnodeShadow : Vnode) : Kernel Vnode (Option Vnode) :=
  .perform (KernelOp.getVnodeShadowReverseRef vnodeShadow)

def addVnodeShadowReverse (vnodeShadow vn : Vnode) : Kernel Vnode Unit :=
  .perform (KernelOp.addVnodeShadowReverse vnodeShadow vn)

def removeShadowReverse (vnodeShadow : Vnode) : Kernel Vnode Unit :=
  .perform (KernelOp.removeShadowReverse vnodeShadow)

end Kernel

open Kernel

variable {Vnode : Type}

-- ---------------------------------------------------------------------------
-- Converted paths
-- ---------------------------------------------------------------------------

/-- A string in a buffer from `IOMalloc`, with the size that was allocated. -/
structure PathBuffer where
  addr : Nat
  size : Nat
  string : List UInt8

/-- `QvrConvertToShadowCopyPath` -/
def convertToShadowCopyPath (path : List UInt8) : Kernel Vnode (Int × Option PathBuffer) := do
  let size := path.length + shadowPrefix.length + 1
  match ← ioMalloc size with
  | none => pure (ENOMEM, none)
  | some addr => pure (0, some ⟨addr, size, shadowCopy path⟩)

/-- `QvrConvertToRedirectedPath` -/
def convertToRedirectedPath (file redirectedDir : List UInt8) :
    Kernel Vnode (Int × Option PathBuffer) := do
  let slashLength := if redirectedDir = [] then 0 else (slashBetween file).length
  let size := redirectedDir.length + slashLength + file.length + 4
  match ← ioMalloc size with
  | none => pure (ENOMEM, none)
  | some addr => pure (0, some ⟨addr, size, redirected redirectedDir file⟩)

/-- `QvrFreeShadowPath`, `QvrFreeRedirectedPath`, where there is a path. -/
def freePath : Option PathBuffer → Kernel Vnode Unit
  | none => pure ()
  | some path => ioFree path.addr path.size

def convertToShadowAndThenRedirectedPath (path redirectedDir : List UInt8) :
    Kernel Vnode (Int × Option PathBuffer) := do
  match ← convertToShadowCopyPath path with
  | (error, none) => pure (error, none)
  | (_, some shadowPath) => do
    let result ← convertToRedirectedPath shadowPath.string redirectedDir
    freePath (some shadowPath)
    pure result

/-- What stands between `EnterRecursiveCall( cookie )` and `LeaveRecursiveCall()`. -/
def inRecursiveCall {α : Type} (cookie : Cookie) (p : Kernel Vnode α) : Kernel Vnode α := do
  enterRecursiveCall cookie
  let a ← p
  leaveRecursiveCall
  pure a

/-- `RecursionEngine::IsRecursiveCall() || IsUserClient()` -/
def isRecursiveCallOrUserClient : Kernel Vnode Bool := do
  match ← cookieForRecursiveCall with
  | some _ => pure true
  | none => isUserClient

/-- `vnode_put` where there is a vnode. -/
def putIfAny : Option Vnode → Kernel Vnode Unit
  | none => pure ()
  | some vp => vnodePut vp

-- ---------------------------------------------------------------------------
-- What a conversion returns
-- ---------------------------------------------------------------------------

/-- The string with its terminator fits in what was allocated. -/
def PathBuffer.Holds (b : PathBuffer) (s : List UInt8) : Prop :=
  b.string = s ∧ s.length < b.size

/-- A conversion fails for want of memory only. -/
def ConvertsTo (s : List UInt8) (r : Int × Option PathBuffer) : Prop :=
  r = ((ENOMEM : Int), none) ∨ ∃ b, r = (0, some b) ∧ b.Holds s

/-- The conversion returns the shadow path, or no memory. -/
theorem returns_convertToShadowCopyPath (path : List UInt8) :
    (convertToShadowCopyPath path : Kernel Vnode _).Returns (ConvertsTo (shadowCopy path)) := by
  refine .bind (.trivial _) fun addr _ => ?_
  cases addr with
  | none => exact .inl rfl
  | some addr =>
    refine .inr ⟨_, rfl, rfl, ?_⟩
    rw [length_shadowCopy]
    dsimp only
    split <;> omega

/-- The conversion returns the redirected path, or no memory. -/
theorem returns_convertToRedirectedPath (file redirectedDir : List UInt8) :
    (convertToRedirectedPath file redirectedDir : Kernel Vnode _).Returns
      (ConvertsTo (redirected redirectedDir file)) := by
  refine .bind (.trivial _) fun addr _ => ?_
  cases addr with
  | none => exact .inl rfl
  | some addr =>
    refine .inr ⟨_, rfl, rfl, ?_⟩
    by_cases hdir : redirectedDir = []
    · have hname : (withoutSlashes file).length ≤ file.length :=
        (List.dropWhile_sublist _).length_le
      rw [redirected, if_pos hdir, flatten, List.length_map]
      dsimp only
      omega
    · rw [length_redirected hdir, if_neg hdir]
      dsimp only
      omega

/-- The two conversions return the redirected path of the shadow path, or no memory. -/
theorem returns_convertToShadowAndThenRedirectedPath (path redirectedDir : List UInt8) :
    (convertToShadowAndThenRedirectedPath path redirectedDir : Kernel Vnode _).Returns
      (ConvertsTo (redirectedShadow redirectedDir path)) := by
  refine .bind (returns_convertToShadowCopyPath path) ?_
  rintro _ (rfl | ⟨b, rfl, hb⟩)
  · exact .inl rfl
  · rw [redirectedShadow, ← hb.1]
    exact .bind (returns_convertToRedirectedPath _ _) fun _ h => .bind (.trivial _) fun _ _ => h

end VfsRedirector
