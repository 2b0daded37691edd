import VfsRedirector.Library.Namespace
import VfsRedirector.Library.Transition
import VfsRedirector.Path.Shadow
import VfsRedirector.Redirect.Calls

/-!
# The hooks over a file namespace

`World` is what the hooks run in when only files and associations matter: the
file namespace, what the files hold, `VNodeMap`, and the mark of the thread. A
vnode is a file and its number. Any call may fail; one that is answered with
success does what it is for, as far as the namespace allows it. The daemon
creates the file that it is told of when there is none (`cp` in its main.cpp opens
it with `O_EXCL`).

`redirectSystem` runs the hooks for one controlled application, one at a time.
The calls that a hook makes are those of the file system: what it calls is not
redirected again.
-/

namespace VfsRedirector

open Library CanonicalPath

/-- How the environment answers a call: an error, or success with a value where
the call returns a number. -/
structure Answer where
  error : Int := 0
  value : Nat := 0

structure World where
  ns : Namespace Nat
  vtype : Nat → Vtype
  contents : Nat → List UInt8
  /-- The number of the next new file. -/
  next : Nat
  map : VNodeMap Nat ApplicationData
  cookie : Option Cookie

namespace World

/-- A new regular file, which is empty. -/
def create (w : World) (p : CanonicalPath) : World :=
  { w with
    ns := w.ns.add p w.next
    vtype := Function.update w.vtype w.next .vreg
    contents := Function.update w.contents w.next []
    next := w.next + 1 }

/-- A file is cut, or filled up with zeros. -/
def setSize (w : World) (vp size : Nat) (error : Int) : World :=
  if error = 0 then
    { w with
      contents := Function.update w.contents vp
        (w.contents vp |>.take size |>.rightpad size 0) }
  else w

def lookupPath (w : World) (p : CanonicalPath) (error : Int) : Int × Option Nat :=
  if error ≠ 0 then (error, none)
  else match w.ns.find p with
    | some vp => (0, some vp)
    | none => (ENOENT, none)

/-- The path of a name in a directory. -/
def entryPath (w : World) (dvp : Nat) (cnp : Componentname) : Option CanonicalPath :=
  (w.ns.pathOf dvp).map (·.enter (cnp.cn_nameptr.take cnp.cn_namelen))

def openPath (w : World) (p : CanonicalPath) (error : Int) : World × Int × Option Nat :=
  if error ≠ 0 then (w, error, none)
  else match w.ns.find p with
    | some vp => if w.vtype vp = .vreg then (w.setSize vp 0 0, 0, some vp) else (w, EISDIR, none)
    | none => (w.create p, 0, some w.next)

def createEntry (w : World) (p : Option CanonicalPath) (error : Int) : World × Int × Option Nat :=
  if error ≠ 0 then (w, error, none)
  else match p with
    | none => (w, ENOENT, none)
    | some p => if w.ns.find p = none then (w.create p, 0, some w.next) else (w, EEXIST, none)

def rename (w : World) (source target : Option CanonicalPath) (error : Int) : World × Int :=
  if error ≠ 0 then (w, error)
  else match source, target with
    | some f, some t =>
      match w.ns.rename f t with
      | some ns => ({ w with ns }, 0)
      | none => (w, EINVAL)
    | _, _ => (w, ENOENT)

/-- The daemon, which is sent a path of less than `MAXPATHLEN` bytes only. -/
def daemon (w : World) (path : List UInt8) (error : Int) : World :=
  if error = 0 ∧ path.length < MAXPATHLEN ∧ w.ns.find (resolve root path) = none then
    w.create (resolve root path)
  else w

/-- The environment of the hooks. -/
def effect : Env (@KernelOp.Res Nat) World Answer
  | w, .ioMalloc _, c => (w, if c.error = 0 then some c.value else none)
  | w, .vnodeLookup path _, c => (w, w.lookupPath (resolve root path) c.error)
  | w, .vnodeOpen path, c => w.openPath (resolve root path) c.error
  | w, .vnodeVtype vp, _ => (w, w.vtype vp)
  | w, .localVnodeAttr, _ => (w, {})
  | w, .vnodeGetattr _ va, c => (w, c.error, va)
  | w, .vnGetpath vp, c =>
    (w, if c.error ≠ 0 then (c.error, [])
      else match w.ns.pathOf vp with
        | some p => (0, p.string)
        | none => (ENOENT, []))
  | w, .vnRdwr .., c => (w, c.error)
  | w, .qvrGetVnodeVfsFlags _, _ => (w, ⟨false, false⟩)
  | w, .qvrVnodeGetSize vp _, c => (w, c.error, (w.contents vp).length)
  | w, .qvrVnodeSetsize vp size _, c => (w.setSize vp size c.error, c.error)
  | w, .ubcPagesResident _, c => (w, decide (c.value ≠ 0))
  | w, .ubcCreateUpl .., c => (w, c.error, if c.error = 0 then some c.value else none)
  | w, .ubcUplMap _, c => (w, c.error, c.value)
  | w, .vnopLookup dvp cnp, c =>
    (w, match w.entryPath dvp cnp with
      | some p => w.lookupPath p c.error
      | none => (ENOENT, none))
  | w, .vnopCreate dvp cnp, c => w.createEntry (w.entryPath dvp cnp) c.error
  | w, .vnopRename _ ap, c =>
    w.rename (ap.a_fdvp.bind (w.entryPath · ap.a_fcnp)) (ap.a_tdvp.bind (w.entryPath · ap.a_tcnp))
      c.error
  | w, .vnopClose .., c => (w, c.error)
  | w, .vnopInactive _, c => (w, c.error)
  | w, .vnopExchange _, c => (w, c.error)
  | w, .vnopGetattr _ ap, c => (w, c.error, ap.a_vap)
  | w, .vnopRead .., c => (w, c.error)
  | w, .vnopWrite .., c => (w, c.error)
  | w, .vnopPagein .., c => (w, c.error)
  | w, .vnopPageout .., c => (w, c.error)
  | w, .filter _ _, c => (w, decide (c.error = 0))
  | w, .callDaemon request, c => (w.daemon request.redirectedFilePath c.error, ())
  | w, .isUserClient, _ => (w, false)
  | w, .cookieForRecursiveCall, _ => (w, w.cookie)
  | w, .enterRecursiveCall cookie, c =>
    (if c.error = 0 then { w with cookie := some cookie } else w, ())
  | w, .leaveRecursiveCall, _ => ({ w with cookie := none }, ())
  | w, .nameiopAt _, c => (w, UInt32.ofNat c.value)
  | w, .getVnodeAppData vn, _ => (w, w.map.getVnodeAppData vn)
  | w, .addVnodeAppData vn data, c =>
    ({ w with map := w.map.addVnodeAppData vn data (c.error = 0) }, ())
  | w, .getVnodeIoRef vn, _ => (w, w.map.getVnodeIo vn)
  | w, .addVnodeIo vn vnodeIo, c =>
    ({ w with map := (w.map.addVnodeIo vn vnodeIo (c.error = 0)).1 }, ())
  | w, .removeVnodeIo vn, _ => ({ w with map := (w.map.removeVnodeIo vn).1 }, ())
  | w, .getVnodeShadowReverseRef vnodeShadow, _ => (w, w.map.getVnodeShadowReverse vnodeShadow)
  | w, .addVnodeShadowReverse vnodeShadow vn, c =>
    ({ w with map := (w.map.addVnodeShadowReverse vnodeShadow vn (c.error = 0)).1 }, ())
  | w, .removeShadowReverse vnodeShadow, _ =>
    ({ w with map := (w.map.removeShadowReverse vnodeShadow).1 }, ())
  | w, .ioFree _ _, _ => (w, ())
  | w, .vnodeClose _, _ => (w, ())
  | w, .vnodeGet _, _ => (w, ())
  | w, .vnodePut _, _ => (w, ())
  | w, .vnodeRecycle _, _ => (w, ())
  | w, .clusterPush _, _ => (w, ())
  | w, .cachePurge _, _ => (w, ())
  | w, .ubcMsync _ _, _ => (w, ())
  | w, .ubcUplUnmap _, _ => (w, ())
  | w, .ubcUplAbortRange .., _ => (w, ())
  | w, .exchangeFiles _ _, _ => (w, ())
  | w, .audit _, _ => (w, ())
  | w, .auditVnode _ _, _ => (w, ())

end World

-- ---------------------------------------------------------------------------
-- Runs of the hooks
-- ---------------------------------------------------------------------------

/-- An application in `gApplicationsData`. -/
structure ControlledApp where
  redirectTo : CanonicalPath
  ne_root : redirectTo.components ≠ []

namespace ControlledApp

variable (app : ControlledApp)

def createNew : ApplicationData := ⟨app.redirectTo.string, true⟩

def openExisting : ApplicationData := ⟨app.redirectTo.string, false⟩

def context : VfsContext := ⟨some app.redirectTo.string⟩

end ControlledApp

/-- A call of a hook for the application, with canonical absolute paths. In a
lookup `component` is the part of the path that is looked up; in a rename `fvp`
and `tvp` are the vnodes that the lookups before it gave for the paths. -/
inductive HookCall where
  | lookup (component path : CanonicalPath) (nameiop : NameiOp)
  | create (path : CanonicalPath)
  | rename (source target : CanonicalPath) (fvp : Nat) (tvp : Option Nat)

/-- A call with the answers to what the hook calls in turn. -/
structure HookAction where
  call : HookCall
  answers : Nat → KernelOp Nat → Answer

/-- The componentname of `component`, in a path. -/
def componentname (component path : CanonicalPath) (nameiop : NameiOp) : Componentname where
  cn_pnbuf := path.string
  cn_pnlen := path.string.length
  cn_nameptr := component.baseName
  cn_namelen := component.baseName.length
  cn_nameiop := nameiop
  makeEntry := true
  cn_hash := 0

/-- Runs a hook that is not called from inside of a recursion. -/
def World.run {α : Type} (w : World) (answers : Nat → KernelOp Nat → Answer) (p : Kernel Nat α) :
    World :=
  (p.exec World.effect answers 0 { w with cookie := none }).1

/-- The arguments of a rename, with the vnodes of the directories. -/
def renameArgs (fdvp tdvp : Nat) (source target : CanonicalPath) (fvp : Nat) (tvp : Option Nat) :
    RenameArgs Nat where
  a_fdvp := some fdvp
  a_fvp := some fvp
  a_fcnp := componentname source source .DELETE
  a_tdvp := some tdvp
  a_tvp := tvp
  a_tcnp := componentname target target .RENAME
  a_context := .caller

/-- A hook is called with the vnodes of the directories, which have to exist. -/
def redirectStep (app : ControlledApp) (w : World) (a : HookAction) : Option World :=
  match a.call with
  | .lookup component path nameiop =>
    (w.ns.find component.parent).map fun dvp =>
      w.run a.answers (qvrVnopLookupHookEx2 app.context dvp (componentname component path nameiop))
  | .create path =>
    (w.ns.find path.parent).map fun dvp =>
      w.run a.answers (qvrVnopCreateHookEx2 app.context dvp (componentname path path .CREATE))
  | .rename source target fvp tvp =>
    (w.ns.find source.parent).bind fun fdvp => (w.ns.find target.parent).map fun tdvp =>
      w.run a.answers
        (qvrVnopRenameHookEx2 app.context fvp (renameArgs fdvp tdvp source target fvp tvp))

/-- Any files may exist in the beginning, and the maps are empty. -/
def redirectSystem (app : ControlledApp) : System World HookAction where
  init w := w.map = VNodeMap.empty ∧ ∀ e ∈ w.ns.entries, e.2 < w.next
  step := redirectStep app

end VfsRedirector
