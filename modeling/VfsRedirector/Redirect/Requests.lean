import VfsRedirector.Library.Threads
import VfsRedirector.Redirect.Releases

/-!
# Requests of several threads

The file system operations of all threads as one system: each request runs the code
of its hook, one call at a time, and the threads share `VNodeMap` and the recursion
engine (`Shared`). What the calls besides these return is up to the environment
(`Outcome`). The reclaim hook and the close of the client remove entries of
`VNodeMap` at any time (`MapEvent`).

## Results

* `reachable_unloaded` — runs begin where nothing is loaded.
-/

namespace VfsRedirector

open Library

abbrev CallLog (Vnode : Type) : Type := Log (@KernelOp.Res Vnode)

inductive Request (Vnode : Type) where
  | lookup (ctx : VfsContext) (dvp : Vnode) (cnp : Componentname)
  | create (ctx : VfsContext) (dvp : Vnode) (cnp : Componentname)
  | other (ctx : VfsContext) (request : HookRequest Vnode)

variable {Thread Vnode : Type} [DecidableEq Thread] [DecidableEq Vnode]

/-- The hook, which returns an error. -/
def Request.code : Request Vnode → Kernel Vnode Int
  | lookup ctx dvp cnp => return (← qvrVnopLookupHookEx2 ctx dvp cnp).1
  | create ctx dvp cnp => return (← qvrVnopCreateHookEx2 ctx dvp cnp).1
  | other ctx request => return (← request.run ctx).1

/-- What the threads share: `VNodeMap`, and the mark of each thread. -/
structure Shared (Thread Vnode : Type) where
  map : VNodeMap Vnode ApplicationData
  marks : DataMap Thread Cookie

/-- A removal from `VNodeMap` outside of the hooks: by the reclaim of a vnode, or by a
round of `releaseAllVnodeIO` or `releaseAllShadowReverse` when the client closes. -/
inductive MapEvent (Vnode : Type) where
  | removeVnodeAppData (vn : Vnode)
  | removeVnodeIo (vn : Vnode)
  | removeShadowReverse (vn : Vnode)
  | releaseVnodeIo
  | releaseShadowReverse

def MapEvent.apply (s : Shared Thread Vnode) : MapEvent Vnode → Shared Thread Vnode
  | removeVnodeAppData vn => { s with map := s.map.removeVnodeAppData vn }
  | removeVnodeIo vn => { s with map := (s.map.removeVnodeIo vn).1 }
  | removeShadowReverse vn => { s with map := (s.map.removeShadowReverse vn).1 }
  | releaseVnodeIo =>
    { s with map.instanceForVnodeIo := s.map.instanceForVnodeIo.removeFirstEntryAndReturnItsData.1 }
  | releaseShadowReverse =>
    { s with
      map.instanceForShadowToVnode :=
        s.map.instanceForShadowToVnode.removeFirstEntryAndReturnItsData.1 }

/-- What a call of a thread does. -/
def Shared.effect (t : Thread) :
    Env (@KernelOp.Res Vnode) (Shared Thread Vnode) (Outcome Vnode)
  | s, .cookieForRecursiveCall, _ => (s, s.marks.getDataByKey t)
  | s, .enterRecursiveCall cookie, c =>
    ({ s with marks := (s.marks.addDataByKey t cookie c.alloc).1 }, ())
  | s, .leaveRecursiveCall, _ => ({ s with marks := s.marks.removeKey t }, ())
  | s, .getVnodeAppData vn, _ => (s, s.map.getVnodeAppData vn)
  | s, .addVnodeAppData vn data, c => ({ s with map := s.map.addVnodeAppData vn data c.alloc }, ())
  | s, .getVnodeIoRef vn, _ => (s, s.map.getVnodeIo vn)
  | s, .addVnodeIo vn vnodeIo, c => ({ s with map := (s.map.addVnodeIo vn vnodeIo c.alloc).1 }, ())
  | s, .removeVnodeIo vn, _ => ({ s with map := (s.map.removeVnodeIo vn).1 }, ())
  | s, .getVnodeShadowReverseRef vn, _ => (s, s.map.getVnodeShadowReverse vn)
  | s, .addVnodeShadowReverse vnodeShadow vn, c =>
    ({ s with map := (s.map.addVnodeShadowReverse vnodeShadow vn c.alloc).1 }, ())
  | s, .removeShadowReverse vn, _ => ({ s with map := (s.map.removeShadowReverse vn).1 }, ())
  | s, o, c => (s, c.result o)

abbrev RedirectHooks (Thread Vnode : Type) : Type :=
  Threads Thread (Shared Thread Vnode) (@KernelOp.Res Vnode) (Request Vnode) Int

abbrev HooksAction (Thread Vnode : Type) : Type :=
  ThreadAction Thread (Request Vnode) (Outcome Vnode) (MapEvent Vnode)

/-- From the load of the filter on. -/
def redirectHookSystem (Thread Vnode : Type) [DecidableEq Thread] [DecidableEq Vnode] :
    System (RedirectHooks Thread Vnode) (HooksAction Thread Vnode) :=
  threadSystem (fun s => s.map = .empty ∧ s.marks = .empty) Shared.effect Request.code
    fun e s => e.apply s

-- ---------------------------------------------------------------------------
-- A file system that finds everything
-- ---------------------------------------------------------------------------

def unloaded : RedirectHooks Nat Nat := ⟨⟨.empty, .empty⟩, fun _ => []⟩

/-- The runs of examples begin where nothing is loaded. -/
theorem reachable_unloaded {ok : RedirectHooks Nat Nat → HooksAction Nat Nat → Prop} :
    ReachableBy (redirectHookSystem Nat Nat) ok unloaded :=
  .init ⟨⟨rfl, rfl⟩, fun _ => rfl⟩

/-- Every call succeeds, but `vn_getpath` may not. -/
def answerAll (getpath : Int) : Outcome Nat where
  result
    | .vnodeLookup .. => (0, some 5)
    | .vnGetpath _ => (getpath, [47, 100])
    | o => Ledger.success [] o
  alloc := true

/-- An application creates `/d/a`. -/
def createRequest : Request Nat :=
  .create ⟨some [47, 114]⟩ 2 ⟨[47, 100, 47, 97], 4, [97], 1, .CREATE, true, 0⟩

end VfsRedirector
