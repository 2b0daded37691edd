import VfsRedirector.VNode
import VfsRedirector.VNodeHook.Model

/-!
# Reclaim: the life of a vnode and what is kept about it

The KAUTH callback calls `QvrHookVnodeVop` on vnodes, the lookup and create
hooks associate data with vnodes, and the kernel reclaims vnodes that nobody
holds and uses the structures again for other files. The reclamation of a vnode
calls the function in the reclaim slot of its vector; `QvrFsdReclaimHookEx2`,
if it is this one, unhooks the vnode and its parent and removes what is
associated with the vnode.

Hooking and unhooking take the steps of `hookSystem`, so a vnode that is
reclaimed may find its vector half written. A thread in a call on a vnode has
an iocount on it, as the kernel requires; the references that the maps have on
vnodes they map *to* are left out, so here such vnodes can be reclaimed too.
-/

namespace VfsRedirector.Reclaim

open Library VNodeHook

inductive Life where
  | live
  | reclaiming
  | reclaimed
  deriving DecidableEq, Repr

/-- Where a thread is outside of the functions of VNodeHook: `hook`,
`getOriginal`, `unhook` and `unhookParent` are in a call of these, the others
are about to execute the operation they name. -/
inductive ReclaimPc (Vnode : Type) where
  | idle
  | hook (v : Vnode)
  -- QvrFsdReclaimHookEx2
  | getOriginal (v : Vnode)
  | unhook (v : Vnode)
  | unhookParent (v parent : Vnode)
  | removeVnodeAppData (v : Vnode)
  | removeVnodeIo (v : Vnode)
  | removeShadowReverse (v : Vnode)
  | origVnop (v : Vnode)
  deriving DecidableEq, Repr

structure Vnodes (Thread Vnode OpVec App : Type) where
  hooks : Hooks Thread Vnode OpVec
  maps : VNodeMap Vnode App
  vOp : Vnode → OpVec
  vtype : Vnode → VNodeHook.Vtype
  life : Vnode → Life
  iocount : Vnode → Int
  pc : Thread → ReclaimPc Vnode

inductive VnodeAction (Thread Vnode OpVec App : Type) where
  /-- The KAUTH callback calls `QvrHookVnodeVop`. -/
  | hook (t : Thread) (v : Vnode) (isRecycled : Bool)
  /-- The next atomic operation of a thread in a function of VNodeHook. -/
  | inner (t : Thread) (alloc : Option Nat)
  /-- The next atomic operation of a thread outside of these functions;
  `parent` is what `vnode_getparent` returns. -/
  | advance (t : Thread) (parent : Option Vnode)
  -- the calls that the lookup and create hooks make
  | addVnodeAppData (v : Vnode) (data : App) (alloc : Bool)
  | addVnodeIo (v vnodeIo : Vnode) (alloc : Bool)
  | addVnodeShadowReverse (vnodeShadow v : Vnode) (alloc : Bool)
  /-- The kernel reclaims a vnode. -/
  | reclaim (t : Thread) (v : Vnode)
  /-- The kernel uses the structure of a reclaimed vnode for another file. -/
  | recycle (v : Vnode) (vOp : OpVec) (vtype : VNodeHook.Vtype)

namespace Vnodes

variable {Thread Vnode OpVec App : Type}
variable [DecidableEq Thread] [DecidableEq Vnode] [DecidableEq OpVec]

/-- The vnode as an argument. -/
def arg (s : Vnodes Thread Vnode OpVec App) (v : Vnode) : VnodeT Vnode OpVec :=
  ⟨v, s.vOp v, s.vtype v⟩

def goto (s : Vnodes Thread Vnode OpVec App) (t : Thread) (p : ReclaimPc Vnode) :
    Vnodes Thread Vnode OpVec App :=
  { s with pc := Function.update s.pc t p }

def vnodeGet (s : Vnodes Thread Vnode OpVec App) (v : Vnode) : Vnodes Thread Vnode OpVec App :=
  { s with iocount := Function.update s.iocount v (s.iocount v + 1) }

def vnodePut (s : Vnodes Thread Vnode OpVec App) (v : Vnode) : Vnodes Thread Vnode OpVec App :=
  { s with iocount := Function.update s.iocount v (s.iocount v - 1) }

def setLife (s : Vnodes Thread Vnode OpVec App) (v : Vnode) (life : Life) :
    Vnodes Thread Vnode OpVec App :=
  { s with life := Function.update s.life v life }

/-- A step of the functions of VNodeHook. -/
def callHooks (k : VNodeHook.Kernel) (s : Vnodes Thread Vnode OpVec App)
    (a : VNodeHook.HookAction Thread Vnode OpVec) : Option (Vnodes Thread Vnode OpVec App) :=
  (s.hooks.step k a).map fun hooks => { s with hooks := hooks }

/-- The next operation of a thread that is in no function of VNodeHook. -/
def advance (k : VNodeHook.Kernel) (s : Vnodes Thread Vnode OpVec App) (t : Thread)
    (parent : Option Vnode) : Option (Vnodes Thread Vnode OpVec App) :=
  match s.pc t with
  | .idle => none
  | .hook v => some ((s.vnodePut v).goto t .idle)
  | .getOriginal v => (s.goto t (.unhook v)).callHooks k (.unhook t (s.arg v))
  | .unhook v =>
    match parent with
    | none => some (s.goto t (.removeVnodeAppData v))
    | some parent =>
      if s.life parent = .live then
        ((s.vnodeGet parent).goto t (.unhookParent v parent)).callHooks k
          (.unhook t (s.arg parent))
      else none
  | .unhookParent v parent => some ((s.vnodePut parent).goto t (.removeVnodeAppData v))
  | .removeVnodeAppData v =>
    some { s.goto t (.removeVnodeIo v) with maps := s.maps.removeVnodeAppData v }
  | .removeVnodeIo v =>
    some { s.goto t (.removeShadowReverse v) with maps := (s.maps.removeVnodeIo v).1 }
  | .removeShadowReverse v =>
    some { s.goto t (.origVnop v) with maps := (s.maps.removeShadowReverse v).1 }
  | .origVnop v => some ((s.setLife v .reclaimed).goto t .idle)

def step (k : VNodeHook.Kernel) (s : Vnodes Thread Vnode OpVec App) :
    VnodeAction Thread Vnode OpVec App → Option (Vnodes Thread Vnode OpVec App)
  | .hook t v isRecycled =>
    if s.pc t = .idle ∧ s.life v = .live then
      ((s.vnodeGet v).goto t (.hook v)).callHooks k (.hook t (s.arg v) isRecycled)
    else none
  | .inner t alloc => s.callHooks k (.advance t alloc)
  | .advance t parent => if s.hooks.pc t = .idle then s.advance k t parent else none
  | .addVnodeAppData v data alloc =>
    if s.life v = .live then some { s with maps := s.maps.addVnodeAppData v data alloc } else none
  | .addVnodeIo v vnodeIo alloc =>
    if s.life v = .live then some { s with maps := (s.maps.addVnodeIo v vnodeIo alloc).1 } else none
  | .addVnodeShadowReverse vnodeShadow v alloc =>
    if s.life vnodeShadow = .live then
      some { s with maps := (s.maps.addVnodeShadowReverse vnodeShadow v alloc).1 }
    else none
  | .reclaim t v =>
    if s.pc t = .idle ∧ s.life v = .live ∧ s.iocount v = 0 then
      if s.hooks.slots (s.vOp v) (k.vnopOffset .reclaim) = .hook .qvrFsdReclaimHookEx2 then
        ((s.setLife v .reclaiming).goto t (.getOriginal v)).callHooks k
          (.getOriginal t (s.arg v) .reclaim)
      else some (s.setLife v .reclaimed)
    else none
  | .recycle v vOp vtype =>
    if s.life v = .reclaimed then
      some { s.setLife v .live with
        vOp := Function.update s.vOp v vOp
        vtype := Function.update s.vtype v vtype }
    else none

/-- Nothing is hooked and nothing is associated; the structures of some vnodes
are in use, with any vectors and types. -/
structure Initial (initialOps : OpVec → Nat → Nat) (s : Vnodes Thread Vnode OpVec App) : Prop where
  hooks : s.hooks = Hooks.initial initialOps
  maps : s.maps = .empty
  life : ∀ v, s.life v ≠ .reclaiming
  iocount : ∀ v, s.iocount v = 0
  pc : ∀ t, s.pc t = .idle

end Vnodes

def vnodeSystem {Thread Vnode OpVec : Type} (App : Type) [DecidableEq Thread] [DecidableEq Vnode]
    [DecidableEq OpVec] (k : VNodeHook.Kernel) (initialOps : OpVec → Nat → Nat) :
    System (Vnodes Thread Vnode OpVec App) (VnodeAction Thread Vnode OpVec App) where
  init := Vnodes.Initial initialOps
  step := Vnodes.step k

end VfsRedirector.Reclaim
