import VfsRedirector.Library.Transition
import VfsRedirector.DataMap
import VfsRedirector.VNodeHook.Tables

/-!
# VNodeHook: hooking and unhooking of vnode operations vectors

Three functions work on the vectors of the file systems:
`QvrHookVnodeVop` counts a vnode in the entry that `sVnodeHooksHashTable` has
for its vector, and for the first one makes the entry, saves the functions of
the vector in it and writes the hooks over them; `QvrUnHookVnodeVop` uncounts a
vnode, and for the last one takes the entry out and writes the functions back;
`QvrGetOriginalVnodeOp` is how a hook finds the function it stands for.

One action is one atomic step of one thread. A region of the table's lock in
shared mode is one step, as nothing it reads can change within it; a region in
exclusive mode is as many steps as it has writes that others can see: the
slots of a vector and the counters are accessed by threads without the lock.
Nobody enters a region while a thread is in an exclusive one.

The allocator may place a `QvrVnodeHookEntry` wherever no live one is
(`retainCount` is 0), so an address may be used again: a step through a pointer
that was not released too early is then something to be proved.
-/

namespace VfsRedirector.VNodeHook

open Library

inductive Vtype where
  | vnon | vreg | vdir | vblk | vchr | vlnk | vsock | vfifo | vbad | vstr | vcplx
  deriving DecidableEq, Repr

/-- A `vnode_t` argument: the address of the vnode, and the fields that are read
through it, which stay as they are while the caller holds the vnode. -/
structure VnodeT (Vnode OpVec : Type) where
  vnode : Vnode
  vOp : OpVec
  vtype : Vtype
  deriving DecidableEq, Repr

structure QvrVnodeHookEntry where
  vNodeCounter : Int32
  origVop : QvrVopEnum → Vopfunc
  retainCount : Int

namespace QvrVnodeHookEntry

/-- `new` and `init`. -/
def newEntry : QvrVnodeHookEntry := ⟨0, fun _ => .null, 1⟩

def getOrignalVop (e : QvrVnodeHookEntry) (indx : QvrVopEnum) : Vopfunc := e.origVop indx

def setOriginalVop (e : QvrVnodeHookEntry) (indx : QvrVopEnum) (orig : Vopfunc) :
    QvrVnodeHookEntry :=
  { e with origVop := Function.update e.origVop indx orig }

def setOriginalVopAsNotHooked (e : QvrVnodeHookEntry) (indx : QvrVopEnum) : QvrVnodeHookEntry :=
  e.setOriginalVop indx .notHooked

def isHooked (e : QvrVnodeHookEntry) (indx : QvrVopEnum) : Bool := e.origVop indx ≠ .notHooked

def incrementVnodeCounter (e : QvrVnodeHookEntry) : QvrVnodeHookEntry :=
  { e with vNodeCounter := e.vNodeCounter + 1 }

def decrementVnodeCounter (e : QvrVnodeHookEntry) : QvrVnodeHookEntry :=
  { e with vNodeCounter := e.vNodeCounter - 1 }

def retain (e : QvrVnodeHookEntry) : QvrVnodeHookEntry :=
  { e with retainCount := e.retainCount + 1 }

def release (e : QvrVnodeHookEntry) : QvrVnodeHookEntry :=
  { e with retainCount := e.retainCount - 1 }

end QvrVnodeHookEntry

/-- A constructor names the next atomic operation of the thread; a `Nat` is
the address of an entry. In the two loops, `descs` are the descriptors of
`gQvrVnodeVopHookEntries` that are still to come. -/
inductive HookPc (Vnode OpVec : Type) where
  | idle
  -- QvrHookVnodeVop
  | hookRetrieve (v : VnodeT Vnode OpVec)
  | hookReleaseFound (v : VnodeT Vnode OpVec) (existingEntry : Nat)
  | hookNewEntry (v : VnodeT Vnode OpVec)
  | hookLock (v : VnodeT Vnode OpVec) (newEntry : Nat)
  | hookRecheck (v : VnodeT Vnode OpVec) (newEntry : Nat)
  | hookLoop (v : VnodeT Vnode OpVec) (newEntry : Nat) (descs : List (VnodeopvEntryDesc Hook))
  | hookUnlock (v : VnodeT Vnode OpVec) (newEntry : Nat) (success : Bool)
  | hookReleaseNew (v : VnodeT Vnode OpVec) (newEntry : Nat) (success : Bool)
  | hookAddVnode (v : VnodeT Vnode OpVec)
  -- QvrUnHookVnodeVop
  | unhookTest (v : VnodeT Vnode OpVec)
  | unhookRetrieve (v : VnodeT Vnode OpVec)
  | unhookRemoveVnode (v : VnodeT Vnode OpVec) (existingEntry : Nat)
  | unhookDecrement (v : VnodeT Vnode OpVec) (existingEntry : Nat)
  | unhookLock (v : VnodeT Vnode OpVec) (existingEntry : Nat)
  | unhookCheck (v : VnodeT Vnode OpVec) (existingEntry : Nat)
  | unhookDrop (v : VnodeT Vnode OpVec) (existingEntry : Nat)
  | unhookRemove (v : VnodeT Vnode OpVec)
  | unhookLoop (v : VnodeT Vnode OpVec) (existingEntry : Nat)
      (descs : List (VnodeopvEntryDesc Hook))
  | unhookUnlock (existingEntry : Option Nat)
  | unhookRelease (existingEntry : Nat)
  -- QvrGetOriginalVnodeOp
  | getRetrieve (v : VnodeT Vnode OpVec) (indx : QvrVopEnum)
  | getRetrieveAgain (v : VnodeT Vnode OpVec) (indx : QvrVopEnum)
  | getRead (v : VnodeT Vnode OpVec) (indx : QvrVopEnum) (existingEntry : Nat)
  | getRelease (v : VnodeT Vnode OpVec) (indx : QvrVopEnum) (existingEntry : Nat)
      (original : Vopfunc)
  | getReturn (v : VnodeT Vnode OpVec) (indx : QvrVopEnum) (original : Vopfunc)
  deriving DecidableEq

structure Hooks (Thread Vnode OpVec : Type) where
  /-- The function at an offset of a vector. -/
  slots : OpVec → Nat → Vopfunc
  sVnodeHooksHashTable : OpVec → Option Nat
  /-- Who has the lock of the table in exclusive mode. -/
  lock : Option Thread
  entries : Nat → QvrVnodeHookEntry
  instanceForHookedVnodes : DataMap Vnode Vnode
  pc : Thread → HookPc Vnode OpVec

inductive HookAction (Thread Vnode OpVec : Type) where
  /-- `isRecycled` is what `vnode_isrecycled` returns. -/
  | hook (t : Thread) (v : VnodeT Vnode OpVec) (isRecycled : Bool)
  | unhook (t : Thread) (v : VnodeT Vnode OpVec)
  | getOriginal (t : Thread) (v : VnodeT Vnode OpVec) (indx : QvrVopEnum)
  /-- The next atomic operation of a thread; `alloc` is the address that the
  allocation it makes delivers, if it makes one and that succeeds. -/
  | advance (t : Thread) (alloc : Option Nat)

namespace Hooks

variable {Thread Vnode OpVec : Type} [DecidableEq Thread] [DecidableEq Vnode] [DecidableEq OpVec]

def goto (s : Hooks Thread Vnode OpVec) (t : Thread) (p : HookPc Vnode OpVec) :
    Hooks Thread Vnode OpVec :=
  { s with pc := Function.update s.pc t p }

def modifyEntry (s : Hooks Thread Vnode OpVec) (e : Nat)
    (f : QvrVnodeHookEntry → QvrVnodeHookEntry) : Hooks Thread Vnode OpVec :=
  { s with entries := Function.update s.entries e (f (s.entries e)) }

/-- `QvrWriteWiredSrcToWiredDst` of a function to a slot of a vector. -/
def writeSlot (s : Hooks Thread Vnode OpVec) (vOp : OpVec) (offset : Nat) (f : Vopfunc) :
    Hooks Thread Vnode OpVec :=
  { s with slots := Function.update s.slots vOp (Function.update (s.slots vOp) offset f) }

/-- The body of the loop of `QvrHookVnodeVop`. -/
def hookSlot (k : Kernel) (s : Hooks Thread Vnode OpVec) (v : VnodeT Vnode OpVec) (newEntry : Nat)
    (desc : VnodeopvEntryDesc Hook) : Hooks Thread Vnode OpVec :=
  match resolve k desc.opveOp with
  | none => s
  | some (offset, indx) =>
    if v.vtype ≠ .vreg ∧ v.vtype ≠ .vdir ∧ desc.opveOp = .strategy then
      s.modifyEntry newEntry fun e => e.setOriginalVopAsNotHooked indx
    else
      (s.modifyEntry newEntry fun e => e.setOriginalVop indx (s.slots v.vOp offset)).writeSlot
        v.vOp offset (.hook desc.opveImpl)

/-- The body of the loop of `QvrUnHookVnodeVop`. -/
def unhookSlot (k : Kernel) (s : Hooks Thread Vnode OpVec) (v : VnodeT Vnode OpVec)
    (existingEntry : Nat) (desc : VnodeopvEntryDesc Hook) : Hooks Thread Vnode OpVec :=
  match resolve k desc.opveOp with
  | none => s
  | some (offset, indx) =>
    if (s.entries existingEntry).isHooked indx then
      s.writeSlot v.vOp offset ((s.entries existingEntry).getOrignalVop indx)
    else s

def advance (k : Kernel) (s : Hooks Thread Vnode OpVec) (t : Thread) (alloc : Option Nat) :
    Option (Hooks Thread Vnode OpVec) :=
  match s.pc t with
  | .idle => none
  | .hookRetrieve v =>
    if s.lock = none then
      match s.sVnodeHooksHashTable v.vOp with
      | some e => some ((s.modifyEntry e fun e => e.retain.incrementVnodeCounter).goto t
          (.hookReleaseFound v e))
      | none => some (s.goto t (.hookNewEntry v))
    else none
  | .hookReleaseFound _ e => some ((s.modifyEntry e .release).goto t .idle)
  | .hookNewEntry v =>
    match alloc with
    | none => some (s.goto t .idle)
    | some e =>
      if (s.entries e).retainCount = 0 then
        some ((s.modifyEntry e fun _ => .newEntry).goto t (.hookLock v e))
      else none
  | .hookLock v newEntry =>
    if s.lock = none then some { s.goto t (.hookRecheck v newEntry) with lock := some t } else none
  | .hookRecheck v newEntry =>
    match s.sVnodeHooksHashTable v.vOp with
    | some e =>
      some ((s.modifyEntry e .incrementVnodeCounter).goto t (.hookUnlock v newEntry true))
    | none =>
      -- AddEntry
      if alloc.isSome then
        some { (s.modifyEntry newEntry fun e => e.retain.incrementVnodeCounter).goto t
            (.hookLoop v newEntry gQvrVnodeVopHookEntries) with
          sVnodeHooksHashTable :=
            Function.update s.sVnodeHooksHashTable v.vOp (some newEntry) }
      else some (s.goto t (.hookUnlock v newEntry false))
  | .hookLoop v newEntry (desc :: descs) =>
    some ((s.hookSlot k v newEntry desc).goto t (.hookLoop v newEntry descs))
  | .hookLoop v newEntry [] => some (s.goto t (.hookUnlock v newEntry true))
  | .hookUnlock v newEntry success =>
    some { s.goto t (.hookReleaseNew v newEntry success) with lock := none }
  | .hookReleaseNew v newEntry true =>
    some ((s.modifyEntry newEntry .release).goto t (.hookAddVnode v))
  | .hookReleaseNew _ newEntry false => some ((s.modifyEntry newEntry .release).goto t .idle)
  | .hookAddVnode v =>
    some { s.goto t .idle with
      instanceForHookedVnodes :=
        (s.instanceForHookedVnodes.addDataByKey v.vnode v.vnode alloc.isSome).1 }
  | .unhookTest v =>
    if v.vtype ≠ .vreg ∨ s.instanceForHookedVnodes.getDataByKey v.vnode = none then
      some (s.goto t .idle)
    else some (s.goto t (.unhookRetrieve v))
  | .unhookRetrieve v =>
    if s.lock = none then
      match s.sVnodeHooksHashTable v.vOp with
      | some e => some ((s.modifyEntry e .retain).goto t (.unhookRemoveVnode v e))
      | none => some (s.goto t .idle)
    else none
  | .unhookRemoveVnode v e =>
    some { s.goto t (.unhookDecrement v e) with
      instanceForHookedVnodes := s.instanceForHookedVnodes.removeKey v.vnode }
  | .unhookDecrement v e =>
    if (s.entries e).vNodeCounter ≠ 1 then
      some ((s.modifyEntry e .decrementVnodeCounter).goto t (.unhookRelease e))
    else some ((s.modifyEntry e .decrementVnodeCounter).goto t (.unhookLock v e))
  | .unhookLock v e =>
    if s.lock = none then some { s.goto t (.unhookCheck v e) with lock := some t } else none
  | .unhookCheck v e =>
    if (s.entries e).vNodeCounter ≠ 0 then some (s.goto t (.unhookUnlock (some e)))
    else some (s.goto t (.unhookDrop v e))
  | .unhookDrop v e => some ((s.modifyEntry e .release).goto t (.unhookRemove v))
  | .unhookRemove v =>
    -- RemoveEntry
    match s.sVnodeHooksHashTable v.vOp with
    | some e => some { s.goto t (.unhookLoop v e gQvrVnodeVopHookEntries) with
        sVnodeHooksHashTable := Function.update s.sVnodeHooksHashTable v.vOp none }
    | none => some (s.goto t (.unhookUnlock none))
  | .unhookLoop v e (desc :: descs) =>
    some ((s.unhookSlot k v e desc).goto t (.unhookLoop v e descs))
  | .unhookLoop _ e [] => some (s.goto t (.unhookUnlock (some e)))
  | .unhookUnlock (some e) => some { s.goto t (.unhookRelease e) with lock := none }
  | .unhookUnlock none => some { s.goto t .idle with lock := none }
  | .unhookRelease e => some ((s.modifyEntry e .release).goto t .idle)
  | .getRetrieve v indx =>
    if s.lock = none then
      match s.sVnodeHooksHashTable v.vOp with
      | some e => some ((s.modifyEntry e .retain).goto t (.getRead v indx e))
      | none => some (s.goto t (.getRetrieveAgain v indx))
    else none
  | .getRetrieveAgain v indx =>
    if s.lock = none then
      match s.sVnodeHooksHashTable v.vOp with
      | some e => some ((s.modifyEntry e .retain).goto t (.getRead v indx e))
      | none =>
        -- the operation has to be in both tables, else a NULL is dereferenced
        match offsetOf k indx with
        | some offset => some (s.goto t (.getReturn v indx (s.slots v.vOp offset)))
        | none => none
    else none
  | .getRead v indx e =>
    some (s.goto t (.getRelease v indx e ((s.entries e).getOrignalVop indx)))
  | .getRelease v indx e original =>
    some ((s.modifyEntry e .release).goto t (.getReturn v indx original))
  | .getReturn _ _ _ => some (s.goto t .idle)

def step (k : Kernel) (s : Hooks Thread Vnode OpVec) :
    HookAction Thread Vnode OpVec → Option (Hooks Thread Vnode OpVec)
  | .hook t v isRecycled =>
    if s.pc t = .idle then
      if isRecycled ∨ v.vtype ≠ .vreg then some s else some (s.goto t (.hookRetrieve v))
    else none
  | .unhook t v => if s.pc t = .idle then some (s.goto t (.unhookTest v)) else none
  | .getOriginal t v indx =>
    if s.pc t = .idle then some (s.goto t (.getRetrieve v indx)) else none
  | .advance t alloc => s.advance k t alloc

/-- Nothing is hooked: the vectors hold the functions of their file systems. -/
def initial (initialOps : OpVec → Nat → Nat) : Hooks Thread Vnode OpVec where
  slots := fun vOp offset => .fsd (initialOps vOp offset)
  sVnodeHooksHashTable := fun _ => none
  lock := none
  entries := fun _ => ⟨0, fun _ => .null, 0⟩
  instanceForHookedVnodes := .empty
  pc := fun _ => .idle

end Hooks

/-- Any number of threads, vnodes and vectors. `initialOps` are the functions
that the vectors hold at first. -/
def hookSystem {Thread Vnode OpVec : Type} [DecidableEq Thread] [DecidableEq Vnode]
    [DecidableEq OpVec] (k : Kernel) (initialOps : OpVec → Nat → Nat) :
    System (Hooks Thread Vnode OpVec) (HookAction Thread Vnode OpVec) where
  init s := s = Hooks.initial initialOps
  step := Hooks.step k

end VfsRedirector.VNodeHook
