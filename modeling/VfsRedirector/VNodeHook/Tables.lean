import Mathlib.Algebra.Order.Ring.Nat
import Mathlib.Logic.Function.Basic

/-!
# The tables that drive hooking

A vnode operations vector is an array of functions; the kernel's descriptor of
an operation (`vnop_*_desc`) says at which index a vector has it. Three tables
are keyed by the descriptors: `gQvrVnodeVopHookEntries` gives the hook of an
operation, and its order is the order in which the slots of a vector are
written; `gQvrVnodeVopEnumEntries` gives the index at which an entry of the
hooks table saves the original function; `gQvrVnodeOpvOffsetDesc` gives the
offset in the vector.

The comment over the tables in VNodeHook.cpp asks that each operation of the
first be in the other two. `resolve_listed` is that.

## Results

* `resolve_listed`, `offsetOf_listed` — a listed operation is found in the other
  tables.
* `listed_nodup` — no operation is listed twice.
-/

namespace VfsRedirector.VNodeHook

/-- The kernel's `vnop_*_desc` that the tables name. -/
inductive VnodeopDesc where
  | lookup | create | «open» | close | access | inactive | reclaim | read | write
  | pagein | pageout | strategy | mmap | rename | pathconf | exchange | getattr
  deriving DecidableEq, Repr

inductive QvrVopEnum where
  | access | advlock | allocate | blktooff | blockmap | bwrite | close | copyfile | create
  | default | exchange | fsync | getattr | getxattr | inactive | ioctl | link | listxattr
  | lookup | kqfiltAdd | kqfiltRemove | mkdir | mknod | mmap | mnomap | offtoblock | «open»
  | pagein | pageout | pathconf | read | readdir | readdirattr | readlink | reclaim | remove
  | removexattr | rename | revoke | rmdir | searchfs | select | setattr | setxattr | strategy
  | symlink | whiteout | write | getnamedstreamHook | makenamedstreamHook
  | removenamedstreamHook
  deriving DecidableEq, Repr

/-- The hooking functions. -/
inductive Hook where
  | qvrFsdReclaimHookEx2 | qvrVnopReadHookEx2 | qvrVnopOpenHookEx2 | qvrVnopWriteHookEx2
  | qvrVnopPageinHookEx2 | qvrVnopPageoutHookEx2 | qvrVnopLookupHookEx2
  | qvrVnopCreateHookEx2 | qvrVnopCloseHookEx2 | qvrVnopInactiveHookEx2
  | qvrVnopRenameHookEx2 | qvrVnopExchangeHookEx2 | qvrVnopGetattrHookEx2
  deriving DecidableEq, Repr

/-- `VOPFUNC`: NULL, the mark `vopNotHooked`, a hook, or a function of a file
system. -/
inductive Vopfunc where
  | null
  | notHooked
  | hook (f : Hook)
  | fsd (f : Nat)
  deriving DecidableEq, Repr

structure VnodeopvEntryDesc (Impl : Type) where
  opveOp : VnodeopDesc
  opveImpl : Impl
  deriving DecidableEq, Repr

structure QvrVnodeOpvOffsetDesc where
  opveOp : VnodeopDesc
  offset : Nat
  deriving DecidableEq, Repr

/-- The kernel's descriptors: two operations never have the same place. -/
structure Kernel where
  vdescOffset : VnodeopDesc → Nat
  distinct : Function.Injective vdescOffset

/-- `VNOP_OFFSET` -/
def Kernel.vnopOffset (k : Kernel) (d : VnodeopDesc) : Nat := 8 * k.vdescOffset d

def gQvrVnodeVopHookEntries : List (VnodeopvEntryDesc Hook) :=
  [⟨.reclaim, .qvrFsdReclaimHookEx2⟩,
   ⟨.read, .qvrVnopReadHookEx2⟩,
   ⟨.open, .qvrVnopOpenHookEx2⟩,
   ⟨.write, .qvrVnopWriteHookEx2⟩,
   ⟨.pagein, .qvrVnopPageinHookEx2⟩,
   ⟨.pageout, .qvrVnopPageoutHookEx2⟩,
   ⟨.lookup, .qvrVnopLookupHookEx2⟩,
   ⟨.create, .qvrVnopCreateHookEx2⟩,
   ⟨.close, .qvrVnopCloseHookEx2⟩,
   ⟨.inactive, .qvrVnopInactiveHookEx2⟩,
   ⟨.rename, .qvrVnopRenameHookEx2⟩,
   ⟨.exchange, .qvrVnopExchangeHookEx2⟩,
   ⟨.getattr, .qvrVnopGetattrHookEx2⟩]

def gQvrVnodeVopEnumEntries : List (VnodeopvEntryDesc QvrVopEnum) :=
  [⟨.lookup, .lookup⟩, ⟨.create, .create⟩, ⟨.open, .open⟩, ⟨.close, .close⟩,
   ⟨.access, .access⟩, ⟨.inactive, .inactive⟩, ⟨.reclaim, .reclaim⟩, ⟨.read, .read⟩,
   ⟨.write, .write⟩, ⟨.pagein, .pagein⟩, ⟨.pageout, .pageout⟩, ⟨.strategy, .strategy⟩,
   ⟨.mmap, .mmap⟩, ⟨.rename, .rename⟩, ⟨.pathconf, .pathconf⟩, ⟨.exchange, .exchange⟩,
   ⟨.getattr, .getattr⟩]

def gQvrVnodeOpvOffsetDesc (k : Kernel) : List QvrVnodeOpvOffsetDesc :=
  [⟨.lookup, k.vnopOffset .lookup⟩, ⟨.create, k.vnopOffset .create⟩,
   ⟨.open, k.vnopOffset .open⟩, ⟨.close, k.vnopOffset .close⟩,
   ⟨.inactive, k.vnopOffset .inactive⟩, ⟨.reclaim, k.vnopOffset .reclaim⟩,
   ⟨.read, k.vnopOffset .read⟩, ⟨.write, k.vnopOffset .write⟩,
   ⟨.pagein, k.vnopOffset .pagein⟩, ⟨.pageout, k.vnopOffset .pageout⟩,
   ⟨.mmap, k.vnopOffset .mmap⟩, ⟨.rename, k.vnopOffset .rename⟩,
   ⟨.exchange, k.vnopOffset .exchange⟩, ⟨.getattr, k.vnopOffset .getattr⟩]

/-- `none` is the NULL of the source, here and below. -/
def qvrRetriveVnodeOpvEntryDescByVnodeOpDesc {Impl : Type}
    (vnodeOpvEntryDescArray : List (VnodeopvEntryDesc Impl)) (opveOp : VnodeopDesc) :
    Option (VnodeopvEntryDesc Impl) :=
  vnodeOpvEntryDescArray.find? fun desc => opveOp = desc.opveOp

def qvrRetriveVnodeOpvEntryDescByVnodeOp {Impl : Type} [DecidableEq Impl]
    (vnodeOpvEntryDescArray : List (VnodeopvEntryDesc Impl)) (vnodeOp : Impl) :
    Option (VnodeopvEntryDesc Impl) :=
  vnodeOpvEntryDescArray.find? fun desc => vnodeOp = desc.opveImpl

def qvrRetriveVnodeOpvOffsetDescByVnodeOpDesc (k : Kernel) (opveOp : VnodeopDesc) :
    Option QvrVnodeOpvOffsetDesc :=
  (gQvrVnodeOpvOffsetDesc k).find? fun desc => opveOp = desc.opveOp

/-- What the loops of hooking and unhooking look up for an operation: the
offset in the vector and the index in `origVop`. -/
def resolve (k : Kernel) (opveOp : VnodeopDesc) : Option (Nat × QvrVopEnum) := do
  let offsetDescEntry ← qvrRetriveVnodeOpvOffsetDescByVnodeOpDesc k opveOp
  let enumDescEntry ←
    qvrRetriveVnodeOpvEntryDescByVnodeOpDesc gQvrVnodeVopEnumEntries offsetDescEntry.opveOp
  some (offsetDescEntry.offset, enumDescEntry.opveImpl)

/-- What `QvrGetOriginalVnodeOp` looks up for an index: the offset in the
vector. -/
def offsetOf (k : Kernel) (indx : QvrVopEnum) : Option Nat := do
  let enumDescEntry ← qvrRetriveVnodeOpvEntryDescByVnodeOp gQvrVnodeVopEnumEntries indx
  let offsetDescEntry ← qvrRetriveVnodeOpvOffsetDescByVnodeOpDesc k enumDescEntry.opveOp
  some offsetDescEntry.offset

/-- The index of an operation; the table gives it for the operations it has. -/
def VnodeopDesc.indx : VnodeopDesc → QvrVopEnum
  | .lookup => .lookup | .create => .create | .open => .open | .close => .close
  | .access => .access | .inactive => .inactive | .reclaim => .reclaim | .read => .read
  | .write => .write | .pagein => .pagein | .pageout => .pageout | .strategy => .strategy
  | .mmap => .mmap | .rename => .rename | .pathconf => .pathconf | .exchange => .exchange
  | .getattr => .getattr

/-- Different operations have different indices. -/
theorem VnodeopDesc.indx_injective : Function.Injective VnodeopDesc.indx := by
  intro d d' h
  cases d <;> cases d' <;> first | rfl | cases h

/-- Different operations have different offsets. -/
theorem Kernel.vnopOffset_injective (k : Kernel) : Function.Injective k.vnopOffset := by
  intro d d' h
  unfold Kernel.vnopOffset at h
  exact k.distinct (by omega)

/-- Each operation that has a hook is in the other two tables. -/
theorem resolve_listed (k : Kernel) :
    ∀ desc ∈ gQvrVnodeVopHookEntries,
      resolve k desc.opveOp = some (k.vnopOffset desc.opveOp, desc.opveOp.indx) := by
  intro desc hdesc
  simp only [gQvrVnodeVopHookEntries, List.mem_cons, List.not_mem_nil, or_false] at hdesc
  rcases hdesc with rfl | rfl | rfl | rfl | rfl | rfl | rfl | rfl | rfl | rfl | rfl | rfl | rfl <;>
    rfl

/-- The offset of a listed operation is found by its index. -/
theorem offsetOf_listed (k : Kernel) :
    ∀ desc ∈ gQvrVnodeVopHookEntries,
      offsetOf k desc.opveOp.indx = some (k.vnopOffset desc.opveOp) := by
  intro desc hdesc
  simp only [gQvrVnodeVopHookEntries, List.mem_cons, List.not_mem_nil, or_false] at hdesc
  rcases hdesc with rfl | rfl | rfl | rfl | rfl | rfl | rfl | rfl | rfl | rfl | rfl | rfl | rfl <;>
    rfl

/-- No operation is listed twice. -/
theorem listed_nodup : (gQvrVnodeVopHookEntries.map VnodeopvEntryDesc.opveOp).Nodup := by
  decide

/-- Reclaim is listed with its own hook. -/
theorem reclaim_listed :
    ∀ desc ∈ gQvrVnodeVopHookEntries, desc.opveOp = .reclaim →
      desc.opveImpl = .qvrFsdReclaimHookEx2 := by
  decide

/-- Strategy is not hooked. -/
theorem strategy_not_listed :
    ∀ desc ∈ gQvrVnodeVopHookEntries, desc.opveOp ≠ .strategy := by
  decide

end VfsRedirector.VNodeHook
