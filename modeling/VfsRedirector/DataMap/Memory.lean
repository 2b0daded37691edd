import VfsRedirector.DataMap
import VfsRedirector.Library.Allocations
import VfsRedirector.Library.Circular

/-!
# The entries of a DataMap in memory

`DataMap` keeps its entries in a circular list (Common.h) whose head is in the map
itself. `listEntry` is the first member of an entry, so that an entry and its links have
one address. The memory has a function for each member: what is read at an address is
what was last written there.

`IOMalloc` is called before the lock is taken and `IOFree` after it is released; in
between an operation is alone. An operation is one function here, which takes what
`IOMalloc` returns, and is `none` where something is freed that is not allocated, or where
a search runs longer than there are entries.

`assert` does nothing in a release build.
-/

namespace VfsRedirector

open Library

/-- The members of the entries and of the head, with the entries that are allocated. -/
structure EntryMemory (Addr K D : Type) where
  flink : Addr → Addr
  blink : Addr → Addr
  key : Addr → K
  data : Addr → D
  entries : Allocations Addr

namespace EntryMemory

variable {Addr K D : Type} [DecidableEq Addr]

-- ---------------------------------------------------------------------------
-- Lists
-- ---------------------------------------------------------------------------

def setFlink (s : EntryMemory Addr K D) (a v : Addr) : EntryMemory Addr K D :=
  { s with flink := Function.update s.flink a v }

def setBlink (s : EntryMemory Addr K D) (a v : Addr) : EntryMemory Addr K D :=
  { s with blink := Function.update s.blink a v }

def initializeListHead (s : EntryMemory Addr K D) (listHead : Addr) : EntryMemory Addr K D :=
  (s.setBlink listHead listHead).setFlink listHead listHead

def isListEmpty (s : EntryMemory Addr K D) (listHead : Addr) : Bool := s.flink listHead = listHead

def removeEntryList (s : EntryMemory Addr K D) (entry : Addr) : EntryMemory Addr K D :=
  let flink := s.flink entry
  let blink := s.blink entry
  (s.setFlink blink flink).setBlink flink blink

def insertHeadList (s : EntryMemory Addr K D) (listHead entry : Addr) : EntryMemory Addr K D :=
  let flink := s.flink listHead
  (((s.setFlink entry flink).setBlink entry listHead).setBlink flink entry).setFlink listHead entry

-- ---------------------------------------------------------------------------
-- Entries
-- ---------------------------------------------------------------------------

def setData (s : EntryMemory Addr K D) (entry : Addr) (data : D) : EntryMemory Addr K D :=
  { s with data := Function.update s.data entry data }

/-- `IOMalloc`, `bzero` and the two members that are written; `null` is what `bzero` leaves
of a pointer. -/
def newEntry (s : EntryMemory Addr K D) (null entry : Addr) (key : K) (data : D) :
    EntryMemory Addr K D where
  flink := Function.update s.flink entry null
  blink := Function.update s.blink entry null
  key := Function.update s.key entry key
  data := Function.update s.data entry data
  entries := s.entries.alloc entry

def ioFree (s : EntryMemory Addr K D) (entry : Addr) : Option (EntryMemory Addr K D) :=
  (s.entries.free entry).map fun entries => { s with entries }

/-- The constructor of the map: nothing is in the memory that it has. -/
def dataMap (s : EntryMemory Addr K D) (head : Addr) : EntryMemory Addr K D :=
  { s with entries := Allocations.start s.entries.serial }.initializeListHead head

-- ---------------------------------------------------------------------------
-- The operations
-- ---------------------------------------------------------------------------

variable [DecidableEq K]

/-- The loop from `le` on. -/
def findFrom (s : EntryMemory Addr K D) (head : Addr) (key : K) : Nat → Addr → Option (Option Addr)
  | 0, _ => none
  | bound + 1, le =>
    if le ≠ head then
      if s.key le = key then some (some le) else findFrom s head key bound (s.flink le)
    else some none

def findEntryByKey (s : EntryMemory Addr K D) (head : Addr) (key : K) : Option (Option Addr) :=
  s.findFrom head key (s.entries.live.length + 1) (s.flink head)

/-- `memory` is the entry that `IOMalloc` returns. -/
def addDataByKey (s : EntryMemory Addr K D) (null head : Addr) (key : K) (data : D)
    (memory : Option Addr) : Option (EntryMemory Addr K D × Bool) :=
  match memory with
  | none => some (s, false)
  | some entry => do
    let s := s.newEntry null entry key data
    match ← s.findEntryByKey head key with
    | some existingEntry => do
      let s ← (s.setData existingEntry data).ioFree entry
      some (s, true)
    | none => some (s.insertHeadList head entry, true)

def removeKey (s : EntryMemory Addr K D) (head : Addr) (key : K) : Option (EntryMemory Addr K D) :=
  do
    match ← s.findEntryByKey head key with
    | some entryToRemove => (s.removeEntryList entryToRemove).ioFree entryToRemove
    | none => some s

/-- The key and the data of the entry that is removed; without one NULL is returned. -/
def removeFirstEntryAndReturnItsData (s : EntryMemory Addr K D) (head : Addr) :
    Option (EntryMemory Addr K D × Option (K × D)) :=
  if s.isListEmpty head then some (s, none)
  else do
    let entryToRemove := s.flink head
    let s := s.removeEntryList entryToRemove
    let entry := (s.key entryToRemove, s.data entryToRemove)
    let s ← s.ioFree entryToRemove
    some (s, some entry)

/-- `none` in the result for NULL. -/
def getDataByKey (s : EntryMemory Addr K D) (head : Addr) (key : K) : Option (Option D) := do
  match ← s.findEntryByKey head key with
  | some entry => some (some (s.data entry))
  | none => some none

def isEmpty (s : EntryMemory Addr K D) (head : Addr) : Bool := s.isListEmpty head

end EntryMemory

-- ---------------------------------------------------------------------------
-- Runs
-- ---------------------------------------------------------------------------

/-- A call to a map, with what `IOMalloc` returns in it. -/
inductive DataMapCall (Addr K D : Type) where
  | addDataByKey (key : K) (data : D) (memory : Option Addr)
  | removeKey (key : K)
  | removeFirstEntryAndReturnItsData
  | getDataByKey (key : K)
  | isEmpty
  deriving DecidableEq

/-- What a call returns. -/
inductive DataMapResult (K D : Type) where
  | added (done : Bool)
  | removed
  | first (entry : Option (K × D))
  | found (data : Option D)
  | empty (isEmpty : Bool)
  deriving DecidableEq

namespace EntryMemory

variable {Addr K D : Type} [DecidableEq Addr] [DecidableEq K]

def call (null head : Addr) (s : EntryMemory Addr K D) :
    DataMapCall Addr K D → Option (EntryMemory Addr K D × DataMapResult K D)
  | .addDataByKey key data memory =>
    (s.addDataByKey null head key data memory).map fun r => (r.1, .added r.2)
  | .removeKey key => (s.removeKey head key).map fun s => (s, .removed)
  | .removeFirstEntryAndReturnItsData =>
    (s.removeFirstEntryAndReturnItsData head).map fun r => (r.1, .first r.2)
  | .getDataByKey key => (s.getDataByKey head key).map fun data => (s, .found data)
  | .isEmpty => some (s, .empty (s.isEmpty head))

def run (null head : Addr) : EntryMemory Addr K D → List (DataMapCall Addr K D) →
    Option (EntryMemory Addr K D × List (DataMapResult K D))
  | s, [] => some (s, [])
  | s, c :: calls =>
    (s.call null head c).bind fun r =>
      (run null head r.1 calls).map fun rest => (rest.1, r.2 :: rest.2)

/-- `IOMalloc` returns memory that is not in use. -/
def Fresh (head : Addr) (s : EntryMemory Addr K D) : DataMapCall Addr K D → Prop
  | .addDataByKey _ _ (some entry) => entry ≠ head ∧ entry ∉ s.entries.live
  | _ => True

/-- So it is all along a run. -/
def FreshRun (null head : Addr) : EntryMemory Addr K D → List (DataMapCall Addr K D) → Prop
  | _, [] => True
  | s, c :: calls => s.Fresh head c ∧ ∀ r ∈ s.call null head c, FreshRun null head r.1 calls

instance (head : Addr) (s : EntryMemory Addr K D) :
    (c : DataMapCall Addr K D) → Decidable (s.Fresh head c)
  | .addDataByKey _ _ (some entry) =>
    inferInstanceAs (Decidable (entry ≠ head ∧ entry ∉ s.entries.live))
  | .addDataByKey _ _ none => instDecidableTrue
  | .removeKey _ => instDecidableTrue
  | .removeFirstEntryAndReturnItsData => instDecidableTrue
  | .getDataByKey _ => instDecidableTrue
  | .isEmpty => instDecidableTrue

instance decidableFreshRun (null head : Addr) : (calls : List (DataMapCall Addr K D)) →
    (s : EntryMemory Addr K D) → Decidable (FreshRun null head s calls)
  | [], _ => instDecidableTrue
  | c :: calls, s =>
    have := decidableFreshRun null head calls
    inferInstanceAs
      (Decidable (s.Fresh head c ∧ ∀ r ∈ s.call null head c, FreshRun null head r.1 calls))

end EntryMemory

end VfsRedirector
