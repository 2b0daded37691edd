import VfsRedirector.Library.Histories
import VfsRedirector.DataMap.Memory

/-!
# Threads that call a DataMap

The operations of `DataMap` as their threads execute them, in any interleaving. What a
thread does with the list it does while it has the lock of the map; `IOMalloc`, the
initialization of the new entry, and `IOFree` are outside of the lock, as is the one read
of `isEmpty`.

With the lock, each write to an entry that is in the list or to the head is a step of its own,
and so is each round of the loop of `findEntryByKey`. Three parts are one step although
they touch more than one link: the read of `head.Flink` in `InsertHeadList` with the two
writes to the new entry, the two reads of `RemoveEntryList`, and the two reads of `head.Flink`
in `removeFirstEntryAndReturnItsData`. Nothing in them can be seen by another thread: the
new entry is not in the list yet, and nobody else writes what is read, as this takes the lock.
Without the lock a thread touches an entry of its own only, and `IOMalloc` with the
initialization is one step, as are the reads of a removed entry with its `IOFree`.

A `LockRegion` is where a thread is in the code between `IOLockLock` and `IOLockUnlock`, and a
`Rest` what it has to do after it. The loop of `findEntryByKey` is the same code for its
three callers (`Finder`), as is `RemoveEntryList` for the two operations that remove
(`Removal`).

`IOMalloc` delivers an address that is not in use, or nothing. A step of a thread that
frees what is not allocated does not exist, so that it remains to be shown that there is
always a step.
-/

namespace VfsRedirector

open Library

/-- A call to a map. -/
inductive MapRequest (K D : Type) where
  | addDataByKey (key : K) (data : D)
  | removeKey (key : K)
  | removeFirstEntryAndReturnItsData
  | getDataByKey (key : K)
  | isEmpty
  deriving DecidableEq

/-- Who looks for a key. -/
inductive Finder (Addr D : Type) where
  | add (data : D) (entry : Addr)
  | remove
  | get
  deriving DecidableEq

/-- Why an entry is taken out of the list. -/
inductive Removal (K : Type) where
  | key (key : K)
  | first
  deriving DecidableEq

/-- What the thread does next that has the lock. -/
inductive LockRegion (Addr K D : Type) where
  /-- The loop of `findEntryByKey`, whose `le` is `prev->Flink`. -/
  | find (finder : Finder Addr D) (key : K) (prev : Addr)
  /-- `existingEntry->data = data` -/
  | replace (key : K) (data : D) (entry existingEntry : Addr)
  -- InsertHeadList
  | insertHeadList (key : K) (data : D) (entry : Addr)
  | insertBlink (key : K) (data : D) (entry flink : Addr)
  | insertFlink (key : K) (data : D) (entry : Addr)
  /-- `IsListEmpty` and `head.Flink` -/
  | first
  -- RemoveEntryList
  | removeEntryList (removal : Removal K) (entry : Addr)
  | removeFlink (removal : Removal K) (entry flink blink : Addr)
  | removeBlink (removal : Removal K) (entry flink blink : Addr)
  /-- `data = entry->data` -/
  | read (key : K) (entry : Addr)
  deriving DecidableEq

/-- What is left to do without the lock; an entry is to be freed. -/
inductive Rest (Addr K D : Type) where
  | add (freeEntry : Option Addr)
  | remove (removal : Removal K) (entryToRemove : Option Addr)
  | get (data : Option D)
  deriving DecidableEq

inductive MapThreadPc (Addr K D : Type) where
  | idle
  | malloc (key : K) (data : D)
  | lock (r : LockRegion Addr K D)
  | locked (r : LockRegion Addr K D)
  | unlock (rest : Rest Addr K D)
  | unlocked (rest : Rest Addr K D)
  | isEmpty
  | ret (result : DataMapResult K D)
  deriving DecidableEq

structure MapThreads (Thread Addr K D : Type) where
  memory : EntryMemory Addr K D
  lock : Option Thread
  pc : Thread → MapThreadPc Addr K D

inductive MapAction (Thread Addr K D : Type) where
  | call (t : Thread) (call : MapRequest K D)
  /-- The next step of a thread; `memory` is what `IOMalloc` returns, if it is called. -/
  | advance (t : Thread) (memory : Option Addr)

variable {Thread Addr K D : Type} [DecidableEq Addr] [DecidableEq K]

/-- Where a call begins. -/
def MapRequest.start (head : Addr) : MapRequest K D → MapThreadPc Addr K D
  | addDataByKey key data => .malloc key data
  | removeKey key => .lock (.find .remove key head)
  | removeFirstEntryAndReturnItsData => .lock .first
  | getDataByKey key => .lock (.find .get key head)
  | isEmpty => .isEmpty

namespace Finder

/-- The key is in no entry. -/
def absent (key : K) : Finder Addr D → MapThreadPc Addr K D
  | add data entry => .locked (.insertHeadList key data entry)
  | remove => .unlock (.remove (.key key) none)
  | get => .unlock (.get none)

def found (key : K) (le : Addr) : Finder Addr D → MapThreadPc Addr K D
  | add data entry => .locked (.replace key data entry le)
  | remove => .locked (.removeEntryList (.key key) le)
  | get => .locked (.read key le)

end Finder

/-- One step with the lock. -/
def LockRegion.step (head : Addr) (m : EntryMemory Addr K D) :
    LockRegion Addr K D → EntryMemory Addr K D × MapThreadPc Addr K D
  | find finder key prev =>
    if m.flink prev = head then (m, finder.absent key)
    else if m.key (m.flink prev) = key then (m, finder.found key (m.flink prev))
    else (m, .locked (.find finder key (m.flink prev)))
  | replace _ data entry existingEntry =>
    (m.setData existingEntry data, .unlock (.add (some entry)))
  | insertHeadList key data entry =>
    ((m.setFlink entry (m.flink head)).setBlink entry head,
      .locked (.insertBlink key data entry (m.flink head)))
  | insertBlink key data entry flink =>
    (m.setBlink flink entry, .locked (.insertFlink key data entry))
  | insertFlink _ _ entry => (m.setFlink head entry, .unlock (.add none))
  | first =>
    if m.isListEmpty head then (m, .unlock (.remove .first none))
    else (m, .locked (.removeEntryList .first (m.flink head)))
  | removeEntryList removal entry =>
    (m, .locked (.removeFlink removal entry (m.flink entry) (m.blink entry)))
  | removeFlink removal entry flink blink =>
    (m.setFlink blink flink, .locked (.removeBlink removal entry flink blink))
  | removeBlink removal entry flink blink =>
    (m.setBlink flink blink, .unlock (.remove removal (some entry)))
  | read _ entry => (m, .unlock (.get (some (m.data entry))))

namespace Rest

/-- The entry that is freed. -/
def own : Rest Addr K D → Option Addr
  | add freeEntry => freeEntry
  | remove _ entryToRemove => entryToRemove
  | get _ => none

/-- What the call returns. The entry that was the first is read here. -/
def result (m : EntryMemory Addr K D) : Rest Addr K D → DataMapResult K D
  | add _ => .added true
  | remove (.key _) _ => .removed
  | remove .first entryToRemove => .first (entryToRemove.map fun a => (m.key a, m.data a))
  | get data => .found data

end Rest

namespace MapThreads

variable [DecidableEq Thread]

def goto (s : MapThreads Thread Addr K D) (t : Thread) (p : MapThreadPc Addr K D) :
    MapThreads Thread Addr K D :=
  { s with pc := Function.update s.pc t p }

def advance (null head : Addr) (s : MapThreads Thread Addr K D) (t : Thread)
    (memory : Option Addr) : Option (MapThreads Thread Addr K D) :=
  match s.pc t with
  | .idle => none
  | .malloc key data =>
    match memory with
    | none => some (s.goto t (.ret (.added false)))
    | some entry =>
      if entry ≠ head ∧ entry ∉ s.memory.entries.live then
        some { s.goto t (.lock (.find (.add data entry) key head)) with
          memory := s.memory.newEntry null entry key data }
      else none
  | .lock r => if s.lock = none then some { s.goto t (.locked r) with lock := some t } else none
  | .locked r =>
    some { s.goto t (r.step head s.memory).2 with memory := (r.step head s.memory).1 }
  | .unlock rest => some { s.goto t (.unlocked rest) with lock := none }
  | .unlocked rest =>
    match rest.own with
    | none => some (s.goto t (.ret (rest.result s.memory)))
    | some entry =>
      (s.memory.ioFree entry).map fun memory =>
        { s.goto t (.ret (rest.result s.memory)) with memory }
  | .isEmpty => some (s.goto t (.ret (.empty (s.memory.isEmpty head))))
  | .ret _ => some (s.goto t .idle)

def step (null head : Addr) (s : MapThreads Thread Addr K D) :
    MapAction Thread Addr K D → Option (MapThreads Thread Addr K D)
  | .call t call =>
    match s.pc t with
    | .idle => some (s.goto t (call.start head))
    | _ => none
  | .advance t memory => s.advance null head t memory

/-- What the callers see. -/
def event (s : MapThreads Thread Addr K D) :
    MapAction Thread Addr K D → List (CallEvent Thread (MapRequest K D) (DataMapResult K D))
  | .call t call => [.call t call]
  | .advance t _ =>
    match s.pc t with
    | .ret result => [.ret t result]
    | _ => []

end MapThreads

/-- From the constructor of the map on, in a memory with anything in it. -/
def dataMapThreads (Thread : Type) [DecidableEq Thread] (null head : Addr)
    (memory : EntryMemory Addr K D) :
    System (MapThreads Thread Addr K D) (MapAction Thread Addr K D) where
  init s := s = ⟨memory.dataMap head, none, fun _ => .idle⟩
  step := MapThreads.step null head

-- ---------------------------------------------------------------------------
-- The map as one object
-- ---------------------------------------------------------------------------

/-- A call as `DataMap` has it, with what the allocation delivers. -/
def MapRequest.withMemory (alloc : Bool) : MapRequest K D → DataMapCall Unit K D
  | addDataByKey key data => .addDataByKey key data (if alloc then some () else none)
  | removeKey key => .removeKey key
  | removeFirstEntryAndReturnItsData => .removeFirstEntryAndReturnItsData
  | getDataByKey key => .getDataByKey key
  | isEmpty => .isEmpty

end VfsRedirector
