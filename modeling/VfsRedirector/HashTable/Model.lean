import Mathlib.Data.List.Basic
import VfsRedirector.Library.Linked
import VfsRedirector.Library.Memory

/-!
# The hash table

`ght_hash_table_t`, in which the entries of the hooked vectors are kept. An entry is
in two doubly linked lists at once: the chain of its bucket, and the list of all
entries by age. The entries are in a heap with a function for each field, and a
pointer that may be NULL is an `Option`. The heap is that of all tables, as a rehash
builds a second one.

What is read at an address is what was last written there. Where the code would read
through NULL the result is `none`; so it is where a loop runs longer than there are
entries, which is what the loops here have as a bound.

There is no bucket limit here, as `ght_set_bounded_buckets` is not called; `BoundedGht`
has one.
-/

namespace VfsRedirector

open Library

/-- What `ght_insert` and the rest return. -/
inductive GhtStatusCode where
  | GHT_OK
  | GHT_ALREADY_IN_HASH
  | GHT_ERROR
  deriving DecidableEq

def GHT_HEURISTICS_TRANSPOSE : UInt8 := 1

def GHT_HEURISTICS_MOVE_TO_FRONT : UInt8 := 2

/-- `sizeof(ght_hash_entry_t)` -/
def sizeofEntry : Nat := 64

/-- The entries: `ght_hash_entry_t`. The key is the bytes that `key` points to, which
stand behind the entry; `live` has the entries that are allocated. -/
structure EntryHeap (Addr Data : Type) where
  p_next : Addr → Option Addr
  p_prev : Addr → Option Addr
  key : Addr → List UInt8
  p_data : Addr → Option Data
  p_older : Addr → Option Addr
  p_newer : Addr → Option Addr
  size : Addr → Nat
  live : List Addr

/-- `ght_hash_table_t`; the arrays are functions of the index. -/
structure GhtHashTable (Addr : Type) where
  i_items : UInt32
  i_size : UInt32
  fn_hash : List UInt8 → UInt32
  i_heuristics : Int
  i_automatic_rehash : Bool
  pp_entries : UInt32 → Option Addr
  p_nr : UInt32 → Int32
  i_size_mask : UInt32
  p_oldest : Option Addr
  p_newest : Option Addr

/-- What memory an operation gets: an entry that is not in use, or none; and whether
`ght_create` gets what it needs. -/
structure Allocator (Addr : Type) where
  entry : List Addr → Option Addr
  fresh : ∀ live a, entry live = some a → a ∉ live
  table : Bool

/-- A table, with the heap that it is in. -/
structure Ght (Addr Data : Type) where
  heap : EntryHeap Addr Data
  table : GhtHashTable Addr

variable {Addr Data : Type} [DecidableEq Addr]

/-- The bucket of a key. -/
def GhtHashTable.bucket (t : GhtHashTable Addr) (key : List UInt8) : UInt32 :=
  t.fn_hash key &&& t.i_size_mask

-- ---------------------------------------------------------------------------
-- ght_create
-- ---------------------------------------------------------------------------

/-- `while(p_ht->i_size < i_size) p_ht->i_size = 1<<i++;` from `size` and `i` on. -/
def roundSize (i_size : UInt32) : Nat → UInt32 → Nat → Option (UInt32 × Nat)
  | 0, _, _ => none
  | bound + 1, size, i =>
    if size < i_size then roundSize i_size bound (1 <<< UInt32.ofNat i) (i + 1)
    else some (size, i)

/-- A table without entries. A shift of more than 31 places is not defined in the source,
so that the loop has 32 rounds at most. -/
def ghtCreate (fn_hash : List UInt8 → UInt32) (i_size : UInt32) (memory : Bool) :
    Option (GhtHashTable Addr) := do
  let (size, i) ← roundSize i_size 32 1 1
  if memory then
    some {
      i_items := 0
      i_size := size
      fn_hash
      i_heuristics := 0
      i_automatic_rehash := false
      pp_entries := fun _ => none
      p_nr := fun _ => 0
      i_size_mask := (1 <<< UInt32.ofNat (i - 1)) - 1
      p_oldest := none
      p_newest := none }
  else none

namespace EntryHeap

/-- `if( q ) q->p_next = v` -/
def setNext (m : EntryHeap Addr Data) (q v : Option Addr) : EntryHeap Addr Data :=
  { m with p_next := relink m.p_next q v }

def setPrev (m : EntryHeap Addr Data) (q v : Option Addr) : EntryHeap Addr Data :=
  { m with p_prev := relink m.p_prev q v }

def setOlder (m : EntryHeap Addr Data) (q v : Option Addr) : EntryHeap Addr Data :=
  { m with p_older := relink m.p_older q v }

def setNewer (m : EntryHeap Addr Data) (q v : Option Addr) : EntryHeap Addr Data :=
  { m with p_newer := relink m.p_newer q v }

def setData (m : EntryHeap Addr Data) (a : Addr) (data : Data) : EntryHeap Addr Data :=
  { m with p_data := Function.update m.p_data a (some data) }

/-- The entry, or `none` where there is no memory. -/
def heCreate (m : EntryHeap Addr Data) (alloc : Allocator Addr) (p_data : Data)
    (key : List UInt8) : Option (EntryHeap Addr Data × Addr) :=
  (alloc.entry m.live).map fun p_he =>
    ({ p_next := Function.update m.p_next p_he none
       p_prev := Function.update m.p_prev p_he none
       key := Function.update m.key p_he key
       p_data := Function.update m.p_data p_he (some p_data)
       p_older := Function.update m.p_older p_he none
       p_newer := Function.update m.p_newer p_he none
       size := Function.update m.size p_he (sizeofEntry + key.length)
       live := p_he :: m.live }, p_he)

def heFinalize (m : EntryHeap Addr Data) (p_he : Addr) : EntryHeap Addr Data :=
  { m with live := m.live.erase p_he }

/-- The next entry is read before the entry is freed. -/
def freeEntryChain : Nat → EntryHeap Addr Data → Option Addr → Option (EntryHeap Addr Data)
  | _, m, none => some m
  | 0, _, some _ => none
  | bound + 1, m, some p_e => freeEntryChain bound (m.heFinalize p_e) (m.p_next p_e)

end EntryHeap

namespace Ght

def setEntries (s : Ght Addr Data) (l_bucket : UInt32) (v : Option Addr) : Ght Addr Data :=
  { s with table.pp_entries := Function.update s.table.pp_entries l_bucket v }

def setNr (s : Ght Addr Data) (l_bucket : UInt32) (v : Int32) : Ght Addr Data :=
  { s with table.p_nr := Function.update s.table.p_nr l_bucket v }

/-- A write to the entries. -/
def onHeap (s : Ght Addr Data) (f : EntryHeap Addr Data → EntryHeap Addr Data) : Ght Addr Data :=
  { s with heap := f s.heap }

-- ---------------------------------------------------------------------------
-- Chains
-- ---------------------------------------------------------------------------

/-- Moves `p_entry` one up in its list. -/
def transpose (s : Ght Addr Data) (l_bucket : UInt32) (p_entry : Addr) : Ght Addr Data :=
  match s.heap.p_prev p_entry with
  | none => s
  | some p_x =>
    let p_a := s.heap.p_prev p_x
    let p_b := s.heap.p_next p_entry
    let s := match p_a with
      | some p_a => s.onHeap (·.setNext (some p_a) (some p_entry))
      | none => s.setEntries l_bucket (some p_entry)
    let s := s.onHeap (·.setPrev p_b (some p_x))
    let s := s.onHeap (·.setNext (some p_x) (s.heap.p_next p_entry))
    let s := s.onHeap (·.setPrev (some p_x) (some p_entry))
    let s := s.onHeap (·.setNext (some p_entry) (some p_x))
    s.onHeap (·.setPrev (some p_entry) p_a)

/-- `p_entry` has a predecessor if it is not the first, which is not tested. -/
def moveToFront (s : Ght Addr Data) (l_bucket : UInt32) (p_entry : Addr) :
    Option (Ght Addr Data) := do
  if s.table.pp_entries l_bucket = some p_entry then return s
  let p_prev ← s.heap.p_prev p_entry
  let s := s.onHeap (·.setNext (some p_prev) (s.heap.p_next p_entry))
  let s := s.onHeap (·.setPrev (s.heap.p_next p_entry) (s.heap.p_prev p_entry))
  let s := s.onHeap (·.setNext (some p_entry) (s.table.pp_entries l_bucket))
  let s := s.onHeap (·.setPrev (some p_entry) none)
  let first ← s.table.pp_entries l_bucket
  let s := s.onHeap (·.setPrev (some first) (some p_entry))
  return s.setEntries l_bucket (some p_entry)

/-- The first half of `remove_from_chain`: out of the chain of the bucket. -/
def unlinkBucket (s : Ght Addr Data) (l_bucket : UInt32) (p : Addr) : Ght Addr Data :=
  let s := match s.heap.p_prev p with
    | some p_prev => s.onHeap (·.setNext (some p_prev) (s.heap.p_next p))
    | none => s.setEntries l_bucket (s.heap.p_next p)
  s.onHeap (·.setPrev (s.heap.p_next p) (s.heap.p_prev p))

/-- The second half: out of the list by age. -/
def unlinkAge (s : Ght Addr Data) (p : Addr) : Ght Addr Data :=
  let s := match s.heap.p_older p with
    | some p_older => s.onHeap (·.setNewer (some p_older) (s.heap.p_newer p))
    | none => { s with table.p_oldest := s.heap.p_newer p }
  match s.heap.p_newer p with
  | some p_newer => s.onHeap (·.setOlder (some p_newer) (s.heap.p_older p))
  | none => { s with table.p_newest := s.heap.p_older p }

def removeFromChain (s : Ght Addr Data) (l_bucket : UInt32) (p : Addr) : Ght Addr Data :=
  (s.unlinkBucket l_bucket p).unlinkAge p

def applyHeuristics (s : Ght Addr Data) (l_bucket : UInt32) (p_e : Addr) (i_heuristics : UInt8) :
    Option (Ght Addr Data) :=
  if i_heuristics = GHT_HEURISTICS_MOVE_TO_FRONT then s.moveToFront l_bucket p_e
  else if i_heuristics = GHT_HEURISTICS_TRANSPOSE then some (s.transpose l_bucket p_e)
  else some s

/-- The loop of `search_in_bucket` from `p_e` on. -/
def searchFrom (s : Ght Addr Data) (l_bucket : UInt32) (key : List UInt8) (i_heuristics : UInt8) :
    Nat → Option Addr → Option (Ght Addr Data × Option Addr)
  | _, none => some (s, none)
  | 0, some _ => none
  | bound + 1, some p_e =>
    if s.heap.key p_e = key then
      (s.applyHeuristics l_bucket p_e i_heuristics).map fun s => (s, some p_e)
    else searchFrom s l_bucket key i_heuristics bound (s.heap.p_next p_e)

def searchInBucket (s : Ght Addr Data) (l_bucket : UInt32) (key : List UInt8)
    (i_heuristics : UInt8) : Option (Ght Addr Data × Option Addr) :=
  s.searchFrom l_bucket key i_heuristics s.heap.live.length (s.table.pp_entries l_bucket)

-- ---------------------------------------------------------------------------
-- ght_insert
-- ---------------------------------------------------------------------------

/-- From where the entry is placed first in the list, to the end. -/
def placeEntry (s : Ght Addr Data) (l_key : UInt32) (p_entry : Addr) : Ght Addr Data :=
  let s := s.onHeap (·.setNext (some p_entry) (s.table.pp_entries l_key))
  let s := s.onHeap (·.setPrev (some p_entry) none)
  let s := s.onHeap (·.setPrev (s.table.pp_entries l_key) (some p_entry))
  let s := s.setEntries l_key (some p_entry)
  let s := s.setNr l_key (s.table.p_nr l_key + 1)
  let s := { s with table.i_items := s.table.i_items + 1 }
  let s := if s.table.p_oldest = none then { s with table.p_oldest := some p_entry } else s
  let s := s.onHeap (·.setOlder (some p_entry) s.table.p_newest)
  let s := s.onHeap (·.setNewer s.table.p_newest (some p_entry))
  { s with table.p_newest := some p_entry }

/-- `ght_insert`, with what it does about too many items in `rehash`. -/
def insertWith (s : Ght Addr Data) (alloc : Allocator Addr) (p_entry_data : Data)
    (key : List UInt8) (rehash : Ght Addr Data → Option (Ght Addr Data)) :
    Option (Ght Addr Data × GhtStatusCode) := do
  let (s, found) ← s.searchInBucket (s.table.bucket key) key 0
  match found with
  | some _ => return (s, .GHT_ALREADY_IN_HASH)
  | none =>
    match s.heap.heCreate alloc p_entry_data key with
    | none => return (s, .GHT_ERROR)
    | some (heap, p_entry) =>
      let s ← rehash { s with heap }
      return (s.placeEntry (s.table.bucket key) p_entry, .GHT_OK)

-- ---------------------------------------------------------------------------
-- ght_get, ght_replace and ght_remove
-- ---------------------------------------------------------------------------

/-- The search of a lookup. Only a `char` of the heuristics gets there. -/
def search (s : Ght Addr Data) (key : List UInt8) : Option (Ght Addr Data × Option Addr) :=
  s.searchInBucket (s.table.bucket key) key (UInt8.ofInt s.table.i_heuristics)

def ghtGet (s : Ght Addr Data) (key : List UInt8) : Option (Ght Addr Data × Option Data) := do
  let (s, p_e) ← s.search key
  return (s, p_e.bind s.heap.p_data)

def ghtReplace (s : Ght Addr Data) (p_entry_data : Data) (key : List UInt8) :
    Option (Ght Addr Data × Option Data) := do
  let (s, p_e) ← s.search key
  match p_e with
  | none => return (s, none)
  | some p_e => return (s.onHeap (·.setData p_e p_entry_data), s.heap.p_data p_e)

/-- From where the found entry is taken out, to the last write to it. -/
def unlinkEntry (s : Ght Addr Data) (l_key : UInt32) (p_out : Addr) : Ght Addr Data :=
  let s := s.removeFromChain l_key p_out
  let s := { s with table.i_items := s.table.i_items - 1 }
  let s := s.setNr l_key (s.table.p_nr l_key - 1)
  let s := s.onHeap (·.setNext (some p_out) none)
  s.onHeap (·.setPrev (some p_out) none)

def ghtRemove (s : Ght Addr Data) (key : List UInt8) :
    Option (Ght Addr Data × Option Data) := do
  let l_key := s.table.bucket key
  let (s, p_out) ← s.searchInBucket l_key key 0
  match p_out with
  | none => return (s, none)
  | some p_out =>
    let s := s.unlinkEntry l_key p_out
    return (s.onHeap (·.heFinalize p_out), s.heap.p_data p_out)

end Ght

-- ---------------------------------------------------------------------------
-- ght_rehash
-- ---------------------------------------------------------------------------

/-- `ght_iterator_t` -/
structure GhtIterator (Addr : Type) where
  p_entry : Option Addr
  p_next : Option Addr

/-- The iterator at an entry, with its data. -/
def EntryHeap.iterate (m : EntryHeap Addr Data) (p_entry : Option Addr) :
    GhtIterator Addr × Option Data :=
  match p_entry with
  | some p_entry => (⟨some p_entry, m.p_newer p_entry⟩, m.p_data p_entry)
  | none => (⟨none, none⟩, none)

/-- `... and replace it with the new`; the settings stay. -/
def GhtHashTable.replaceWith (t p_tmp : GhtHashTable Addr) : GhtHashTable Addr :=
  { t with
    i_size := p_tmp.i_size
    i_size_mask := p_tmp.i_size_mask
    i_items := p_tmp.i_items
    pp_entries := p_tmp.pp_entries
    p_nr := p_tmp.p_nr
    p_oldest := p_tmp.p_oldest
    p_newest := p_tmp.p_newest }

/-- Frees the entries of all buckets. -/
def GhtHashTable.freeBuckets (t : GhtHashTable Addr) (bound : Nat) (m : EntryHeap Addr Data) :
    Option (EntryHeap Addr Data) :=
  (List.range t.i_size.toNat).foldlM
    (fun m i => m.freeEntryChain bound (t.pp_entries (UInt32.ofNat i))) m

namespace Ght

/-- `ght_first` -/
def ghtFirst (s : Ght Addr Data) : GhtIterator Addr × Option Data :=
  s.heap.iterate s.table.p_oldest

/-- `ght_next` -/
def ghtNext (m : EntryHeap Addr Data) (iterator : GhtIterator Addr) :
    GhtIterator Addr × Option Data :=
  m.iterate iterator.p_next

/-- Inserts what the iterator gives into the new table, which is not rehashed itself.
What `ght_insert` returns is only printed. -/
def rehashFrom (alloc : Allocator Addr) :
    Nat → Ght Addr Data → GhtIterator Addr → Option Data → Option (Ght Addr Data)
  | _, p_tmp, _, none => some p_tmp
  | 0, _, _, some _ => none
  | bound + 1, p_tmp, iterator, some p => do
    let p_entry ← iterator.p_entry
    let (p_tmp, _) ← p_tmp.insertWith alloc p (p_tmp.heap.key p_entry) some
    let (iterator, p) := ghtNext p_tmp.heap iterator
    rehashFrom alloc bound p_tmp iterator p

def ghtRehash (s : Ght Addr Data) (alloc : Allocator Addr) (i_size : UInt32) :
    Option (Ght Addr Data) := do
  let p_tmp ← ghtCreate s.table.fn_hash i_size alloc.table
  let (iterator, p) := s.ghtFirst
  let p_tmp ← rehashFrom alloc s.heap.live.length ⟨s.heap, p_tmp⟩ iterator p
  let heap ← s.table.freeBuckets p_tmp.heap.live.length p_tmp.heap
  return ⟨heap, s.table.replaceWith p_tmp.table⟩

/-- The rehash of an insertion, if the number of items is too high. -/
def automaticRehash (alloc : Allocator Addr) (s : Ght Addr Data) : Option (Ght Addr Data) :=
  if s.table.i_automatic_rehash ∧ s.table.i_items > 2 * s.table.i_size then
    s.ghtRehash alloc (2 * s.table.i_size)
  else some s

def ghtInsert (s : Ght Addr Data) (alloc : Allocator Addr) (p_entry_data : Data)
    (key : List UInt8) : Option (Ght Addr Data × GhtStatusCode) :=
  s.insertWith alloc p_entry_data key (automaticRehash alloc)

def ghtSetHeuristics (s : Ght Addr Data) (i_heuristics : Int) : Ght Addr Data :=
  { s with table.i_heuristics := i_heuristics }

def ghtSetRehash (s : Ght Addr Data) (b_rehash : Bool) : Ght Addr Data :=
  { s with table.i_automatic_rehash := b_rehash }

end Ght

-- ---------------------------------------------------------------------------
-- QvrVnodeHooksHashTable
-- ---------------------------------------------------------------------------

/-- `QvrVnodeHooksHashTable`, with the references on the entries. -/
structure HooksTable (Addr Entry : Type) where
  hashTable : Ght Addr Entry
  retainCount : Entry → Int

/-- `sizeof( v_op ), &v_op`: the key is the pointer itself. -/
def vopKey (v_op : UInt64) : List UInt8 := toLE 8 v_op.toNat

namespace HooksTable

variable {Entry : Type} [DecidableEq Entry]

def retain (s : HooksTable Addr Entry) (entry : Entry) : HooksTable Addr Entry :=
  { s with retainCount := Function.update s.retainCount entry (s.retainCount entry + 1) }

def addEntry (s : HooksTable Addr Entry) (alloc : Allocator Addr) (v_op : UInt64)
    (entry : Entry) : Option (HooksTable Addr Entry × Bool) := do
  let (hashTable, rc) ← s.hashTable.ghtInsert alloc entry (vopKey v_op)
  let s := { s with hashTable }
  if rc ≠ .GHT_OK then return (s, false)
  return (s.retain entry, true)

/-- The reference of the table goes to the caller. -/
def removeEntry (s : HooksTable Addr Entry) (v_op : UInt64) :
    Option (HooksTable Addr Entry × Option Entry) := do
  let (hashTable, entry) ← s.hashTable.ghtRemove (vopKey v_op)
  return ({ s with hashTable }, entry)

def retrieveEntry (s : HooksTable Addr Entry) (v_op : UInt64) (reference : Bool) :
    Option (HooksTable Addr Entry × Option Entry) := do
  let (hashTable, entry) ← s.hashTable.ghtGet (vopKey v_op)
  let s := { s with hashTable }
  match entry with
  | some e => return (if reference then s.retain e else s, some e)
  | none => return (s, none)

end HooksTable

end VfsRedirector
