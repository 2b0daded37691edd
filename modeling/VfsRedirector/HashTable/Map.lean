import Mathlib.Data.List.AList
import VfsRedirector.HashTable.Rehash

/-!
# The hash table as a map

A table is a finite map from byte strings: `Represents` relates it to an association
list, newest entry first. Each operation does to the map what its name says, and
leaves a table that is `Listed`, with the entries in the order of their insertion.
From the steps it follows for every run of operations, those of
`QvrVnodeHooksHashTable` among them.

## Results

* `Represents.ghtInsert`, `Represents.ghtGet`, `Represents.ghtRemove` — operations on
  the table, as ones on the map.
* `run_represents` — every operation with memory for it.
* `hashTable_is_map` — every run of operations.
-/

namespace VfsRedirector

open Library

variable {Addr Data : Type}

/-- What the table is for: keys with their data, newest first. -/
abbrev KeyMap (Data : Type) := AList fun _ : List UInt8 => Data

/-- An entry of the map, as it is seen in the heap. -/
def storedAs (e : Sigma fun _ : List UInt8 => Data) : List UInt8 × Option Data := (e.1, some e.2)

namespace Ght

/-- The table stands for the map. -/
def Represents (s : Ght Addr Data) (m : KeyMap Data) : Prop :=
  ∃ ages chains, s.Listed ages chains ∧
    ages.map s.heap.view = (m.entries.map storedAs).reverse

variable {s : Ght Addr Data} {m : KeyMap Data} {ages : List Addr} {chains : UInt32 → List Addr}
  {e : Addr} {key : List UInt8} {alloc : Allocator Addr}

/-- A key that has no entry is not in the map. -/
theorem entryOf_eq_none (hview : ages.map s.heap.view = (m.entries.map storedAs).reverse) :
    s.entryOf ages key = none ↔ key ∉ m := by
  rw [entryOf_eq_none_iff, hview, AList.mem_keys, AList.keys, List.keys]
  constructor
  · intro h hmem
    obtain ⟨x, hx, rfl⟩ := List.mem_map.mp hmem
    exact h (storedAs x) (List.mem_reverse.mpr (List.mem_map_of_mem hx)) rfl
  · rintro h v hv rfl
    obtain ⟨x, hx, rfl⟩ := List.mem_map.mp (List.mem_reverse.mp hv)
    exact h (List.mem_map_of_mem hx)

/-- The entry of a key, in the list by age and in the map. -/
structure Found (s : Ght Addr Data) (m : KeyMap Data) (ages : List Addr) (key : List UInt8)
    (e : Addr) where
  older : List Addr
  newer : List Addr
  before : List (Sigma fun _ : List UInt8 => Data)
  data : Data
  after : List (Sigma fun _ : List UInt8 => Data)
  ages_eq : ages = older ++ e :: newer
  entries_eq : m.entries = before ++ ⟨key, data⟩ :: after
  older_view : older.map s.heap.view = (after.map storedAs).reverse
  newer_view : newer.map s.heap.view = (before.map storedAs).reverse
  data_eq : s.heap.p_data e = some data
  key_notMem : key ∉ before.keys

/-- A key with an entry is at some place of the map. -/
theorem exists_found (hview : ages.map s.heap.view = (m.entries.map storedAs).reverse)
    (hkey : s.entryOf ages key = some e) : Nonempty (Found s m ages key e) := by
  obtain ⟨older, newer, hages⟩ := List.append_of_mem (entryOf_mem hkey)
  have hmap : m.entries.map storedAs =
      (newer.map s.heap.view).reverse ++ s.heap.view e :: (older.map s.heap.view).reverse := by
    rw [← List.reverse_reverse (m.entries.map storedAs), ← hview, hages]
    simp
  obtain ⟨before, rest, hentries, hbefore, hrest⟩ := List.map_eq_append_iff.mp hmap
  obtain ⟨x, after, rfl, hx, hafter⟩ := List.map_eq_cons_iff.mp hrest
  obtain ⟨k, d⟩ := x
  obtain ⟨hk, hd⟩ := Prod.mk.inj hx
  obtain rfl : k = key := hk.trans (entryOf_key hkey)
  refine ⟨⟨older, newer, before, d, after, hages, hentries, ?_, ?_, hd.symm, ?_⟩⟩
  · rw [hafter, List.reverse_reverse]
  · rw [hbefore, List.reverse_reverse]
  · have hnodup := m.keys_nodup
    rw [AList.keys, hentries, List.keys, List.map_append, List.map_cons] at hnodup
    exact (nodup_around hnodup).2.1

namespace Found

/-- A key that is found is in the map. -/
theorem mem (f : Found s m ages key e) : key ∈ m := by
  rw [AList.mem_keys, AList.keys, f.entries_eq, List.keys, List.map_append]
  exact List.mem_append_right _ List.mem_cons_self

/-- The map has the data of a key that is found. -/
theorem lookup (f : Found s m ages key e) : m.lookup key = some f.data := by
  rw [← Option.mem_def, AList.mem_lookup_iff, f.entries_eq]
  exact List.mem_append_right _ List.mem_cons_self

/-- Without a key that is found the map has what is before and after it. -/
theorem erase (f : Found s m ages key e) : (m.erase key).entries = f.before ++ f.after := by
  show m.entries.kerase key = _
  rw [f.entries_eq, List.kerase_append_right f.key_notMem]
  simp only [List.kerase_cons_eq]

/-- With other data a key that is found stands where it did. -/
theorem replace (f : Found s m ages key e) (p_data : Data) :
    (m.replace key p_data).entries = f.before ++ ⟨key, p_data⟩ :: f.after := by
  show m.entries.kreplace key p_data = _
  have hnot := f.key_notMem
  rw [f.entries_eq]
  generalize f.before = before at hnot
  induction before with
  | nil => exact List.lookmap_cons_some _ _ (if_pos rfl)
  | cons x before ih =>
    rw [List.keys_cons, List.mem_cons, not_or] at hnot
    rw [List.kreplace, List.cons_append, List.lookmap_cons_none]
    · exact congrArg (x :: ·) (ih hnot.2)
    · exact if_neg hnot.1

end Found

/-- The data of the entry that was found is what the map has. -/
theorem bind_entryOf (hview : ages.map s.heap.view = (m.entries.map storedAs).reverse)
    (key : List UInt8) : (s.entryOf ages key).bind s.heap.p_data = m.lookup key := by
  cases hkey : s.entryOf ages key with
  | none => exact (AList.lookup_eq_none.mpr ((entryOf_eq_none hview).mp hkey)).symm
  | some e =>
    obtain ⟨found⟩ := exists_found hview hkey
    rw [Option.bind_some, found.data_eq, found.lookup]

/-- To set the heuristics changes nothing of what the table stands for. -/
theorem Represents.settings (h : s.Represents m) (i_heuristics : Int)
    (i_automatic_rehash : Bool) :
    Represents ⟨s.heap, { s.table with i_heuristics, i_automatic_rehash }⟩ m := by
  obtain ⟨ages, chains, hlisted, hview⟩ := h
  exact ⟨ages, chains, hlisted.settings _ _, hview⟩

-- ---------------------------------------------------------------------------
-- The functions
-- ---------------------------------------------------------------------------

variable [DecidableEq Addr]

/-- An insertion adds a key that is not there, and else says so. -/
theorem Represents.ghtInsert (h : s.Represents m) (halloc : alloc.Succeeds) (p_data : Data)
    (key : List UInt8) :
    ∃ s', s.ghtInsert alloc p_data key =
        some (s', if key ∈ m then .GHT_ALREADY_IN_HASH else .GHT_OK) ∧
      s'.Represents (if key ∈ m then m else m.insert key p_data) := by
  obtain ⟨ages, chains, hlisted, hview⟩ := h
  cases hkey : s.entryOf ages key with
  | none =>
    have hnew := (entryOf_eq_none hview).mp hkey
    obtain ⟨s', ages', chains', hrun, hlisted', hview'⟩ := hlisted.ghtInsert halloc p_data hkey
    rw [if_neg hnew, if_neg hnew]
    refine ⟨s', hrun, ages', chains', hlisted', ?_⟩
    rw [hview', hview, AList.entries_insert_of_notMem hnew, List.map_cons, List.reverse_cons]
    rfl
  | some e =>
    obtain ⟨found⟩ := exists_found hview hkey
    rw [if_pos found.mem, if_pos found.mem]
    exact ⟨s, hlisted.insertWith_present p_data _ hkey, ages, chains, hlisted, hview⟩

/-- A lookup returns the data of the key. -/
theorem Represents.ghtGet (h : s.Represents m) (key : List UInt8) :
    ∃ s', s.ghtGet key = some (s', m.lookup key) ∧ s'.Represents m := by
  obtain ⟨ages, chains, hlisted, hview⟩ := h
  obtain ⟨s', chains', hrun, hlisted', hsame⟩ := hlisted.ghtGet key
  rw [bind_entryOf hview] at hrun
  exact ⟨s', hrun, ages, chains', hlisted', hsame ▸ hview⟩

/-- A replacement returns the old data, if there was any. -/
theorem Represents.ghtReplace (h : s.Represents m) (p_data : Data) (key : List UInt8) :
    ∃ s', s.ghtReplace p_data key = some (s', m.lookup key) ∧
      s'.Represents (m.replace key p_data) := by
  obtain ⟨ages, chains, hlisted, hview⟩ := h
  have hbind := bind_entryOf hview key
  cases hkey : s.entryOf ages key with
  | none =>
    have hnew := (entryOf_eq_none hview).mp hkey
    have hsame : m.replace key p_data = m := by
      refine AList.ext (List.kreplace_of_forall_not _ _ fun d hd => hnew ?_)
      exact List.mem_keys_of_mem hd
    obtain ⟨s', chains', hrun, hlisted', hview'⟩ := hlisted.ghtReplace_none p_data hkey
    rw [hkey, Option.bind_none] at hbind
    rw [hbind] at hrun
    exact ⟨s', hrun, ages, chains', hlisted', by rw [hview', hsame, hview]⟩
  | some e =>
    obtain ⟨found⟩ := exists_found hview hkey
    obtain ⟨s', chains', hrun, hlisted', hview'⟩ := hlisted.ghtReplace p_data hkey
    rw [hkey, Option.bind_some] at hbind
    rw [hbind] at hrun
    refine ⟨s', hrun, ages, chains', hlisted', ?_⟩
    -- the view of the other entries is what it was
    have hnodup := hlisted.ages_nodup
    rw [found.ages_eq] at hnodup
    obtain ⟨-, holder, hnewer, -, -⟩ := nodup_around hnodup
    have hkeep : ∀ l : List Addr, e ∉ l → l.map s'.heap.view = l.map s.heap.view := by
      intro l hl
      refine List.map_congr_left fun a ha => ?_
      rw [hview', Function.update_of_ne (ne_of_mem_of_not_mem ha hl)]
    have he : s'.heap.view e = storedAs ⟨key, p_data⟩ := by
      rw [hview', Function.update_self]
      rfl
    rw [found.ages_eq, found.replace, List.map_append, List.map_cons, hkeep _ holder,
      hkeep _ hnewer, he, found.older_view, found.newer_view]
    simp

/-- A removal returns the data that it takes out. -/
theorem Represents.ghtRemove (h : s.Represents m) (key : List UInt8) :
    ∃ s', s.ghtRemove key = some (s', m.lookup key) ∧ s'.Represents (m.erase key) := by
  obtain ⟨ages, chains, hlisted, hview⟩ := h
  have hbind := bind_entryOf hview key
  cases hkey : s.entryOf ages key with
  | none =>
    have hnew := (entryOf_eq_none hview).mp hkey
    have hsame : m.erase key = m := AList.ext (List.kerase_of_notMem_keys hnew)
    rw [hkey, Option.bind_none] at hbind
    rw [← hbind, hsame]
    exact ⟨s, hlisted.ghtRemove_none hkey, ages, chains, hlisted, hview⟩
  | some e =>
    obtain ⟨found⟩ := exists_found hview hkey
    rw [hkey, Option.bind_some] at hbind
    rw [found.ages_eq] at hlisted hkey
    obtain ⟨s', chains', hrun, hlisted', hview'⟩ := hlisted.ghtRemove hkey
    rw [hbind] at hrun
    refine ⟨s', hrun, _, chains', hlisted', ?_⟩
    rw [hview', List.map_append, found.older_view, found.newer_view, found.erase]
    simp

/-- A rehash with memory for the new table loses nothing. -/
theorem Represents.ghtRehash (h : s.Represents m) (halloc : alloc.Succeeds) {i_size : UInt32}
    (hsize : i_size ≤ sizeLimit) : ∃ s', s.ghtRehash alloc i_size = some s' ∧ s'.Represents m := by
  obtain ⟨ages, chains, hlisted, hview⟩ := h
  obtain ⟨s', ages', chains', hrun, hbuilt⟩ := hlisted.ghtRehash halloc hsize
  exact ⟨s', hrun, ages', chains', hbuilt.listed, hbuilt.view.trans hview⟩

end Ght

/-- A heap before any table. -/
def noEntries : EntryHeap Nat Nat where
  p_next _ := none
  p_prev _ := none
  key _ := []
  p_data _ := none
  p_older _ := none
  p_newer _ := none
  size _ := 0
  live := []

/-- Memory that does not run out: the address after the greatest that is in use. -/
def nextAddress : Allocator Nat where
  entry live := some (live.foldr max 0 + 1)
  fresh live a h hmem := by
    have hle : ∀ l : List Nat, a ∈ l → a ≤ l.foldr max 0 := by
      intro l hl
      induction l with
      | nil => cases hl
      | cons b l ih =>
        rcases List.mem_cons.mp hl with rfl | hl
        · exact Nat.le_max_left _ _
        · exact Nat.le_trans (ih hl) (Nat.le_max_right _ _)
    have hbound := hle live hmem
    obtain rfl := Option.some.inj h
    omega
  table := true

/-- An allocator that goes on to the next address always succeeds. -/
theorem nextAddress_succeeds : nextAddress.Succeeds := ⟨fun _ => rfl, rfl⟩

-- ---------------------------------------------------------------------------
-- Runs
-- ---------------------------------------------------------------------------

/-- What is called, each time with the memory that there is then. -/
inductive TableOp (Addr Data : Type) where
  | insert (alloc : Allocator Addr) (p_data : Data) (key : List UInt8)
  | get (key : List UInt8)
  | replace (p_data : Data) (key : List UInt8)
  | remove (key : List UInt8)
  | rehash (alloc : Allocator Addr) (i_size : UInt32)
  | setHeuristics (i_heuristics : Int)
  | setRehash (b_rehash : Bool)
  | addEntry (alloc : Allocator Addr) (v_op : UInt64) (entry : Data)
  | removeEntry (v_op : UInt64)
  | retrieveEntry (v_op : UInt64) (reference : Bool)

/-- What is returned. -/
inductive TableResult (Data : Type) where
  | status (rc : GhtStatusCode)
  | data (p_data : Option Data)
  | added (res : Bool)
  | done

namespace TableOp

/-- The allocations succeed, and a size that is asked for has a power of two. -/
def Served : TableOp Addr Data → Prop
  | insert alloc _ _ => alloc.Succeeds
  | rehash alloc i_size => alloc.Succeeds ∧ i_size ≤ sizeLimit
  | addEntry alloc _ _ => alloc.Succeeds
  | _ => True

/-- What the operation does to the map. -/
def onMap (m : KeyMap Data) : TableOp Addr Data → KeyMap Data × TableResult Data
  | insert _ p_data key =>
    if key ∈ m then (m, .status .GHT_ALREADY_IN_HASH)
    else (m.insert key p_data, .status .GHT_OK)
  | get key => (m, .data (m.lookup key))
  | replace p_data key => (m.replace key p_data, .data (m.lookup key))
  | remove key => (m.erase key, .data (m.lookup key))
  | rehash _ _ => (m, .done)
  | setHeuristics _ => (m, .done)
  | setRehash _ => (m, .done)
  | addEntry _ v_op entry =>
    if vopKey v_op ∈ m then (m, .added false) else (m.insert (vopKey v_op) entry, .added true)
  | removeEntry v_op => (m.erase (vopKey v_op), .data (m.lookup (vopKey v_op)))
  | retrieveEntry v_op _ => (m, .data (m.lookup (vopKey v_op)))

variable [DecidableEq Addr] [DecidableEq Data]

/-- What the code does. -/
def run (s : HooksTable Addr Data) :
    TableOp Addr Data → Option (HooksTable Addr Data × TableResult Data)
  | insert alloc p_data key => (s.hashTable.ghtInsert alloc p_data key).map fun r =>
    ({ s with hashTable := r.1 }, .status r.2)
  | get key => (s.hashTable.ghtGet key).map fun r => ({ s with hashTable := r.1 }, .data r.2)
  | replace p_data key => (s.hashTable.ghtReplace p_data key).map fun r =>
    ({ s with hashTable := r.1 }, .data r.2)
  | remove key => (s.hashTable.ghtRemove key).map fun r => ({ s with hashTable := r.1 }, .data r.2)
  | rehash alloc i_size => (s.hashTable.ghtRehash alloc i_size).map fun r =>
    ({ s with hashTable := r }, .done)
  | setHeuristics i_heuristics =>
    some ({ s with hashTable := s.hashTable.ghtSetHeuristics i_heuristics }, .done)
  | setRehash b_rehash => some ({ s with hashTable := s.hashTable.ghtSetRehash b_rehash }, .done)
  | addEntry alloc v_op entry => (s.addEntry alloc v_op entry).map fun r => (r.1, .added r.2)
  | removeEntry v_op => (s.removeEntry v_op).map fun r => (r.1, .data r.2)
  | retrieveEntry v_op reference => (s.retrieveEntry v_op reference).map fun r => (r.1, .data r.2)

/-- A step of the code is one of the map. -/
theorem run_represents {s : HooksTable Addr Data} {m : KeyMap Data}
    (h : s.hashTable.Represents m) (op : TableOp Addr Data) (hserved : op.Served) :
    ∃ s', op.run s = some (s', (op.onMap m).2) ∧ s'.hashTable.Represents (op.onMap m).1 := by
  cases op with
  | insert alloc p_data key =>
    obtain ⟨t, hrun, ht⟩ := h.ghtInsert hserved p_data key
    rw [run, hrun, onMap]
    by_cases hkey : key ∈ m
    · rw [if_pos hkey] at ht
      rw [if_pos hkey, if_pos hkey]
      exact ⟨{ s with hashTable := t }, rfl, ht⟩
    · rw [if_neg hkey] at ht
      rw [if_neg hkey, if_neg hkey]
      exact ⟨{ s with hashTable := t }, rfl, ht⟩
  | get key =>
    obtain ⟨t, hrun, ht⟩ := h.ghtGet key
    exact ⟨{ s with hashTable := t }, by rw [run, hrun, Option.map_some, onMap], ht⟩
  | replace p_data key =>
    obtain ⟨t, hrun, ht⟩ := h.ghtReplace p_data key
    exact ⟨{ s with hashTable := t }, by rw [run, hrun, Option.map_some, onMap], ht⟩
  | remove key =>
    obtain ⟨t, hrun, ht⟩ := h.ghtRemove key
    exact ⟨{ s with hashTable := t }, by rw [run, hrun, Option.map_some, onMap], ht⟩
  | rehash alloc i_size =>
    obtain ⟨t, hrun, ht⟩ := h.ghtRehash hserved.1 hserved.2
    exact ⟨{ s with hashTable := t }, by rw [run, hrun, Option.map_some, onMap], ht⟩
  | setHeuristics i_heuristics => exact ⟨_, rfl, h.settings _ _⟩
  | setRehash b_rehash => exact ⟨_, rfl, h.settings _ _⟩
  -- addEntry retains the entry only if ght_insert took it
  | addEntry alloc v_op entry =>
    obtain ⟨t, hrun, ht⟩ := h.ghtInsert hserved entry (vopKey v_op)
    rw [run, HooksTable.addEntry, hrun, onMap]
    by_cases hkey : vopKey v_op ∈ m
    · rw [if_pos hkey] at ht
      rw [if_pos hkey, if_pos hkey]
      exact ⟨{ s with hashTable := t }, rfl, ht⟩
    · rw [if_neg hkey] at ht
      rw [if_neg hkey, if_neg hkey]
      exact ⟨_, rfl, ht⟩
  | removeEntry v_op =>
    obtain ⟨t, hrun, ht⟩ := h.ghtRemove (vopKey v_op)
    exact ⟨{ s with hashTable := t }, by rw [run, HooksTable.removeEntry, hrun]; rfl, ht⟩
  -- the entry found is retained on request
  | retrieveEntry v_op reference =>
    obtain ⟨t, hrun, ht⟩ := h.ghtGet (vopKey v_op)
    rw [run, HooksTable.retrieveEntry, hrun, onMap]
    cases hdata : m.lookup (vopKey v_op) with
    | none => exact ⟨{ s with hashTable := t }, rfl, ht⟩
    | some e => cases reference <;> exact ⟨_, rfl, ht⟩

/-- The operations one after the other, and what they return. -/
def runAll (s : HooksTable Addr Data) :
    List (TableOp Addr Data) → Option (HooksTable Addr Data × List (TableResult Data))
  | [] => some (s, [])
  | op :: ops => do
    let (s, result) ← op.run s
    let (s, results) ← runAll s ops
    return (s, result :: results)

def onMapAll (m : KeyMap Data) : List (TableOp Addr Data) → KeyMap Data × List (TableResult Data)
  | [] => (m, [])
  | op :: ops =>
    let (m, result) := op.onMap m
    let (m, results) := onMapAll m ops
    (m, result :: results)

/-- A run of the code is one of the map. -/
theorem runAll_represents {s : HooksTable Addr Data} {m : KeyMap Data}
    (h : s.hashTable.Represents m) (ops : List (TableOp Addr Data))
    (hserved : ∀ op ∈ ops, op.Served) :
    ∃ s', runAll s ops = some (s', (onMapAll m ops).2) ∧
      s'.hashTable.Represents (onMapAll m ops).1 := by
  induction ops generalizing s m with
  | nil => exact ⟨s, rfl, h⟩
  | cons op ops ih =>
    obtain ⟨s', hrun, hstep⟩ := run_represents h op (hserved op List.mem_cons_self)
    obtain ⟨s'', hruns, hend⟩ := ih hstep fun op hop => hserved op (List.mem_cons_of_mem _ hop)
    refine ⟨s'', ?_, hend⟩
    rw [runAll, hrun]
    simp only [Option.bind_eq_bind, Option.bind_some, hruns]
    rfl

/-- A table that was created is a map in every run of operations on it. -/
theorem hashTable_is_map (fn_hash : List UInt8 → UInt32) {i_size : UInt32}
    (hsize : i_size ≤ sizeLimit) (heap : EntryHeap Addr Data) (retainCount : Data → Int)
    (ops : List (TableOp Addr Data)) (hserved : ∀ op ∈ ops, op.Served) :
    ∃ t s, ghtCreate fn_hash i_size true = some t ∧
      runAll ⟨⟨heap, t⟩, retainCount⟩ ops = some (s, (onMapAll ∅ ops).2) ∧
      s.hashTable.Represents (onMapAll ∅ ops).1 := by
  obtain ⟨t, hcreate, -, hempty⟩ := Ght.ghtCreate_listed fn_hash hsize heap
  have h : Ght.Represents ⟨heap, t⟩ (∅ : KeyMap Data) := ⟨[], _, hempty, rfl⟩
  obtain ⟨s, hrun, hend⟩ :=
    runAll_represents (s := ⟨⟨heap, t⟩, retainCount⟩) h ops hserved
  exact ⟨t, s, hcreate, hrun, hend⟩

/-- One bucket, in which two keys change places, and a third that is added once. -/
theorem hashTable_is_map_oneBucket :
    ∃ t s, ghtCreate (fun _ => 7) 1 true = some t ∧
      runAll ⟨⟨noEntries, t⟩, fun _ => 0⟩
        [setHeuristics 2, setRehash true, insert nextAddress 10 [1], insert nextAddress 20 [2],
          get [1], insert nextAddress 30 [1], replace 40 [1], addEntry nextAddress 5 50,
          rehash nextAddress 64, remove [1], retrieveEntry 5 true, get [1]] =
        some (s, [.done, .done, .status .GHT_OK, .status .GHT_OK, .data (some 10),
          .status .GHT_ALREADY_IN_HASH, .data (some 10), .added true, .done, .data (some 40),
          .data (some 50), .data none]) ∧
      s.hashTable.Represents (((∅ : KeyMap Nat).insert [2] 20).insert (vopKey 5) 50) :=
  hashTable_is_map (fun _ => 7) (by decide) _ _ _ (by
    simp only [List.forall_mem_cons, Served, nextAddress_succeeds, true_and]
    exact ⟨by decide, fun _ h => absurd h List.not_mem_nil⟩)

end TableOp

end VfsRedirector
