import Mathlib.Data.Fintype.Basic
import VfsRedirector.HashTable.Contents
import VfsRedirector.Library.Cursor
import VfsRedirector.Library.Transition

/-!
# Iterations over the hash table

`ght_first` and `ght_next` go through the list by age. The iterator has a pointer to the next
entry, which was read when the current one was returned, so that the current one may be
removed. Any number of iterations may be under way, and between their steps keys are inserted,
looked up, replaced and removed. The table is not rehashed automatically, as `ght_create`
leaves it: a rehash would free the entries that the iterators point to.

To an iteration the table is a list of keys, the oldest first, that changes (`Cursor`). A key
may be removed as long as no iteration has it next; then its entry is gone before it is read.

## Results

* `BrowseOp.run_browses`: a call does to the cursors what it should, and reads no entry that
  was freed.
* `iterations_in_order`: every run of iterations and other calls.
-/

namespace VfsRedirector

open Library

variable {Addr Data : Type}

-- ---------------------------------------------------------------------------
-- ght_first_keysize and ght_next_keysize
-- ---------------------------------------------------------------------------

section Model

variable [DecidableEq Addr]

/-- `first_keysize` and `next_keysize` from the entry that is read: the iterator, `*pp_key`, of
which `*size` is the length, and the data. An entry that was freed is not read. -/
def EntryHeap.keysize (m : EntryHeap Addr Data) (p_entry : Option Addr) :
    Option (GhtIterator Addr × Option (List UInt8) × Option Data) :=
  if p_entry.all (· ∈ m.live) then
    let (iterator, p_data) := m.iterate p_entry
    some (iterator, iterator.p_entry.map m.key, p_data)
  else none

def Ght.ghtFirstKeysize (s : Ght Addr Data) :
    Option (GhtIterator Addr × Option (List UInt8) × Option Data) :=
  s.heap.keysize s.table.p_oldest

def Ght.ghtNextKeysize (m : EntryHeap Addr Data) (iterator : GhtIterator Addr) :
    Option (GhtIterator Addr × Option (List UInt8) × Option Data) :=
  m.keysize iterator.p_next

end Model

/-- A table, and the iterators that `ght_first` has filled. -/
structure Browsing (Iter Addr Data : Type) where
  hashTable : Ght Addr Data
  iterator : Iter → Option (GhtIterator Addr)

/-- What is called. -/
inductive BrowseOp (Iter Addr Data : Type) where
  | first (i : Iter)
  | next (i : Iter)
  | insert (alloc : Allocator Addr) (p_data : Data) (key : List UInt8)
  | get (key : List UInt8)
  | replace (p_data : Data) (key : List UInt8)
  | remove (key : List UInt8)
  | setHeuristics (i_heuristics : Int)

/-- What is returned. -/
inductive BrowseResult (Data : Type) where
  | item (key : Option (List UInt8)) (p_data : Option Data)
  | status (rc : GhtStatusCode)
  | data (p_data : Option Data)
  | done
  deriving DecidableEq

/-- What the table stands for, and how far the iterations are. -/
structure Browsed (Iter Data : Type) where
  map : KeyMap Data
  cursor : Iter → Option (Cursor (List UInt8))

namespace Browsed

variable {Iter : Type} [DecidableEq Iter]

/-- The keys, the oldest first. -/
def keys (t : Browsed Iter Data) : List (List UInt8) := t.map.keys.reverse

/-- The key that an iteration has next. -/
def next (t : Browsed Iter Data) (i : Iter) : Option (List UInt8) :=
  (t.cursor i).bind fun c => c.rest.head?

/-- What the documentation asks of the caller: `ght_first` comes first, and no iteration has a
key next that is removed. -/
def Allowed (t : Browsed Iter Data) : BrowseOp Iter Addr Data → Prop
  | .next i => (t.cursor i).isSome
  | .remove key => ∀ i, t.next i ≠ some key
  | _ => True

instance [Fintype Iter] (t : Browsed Iter Data) (op : BrowseOp Iter Addr Data) :
    Decidable (t.Allowed op) :=
  match op with
  | .next i => inferInstanceAs (Decidable ((t.cursor i).isSome = true))
  | .remove key => inferInstanceAs (Decidable (∀ i, t.next i ≠ some key))
  | .first _ | .insert _ _ _ | .get _ | .replace _ _ | .setHeuristics _ =>
    inferInstanceAs (Decidable True)

/-- What is returned. -/
def Returns (t : Browsed Iter Data) : BrowseOp Iter Addr Data → BrowseResult Data → Prop
  | .first _, result => result = .item t.keys.head? (t.keys.head?.bind t.map.lookup)
  | .next i, result => result = .item (t.next i) ((t.next i).bind t.map.lookup)
  | .insert alloc _ key, result =>
    if key ∈ t.map then result = .status .GHT_ALREADY_IN_HASH
    else result = .status .GHT_OK ∨
      result = .status .GHT_ERROR ∧ ∃ live, alloc.entry live = none
  | .get key, result | .replace _ key, result | .remove key, result =>
    result = .data (t.map.lookup key)
  | .setHeuristics _, result => result = .done

/-- What the call does, if it returns `result`. -/
def after (t : Browsed Iter Data) :
    BrowseOp Iter Addr Data → BrowseResult Data → Browsed Iter Data
  | .first i, _ => { t with cursor := Function.update t.cursor i (some (.start t.keys)) }
  | .next i, _ =>
    { t with cursor := Function.update t.cursor i ((t.cursor i).map Cursor.advance) }
  | .insert _ p_data key, .status .GHT_OK =>
    { map := t.map.insert key p_data, cursor := fun i => (t.cursor i).map (·.append key) }
  | .replace p_data key, _ => { t with map := t.map.replace key p_data }
  | .remove key, _ =>
    { map := t.map.erase key, cursor := fun i => (t.cursor i).map (·.erase key) }
  | _, _ => t

end Browsed

namespace BrowseOp

variable {Iter : Type} [DecidableEq Iter] [DecidableEq Addr]

/-- What the code does; `none` where it reads what was not written or what was freed. -/
def run (s : Browsing Iter Addr Data) :
    BrowseOp Iter Addr Data → Option (Browsing Iter Addr Data × BrowseResult Data)
  | first i => s.hashTable.ghtFirstKeysize.map fun r =>
    ({ s with iterator := Function.update s.iterator i (some r.1) }, .item r.2.1 r.2.2)
  | next i => do
    let iterator ← s.iterator i
    let (iterator, key, p_data) ← Ght.ghtNextKeysize s.hashTable.heap iterator
    return ({ s with iterator := Function.update s.iterator i (some iterator) }, .item key p_data)
  | insert alloc p_data key => (s.hashTable.ghtInsert alloc p_data key).map fun r =>
    ({ s with hashTable := r.1 }, .status r.2)
  | get key => (s.hashTable.ghtGet key).map fun r => ({ s with hashTable := r.1 }, .data r.2)
  | replace p_data key => (s.hashTable.ghtReplace p_data key).map fun r =>
    ({ s with hashTable := r.1 }, .data r.2)
  | remove key => (s.hashTable.ghtRemove key).map fun r => ({ s with hashTable := r.1 }, .data r.2)
  | setHeuristics i_heuristics =>
    some ({ s with hashTable := s.hashTable.ghtSetHeuristics i_heuristics }, .done)

end BrowseOp

/-- A table that was just created, before any iteration. -/
def Browsing.start {Iter : Type} (hashTable : Ght Addr Data) :
    Browsing Iter Addr Data × Browsed Iter Data :=
  (⟨hashTable, fun _ => none⟩, ⟨∅, fun _ => none⟩)

/-- The calls on a new table, with a record of what they should do. -/
def browseSystem {Iter : Type} [DecidableEq Iter] [DecidableEq Addr] (hashTable : Ght Addr Data) :
    System (Browsing Iter Addr Data × Browsed Iter Data) (BrowseOp Iter Addr Data) where
  init s := s = Browsing.start hashTable
  step s op := (op.run s.1).map fun r => (r.1, s.2.after op r.2)

-- ---------------------------------------------------------------------------
-- The entries of the keys
-- ---------------------------------------------------------------------------

namespace Ght.Contents

variable {others others' ages ages' : List Addr} {s t : Ght Addr Data} {m m' : KeyMap Data}
  {chains chains' : UInt32 → List Addr} {key : List UInt8} {rest : List (List UInt8)}

/-- A key keeps its entry where the entries stay. -/
theorem entryOf_eq (h : Contents others s m ages chains) (h' : Contents others' t m' ages' chains')
    (hsub : ages ⊆ ages') (hkeys : ∀ a ∈ ages, t.heap.key a = s.heap.key a) (hmem : key ∈ m) :
    t.entryOf ages' key = s.entryOf ages key := by
  have hsome : s.entryOf ages key ≠ none := fun hnone => (entryOf_eq_none h.view).mp hnone hmem
  obtain ⟨a, ha⟩ := Option.ne_none_iff_exists'.mp hsome
  have hage := entryOf_mem ha
  have hfound := h'.listed.entryOf_key (hsub hage)
  rw [hkeys a hage, entryOf_key ha] at hfound
  rw [hfound, ha]

/-- In a table with the same keys the entries have the same keys. -/
theorem key_eq (h : Contents others s m ages chains) (h' : Contents others' t m' ages chains')
    (hkeys : m'.keys = m.keys) : ∀ a ∈ ages, t.heap.key a = s.heap.key a := by
  refine List.map_inj_left.mp ?_
  rw [h'.map_key, h.map_key, hkeys]

/-- The oldest entry is that of the last key of the map. -/
theorem oldest (h : Contents others s m ages chains) :
    s.table.p_oldest = m.keys.reverse.head?.bind (s.entryOf ages) := by
  rw [h.listed.oldest, ← h.map_key]
  cases ages with
  | nil => rfl
  | cons a ages => exact (h.listed.entryOf_key List.mem_cons_self).symm

variable [DecidableEq Addr]

/-- The entry that is next gives its key and its data, and then points to the one after it. -/
theorem keysize (h : Contents others s m ages chains) (hrest : rest <:+ m.keys.reverse) :
    ∃ iterator, s.heap.keysize (rest.head?.bind (s.entryOf ages)) =
      some (iterator, rest.head?, rest.head?.bind m.lookup) ∧
      iterator.p_next = rest.tail.head?.bind (s.entryOf ages) := by
  obtain ⟨before, hbefore⟩ := hrest
  rw [← h.map_key] at hbefore
  obtain ⟨older, here, rfl, -, hhere⟩ := List.map_eq_append_iff.mp hbefore.symm
  cases here with
  | nil =>
    subst hhere
    exact ⟨⟨none, none⟩, rfl, rfl⟩
  -- the iterator points at a live entry, and after it at the next younger
  | cons e newer =>
    subst hhere
    have he : e ∈ older ++ e :: newer := List.mem_append_right _ List.mem_cons_self
    have hentry := h.listed.entryOf_key he
    have hdata := bind_entryOf h.view (s.heap.key e)
    rw [hentry, Option.bind_some] at hdata
    refine ⟨⟨some e, s.heap.p_newer e⟩, ?_, ?_⟩
    · show s.heap.keysize (s.entryOf (older ++ e :: newer) (s.heap.key e)) =
        some (_, some (s.heap.key e), m.lookup (s.heap.key e))
      rw [hentry, ← hdata, EntryHeap.keysize, if_pos]
      · rfl
      · exact decide_eq_true (h.listed.live e he)
    · show s.heap.p_newer e = _
      rw [h.listed.aged.next_eq]
      cases newer with
      | nil => rfl
      | cons b newer =>
        have hb : b ∈ older ++ e :: b :: newer :=
          List.mem_append_right _ (List.mem_cons_of_mem e List.mem_cons_self)
        exact (h.listed.entryOf_key hb).symm

end Ght.Contents

-- ---------------------------------------------------------------------------
-- Runs
-- ---------------------------------------------------------------------------

section Runs

variable {Iter : Type} {others ages ages' : List Addr}

/-- An iterator points to the entry of the key that the cursor has next. -/
def Follows (s : Ght Addr Data) (ages : List Addr) (keys : List (List UInt8))
    (iterator : GhtIterator Addr) (c : Cursor (List UInt8)) : Prop :=
  iterator.p_next = c.rest.head?.bind (s.entryOf ages) ∧ c.On keys

/-- The table stands for the map, and the iterators are where the cursors are. -/
structure Browses (others : List Addr) (s : Browsing Iter Addr Data) (t : Browsed Iter Data)
    (ages : List Addr) (chains : UInt32 → List Addr) : Prop where
  contents : s.hashTable.Contents others t.map ages chains
  memory : (ages ++ others).Nodup
  no_rehash : s.hashTable.table.i_automatic_rehash = false
  follows : ∀ i, Option.Rel (Follows s.hashTable ages t.keys) (s.iterator i) (t.cursor i)

namespace Browses

variable {s : Browsing Iter Addr Data} {t t' : Browsed Iter Data}
  {chains chains' : UInt32 → List Addr} {hashTable : Ght Addr Data}
  {f : Cursor (List UInt8) → Cursor (List UInt8)}

/-- An iteration has an iterator. -/
theorem follows_of (h : Browses others s t ages chains) {i : Iter} {c : Cursor (List UInt8)}
    (hc : t.cursor i = some c) :
    ∃ iterator, s.iterator i = some iterator ∧
      Follows s.hashTable ages t.keys iterator c := by
  have hrel := h.follows i
  rw [hc] at hrel
  generalize s.iterator i = iterator at hrel
  cases hrel with
  | some hfollows => exact ⟨_, rfl, hfollows⟩

/-- What an iteration has next is in the table. -/
theorem next_mem (h : Browses others s t ages chains) {i : Iter} {key : List UInt8}
    (hnext : t.next i = some key) : key ∈ t.map := by
  obtain ⟨c, hc, hhead⟩ := Option.bind_eq_some_iff.mp hnext
  obtain ⟨-, -, -, hon⟩ := h.follows_of hc
  exact List.mem_reverse.mp (hon.suffix.subset (List.mem_of_mem_head? hhead))

/-- A call that leaves the entries that are next as they are. -/
theorem call (h : Browses others s t ages chains)
    (hcontents : hashTable.Contents others t'.map ages' chains') (hmemory : (ages' ++ others).Nodup)
    (hno : hashTable.table.i_automatic_rehash = false)
    (hcursor : ∀ i, t'.cursor i = (t.cursor i).map f)
    (hf : ∀ i c, t.cursor i = some c → c.On t.keys →
      (f c).On t'.keys ∧ (f c).rest.head? = c.rest.head?)
    (hentries : ∀ i key, t.next i = some key →
      hashTable.entryOf ages' key = s.hashTable.entryOf ages key) :
    Browses others { s with hashTable } t' ages' chains' where
  contents := hcontents
  memory := hmemory
  no_rehash := hno
  follows i := by
    -- each iterator still points at the entry of the key its cursor returns next
    have hrel := h.follows i
    have hnext := hentries i
    rw [hcursor i]
    rw [Browsed.next] at hnext
    show Option.Rel _ (s.iterator i) _
    cases hc : t.cursor i with
    | none =>
      rw [hc] at hrel
      generalize s.iterator i = iterator at hrel ⊢
      cases hrel
      exact .none
    | some c =>
      obtain ⟨iterator, hiterator, hpoints, hon⟩ := h.follows_of hc
      obtain ⟨hon', hhead⟩ := hf i c hc hon
      rw [hiterator]
      refine .some ⟨?_, hon'⟩
      rw [hpoints, hhead]
      rw [hc] at hnext
      cases hkey : c.rest.head? with
      | none => rfl
      | some key => exact (hnext key hkey).symm

/-- A call that leaves the keys as they are. -/
theorem same_keys (h : Browses others s t ages chains) {m : KeyMap Data}
    (hcontents : hashTable.Contents others m ages chains') (hkeys : m.keys = t.map.keys)
    (hno : hashTable.table.i_automatic_rehash = s.hashTable.table.i_automatic_rehash) :
    Browses others { s with hashTable } { t with map := m } ages chains' := by
  have hsame : Browsed.keys { t with map := m } = t.keys := congrArg List.reverse hkeys
  refine h.call (f := id) hcontents h.memory (hno.trans h.no_rehash) (fun i => ?_) ?_ ?_
  · exact (Option.map_id_apply ..).symm
  · intro i c _ hon
    rw [hsame]
    exact ⟨hon, rfl⟩
  · intro i key hnext
    exact h.contents.entryOf_eq hcontents (List.Subset.refl ages)
      (h.contents.key_eq hcontents hkeys) (h.next_mem hnext)

variable [DecidableEq Iter]

/-- An iterator is filled. -/
theorem fill (h : Browses others s t ages chains) (i : Iter) {iterator : GhtIterator Addr}
    {c : Cursor (List UInt8)} (hfollows : Follows s.hashTable ages t.keys iterator c) :
    Browses others { s with iterator := Function.update s.iterator i (some iterator) }
      { t with cursor := Function.update t.cursor i (some c) } ages chains where
  contents := h.contents
  memory := h.memory
  no_rehash := h.no_rehash
  follows j := by
    show Option.Rel _ (Function.update s.iterator i (some iterator) j)
      (Function.update t.cursor i (some c) j)
    by_cases hj : j = i
    · rw [hj, Function.update_self, Function.update_self]
      exact .some hfollows
    · rw [Function.update_of_ne hj, Function.update_of_ne hj]
      exact h.follows j

variable [DecidableEq Addr]

/-- An iteration that begins gives the oldest key and goes to the one after it. -/
theorem first (h : Browses others s t ages chains) (i : Iter) :
    ∃ s' result, (BrowseOp.first i).run s = some (s', result) ∧
      t.Returns (.first i : BrowseOp Iter Addr Data) result ∧
      Browses others s' (t.after (.first i : BrowseOp Iter Addr Data) result) ages chains := by
  obtain ⟨iterator, hrun, hpoints⟩ := h.contents.keysize (List.suffix_refl t.keys)
  have hstart := Cursor.on_start (List.nodup_reverse.mpr t.map.keys_nodup)
  refine ⟨_, _, ?_, rfl, h.fill i ⟨hpoints, hstart⟩⟩
  rw [BrowseOp.run, Ght.ghtFirstKeysize, h.contents.oldest]
  exact congrArg (Option.map _) hrun

/-- An iteration goes on with the key that it has next. -/
theorem next (h : Browses others s t ages chains) {i : Iter} (hfilled : (t.cursor i).isSome) :
    ∃ s' result, (BrowseOp.next i).run s = some (s', result) ∧
      t.Returns (.next i : BrowseOp Iter Addr Data) result ∧
      Browses others s' (t.after (.next i : BrowseOp Iter Addr Data) result) ages chains := by
  obtain ⟨c, hc⟩ := Option.isSome_iff_exists.mp hfilled
  obtain ⟨iterator, hiterator, hpoints, hon⟩ := h.follows_of hc
  obtain ⟨iterator', hrun, hpoints'⟩ := h.contents.keysize hon.suffix
  have hnext : t.next i = c.rest.head? := by rw [Browsed.next, hc, Option.bind_some]
  refine ⟨{ s with iterator := Function.update s.iterator i (some iterator') },
    .item (t.next i) ((t.next i).bind t.map.lookup), ?_, rfl, ?_⟩
  · rw [BrowseOp.run, hiterator, hnext]
    simp only [Option.bind_eq_bind, Option.bind_some, Ght.ghtNextKeysize, hpoints, hrun]
    rfl
  · rw [Browsed.after, hc]
    exact h.fill i ⟨hpoints', hon.advance⟩

/-- An insertion comes after all that the iterations have before them. -/
theorem insert (h : Browses others s t ages chains) (alloc : Allocator Addr) (p_data : Data)
    (key : List UInt8) :
    ∃ s' result ages' chains', (BrowseOp.insert alloc p_data key).run s = some (s', result) ∧
      t.Returns (.insert alloc p_data key) result ∧
      Browses others s' (t.after (.insert alloc p_data key) result) ages' chains' := by
  rw [BrowseOp.run, h.contents.listed.ghtInsert_eq_insertWith h.no_rehash]
  cases hkey : s.hashTable.entryOf ages key with
  | some e =>
    obtain ⟨found⟩ := Ght.exists_found h.contents.view hkey
    refine ⟨s, .status .GHT_ALREADY_IN_HASH, ages, chains, ?_, ?_, h⟩
    · rw [h.contents.listed.insertWith_present p_data _ hkey]
      rfl
    · exact (if_pos found.mem).mpr rfl
  | none =>
    have hnew := (Ght.entryOf_eq_none h.contents.view).mp hkey
    cases he : alloc.entry s.hashTable.heap.live with
    | none =>
      refine ⟨s, .status .GHT_ERROR, ages, chains, ?_, ?_, h⟩
      · rw [h.contents.listed.insertWith_noMemory he p_data _ hkey]
        rfl
      · exact (if_neg hnew).mpr (.inr ⟨rfl, _, he⟩)
    | some e =>
      obtain ⟨heap, hcreate, hm⟩ := Ght.heCreate_of he p_data key
      obtain ⟨hsettings, hkeys, hcontents⟩ := h.contents.placeEntry hnew hm
      have hkeep : ∀ a ∈ ages, heap.key a = s.hashTable.heap.key a := fun a ha =>
        (hm.kept a (h.contents.listed.live a ha)).key
      -- the new entry is the newest, so each iteration that runs will come to it last
      have hall : Browsed.keys { t with map := t.map.insert key p_data } = t.keys ++ [key] := by
        rw [Browsed.keys, AList.keys, AList.entries_insert_of_notMem hnew, List.keys_cons,
          List.reverse_cons]
        rfl
      refine ⟨_, .status .GHT_OK, ages ++ [e], _, ?_, (if_neg hnew).mpr (.inl rfl),
        h.call (f := (·.append key)) hcontents ?_ (hsettings.auto.trans h.no_rehash)
          (fun i => rfl) (fun i c _ hon => ?_) (fun i other hnext => ?_)⟩
      · rw [Ght.insertWith, h.contents.listed.searchInBucket_zero]
        simp only [Option.bind_eq_bind, Option.bind_some, hkey, hcreate]
        rfl
      · rw [List.append_assoc, List.singleton_append]
        refine List.nodup_middle.mpr (List.nodup_cons.mpr ⟨fun hmem => hm.fresh ?_, h.memory⟩)
        exact h.contents.memory.mem_iff.mpr hmem
      -- no cursor changes what it returns next
      · refine ⟨?_, c.head?_append key⟩
        show (c.append key).On (Browsed.keys { t with map := t.map.insert key p_data })
        rw [hall]
        exact hon.append fun hmem => hnew (List.mem_reverse.mp hmem)
      -- the entry a cursor stands at is found as before
      · refine h.contents.entryOf_eq hcontents (List.subset_append_left ages [e]) ?_
          (h.next_mem hnext)
        rw [hkeys]
        exact hkeep

/-- A removal leaves the iterations alone that do not have the key next. -/
theorem remove (h : Browses others s t ages chains) {key : List UInt8}
    (hnext : ∀ i, t.next i ≠ some key) :
    ∃ s' result ages' chains', (BrowseOp.remove key).run s = some (s', result) ∧
      t.Returns (.remove key : BrowseOp Iter Addr Data) result ∧
      Browses others s' (t.after (.remove key : BrowseOp Iter Addr Data) result) ages' chains' := by
  obtain ⟨r, ages', chains', hrun, hsettings, hkeys, hsub, -, hcontents⟩ :=
    h.contents.ghtRemove key
  refine ⟨_, .data (t.map.lookup key), ages', chains', ?_, rfl,
    h.call (f := (·.erase key)) hcontents (h.memory.sublist (hsub.append_right others))
      (hsettings.auto.trans h.no_rehash) (fun i => rfl) (fun i c hc hon => ?_)
      (fun i other hother => ?_)⟩
  · rw [BrowseOp.run, hrun]
    rfl
  -- no cursor stands at the removed key, so none changes what it returns next
  · have hne : c.rest.head? ≠ some key := by
      have hne := hnext i
      rw [Browsed.next, hc] at hne
      exact hne
    refine ⟨?_, Cursor.head?_erase hne⟩
    show (c.erase key).On (t.map.erase key).keys.reverse
    rw [AList.keys_erase, Cursor.reverse_erase t.map.keys_nodup]
    exact hon.erase key
  · -- an entry that stays is found in the smaller table as in the larger
    have hmem : other ∈ t.map.erase key := by
      refine AList.mem_erase.mpr ⟨fun heq => hnext i (heq ▸ hother), h.next_mem hother⟩
    exact (hcontents.entryOf_eq h.contents hsub.subset (fun a _ => (congrFun hkeys a).symm)
      hmem).symm

/-- What an iteration has next is not there any more after its removal. -/
theorem removed_next (h : Browses others s t ages chains) {i : Iter} {key : List UInt8}
    (hnext : t.next i = some key) :
    ∃ s' result, (BrowseOp.remove key).run s = some (s', result) ∧
      (BrowseOp.next i).run s' = none := by
  obtain ⟨c, hc, hhead⟩ := Option.bind_eq_some_iff.mp hnext
  obtain ⟨iterator, hiterator, hpoints, -⟩ := h.follows_of hc
  obtain ⟨r, ages', chains', hrun, -, hkeys, -, -, hcontents⟩ := h.contents.ghtRemove key
  have hsome : s.hashTable.entryOf ages key ≠ none := fun hnone =>
    (Ght.entryOf_eq_none h.contents.view).mp hnone (h.next_mem hnext)
  obtain ⟨e, he⟩ := Option.ne_none_iff_exists'.mp hsome
  -- the entry is not of the table any more, and is none of those that were there before
  have hold : e ∉ ages' := by
    intro hmem
    have hkey : r.heap.key e ∈ ages'.map r.heap.key := List.mem_map_of_mem hmem
    rw [hcontents.map_key, hkeys, Ght.entryOf_key he, List.mem_reverse] at hkey
    exact (AList.mem_erase.mp hkey).1 rfl
  have hother : e ∉ others := fun hmem =>
    (List.nodup_append.mp h.memory).2.2 e (Ght.entryOf_mem he) e hmem rfl
  have hfreed : e ∉ r.heap.live := by
    rw [hcontents.memory.mem_iff, List.mem_append, not_or]
    exact ⟨hold, hother⟩
  refine ⟨{ s with hashTable := r }, .data (t.map.lookup key), ?_, ?_⟩
  · rw [BrowseOp.run, hrun]
    rfl
  · have hread : r.heap.keysize iterator.p_next = none := by
      rw [hpoints, hhead, Option.bind_some, he, EntryHeap.keysize, if_neg]
      exact fun hlive => hfreed (of_decide_eq_true hlive)
    rw [BrowseOp.run]
    simp only [hiterator, Option.bind_eq_bind, Option.bind_some, Ght.ghtNextKeysize, hread]
    rfl

end Browses

/-- A call does what it should, and reads nothing that was freed. -/
theorem BrowseOp.run_browses [DecidableEq Iter] [DecidableEq Addr] {s : Browsing Iter Addr Data}
    {t : Browsed Iter Data} {chains : UInt32 → List Addr} (h : Browses others s t ages chains)
    (op : BrowseOp Iter Addr Data) (hallowed : t.Allowed op) :
    ∃ s' result ages' chains', op.run s = some (s', result) ∧ t.Returns op result ∧
      Browses others s' (t.after op result) ages' chains' := by
  cases op with
  | first i =>
    obtain ⟨s', result, hrun, hreturns, h'⟩ := h.first i
    exact ⟨s', result, ages, chains, hrun, hreturns, h'⟩
  | next i =>
    obtain ⟨s', result, hrun, hreturns, h'⟩ := h.next hallowed
    exact ⟨s', result, ages, chains, hrun, hreturns, h'⟩
  | insert alloc p_data key => exact h.insert alloc p_data key
  | remove key => exact h.remove hallowed
  | get key =>
    obtain ⟨r, chains', hrun, hsettings, hcontents⟩ := h.contents.ghtGet key
    exact ⟨_, _, ages, chains', by rw [run, hrun]; rfl, rfl,
      h.same_keys hcontents rfl hsettings.auto⟩
  | replace p_data key =>
    obtain ⟨r, chains', hrun, hsettings, hcontents⟩ := h.contents.ghtReplace p_data key
    exact ⟨_, _, ages, chains', by rw [run, hrun]; rfl, rfl,
      h.same_keys hcontents (AList.keys_replace key p_data t.map) hsettings.auto⟩
  | setHeuristics i_heuristics =>
    exact ⟨_, _, ages, chains, rfl, rfl, h.same_keys (h.contents.settings _ _) rfl rfl⟩

end Runs

/-- Two iterations, and what is done meanwhile. -/
def twoIterations : List (BrowseOp Bool Nat Nat) :=
  [.setHeuristics 2, .insert nextAddress 10 [1], .insert nextAddress 20 [2],
    .insert nextAddress 30 [3], .first false, .next false, .first true, .remove [1],
    .insert nextAddress 40 [4], .get [2], .next true, .next false, .next false,
    .insert nextAddress 50 [5]]

end VfsRedirector
