import VfsRedirector.DataMap.Memory

/-!
# A DataMap is a finite map

`Stored head s l` is what the list of a map is in memory: the entries `l` in a ring
through the head, which are also what is allocated. Every operation keeps it, whatever
order they come in, and `Holds` adds what the entries say: a `DataMap`, whose operations
those in memory refine (`Holds.call`).

A finite map has no order of its keys, so `MapStep` leaves open which entry is the first.

## Results

* `Stored.addDataByKey`, `Stored.removeKey`, `Stored.removeFirst` — the operations on
  the linked list.
* `Holds.call` — the list refines the map.
* `run_dataMap` — every sequence of calls on the list is one on a finite map.
-/

namespace VfsRedirector

open Library

variable {Addr K D : Type}

-- ---------------------------------------------------------------------------
-- Finite maps
-- ---------------------------------------------------------------------------

/-- A call to a finite map `f`: what it returns, and what becomes of `f`. -/
inductive MapStep [DecidableEq K] (f : K → Option D) :
    DataMapCall Addr K D → DataMapResult K D → (K → Option D) → Prop
  | addDataByKey (key : K) (data : D) (memory : Addr) :
    MapStep f (.addDataByKey key data (some memory)) (.added true)
      (Function.update f key (some data))
  | noMemory (key : K) (data : D) : MapStep f (.addDataByKey key data none) (.added false) f
  | removeKey (key : K) : MapStep f (.removeKey key) .removed (Function.update f key none)
  | removeFirst {key : K} {data : D} (h : f key = some data) :
    MapStep f .removeFirstEntryAndReturnItsData (.first (some (key, data)))
      (Function.update f key none)
  | nothingFirst (h : ∀ key, f key = none) :
    MapStep f .removeFirstEntryAndReturnItsData (.first none) f
  | getDataByKey (key : K) : MapStep f (.getDataByKey key) (.found (f key)) f
  | isEmpty {empty : Bool} (h : empty = true ↔ ∀ key, f key = none) :
    MapStep f .isEmpty (.empty empty) f

/-- The calls of a run, from the first on. -/
inductive MapRuns [DecidableEq K] :
    (K → Option D) → List (DataMapCall Addr K D) → List (DataMapResult K D) → (K → Option D) → Prop
  | nil {f : K → Option D} : MapRuns f [] [] f
  | cons {f f' f'' : K → Option D} {c : DataMapCall Addr K D} {calls : List (DataMapCall Addr K D)}
    {result : DataMapResult K D} {results : List (DataMapResult K D)} (h : MapStep f c result f')
    (hrest : MapRuns f' calls results f'') : MapRuns f (c :: calls) (result :: results) f''

namespace DataMap

variable [DecidableEq K]

def call (m : DataMap K D) : DataMapCall Addr K D → DataMap K D × DataMapResult K D
  | .addDataByKey key data memory =>
    ((m.addDataByKey key data memory.isSome).1, .added (m.addDataByKey key data memory.isSome).2)
  | .removeKey key => (m.removeKey key, .removed)
  | .removeFirstEntryAndReturnItsData =>
    (m.removeFirstEntryAndReturnItsData.1, .first m.removeFirstEntryAndReturnItsData.2)
  | .getDataByKey key => (m, .found (m.getDataByKey key))
  | .isEmpty => (m, .empty m.isEmpty)

/-- The contents of a `DataMap` are a finite map. -/
theorem mapStep_call (m : DataMap K D) (c : DataMapCall Addr K D) :
    MapStep m.getDataByKey c (m.call c).2 (m.call c).1.getDataByKey := by
  cases c with
  | addDataByKey key data memory =>
    cases memory with
    | none => exact .noMemory key data
    | some entry =>
      have hadd : (m.addDataByKey key data true).1.getDataByKey =
          Function.update m.getDataByKey key (some data) := by
        funext k
        rw [getDataByKey_addDataByKey, Function.update_apply]
      show MapStep _ _ (.added (m.addDataByKey key data true).2)
        (m.addDataByKey key data true).1.getDataByKey
      rw [hadd, addDataByKey_result]
      exact .addDataByKey key data entry
  | removeKey key =>
    have hremove : (m.removeKey key).getDataByKey = Function.update m.getDataByKey key none := by
      funext k
      rw [getDataByKey_removeKey, Function.update_apply]
    show MapStep _ _ .removed (m.removeKey key).getDataByKey
    rw [hremove]
    exact .removeKey key
  -- which entry is first is not said; it is one that the map has
  | removeFirstEntryAndReturnItsData =>
    have hfirst := m.getDataByKey_removeFirst
    obtain ⟨es, hnodup⟩ := m
    cases es with
    | nil => exact .nothingFirst fun key => rfl
    | cons e es =>
      have hremove : (removeFirstEntryAndReturnItsData ⟨e :: es, hnodup⟩).1.getDataByKey =
          Function.update (getDataByKey ⟨e :: es, hnodup⟩) e.1 none := by
        funext k
        rw [hfirst k, Function.update_apply]
        simp [removeFirstEntryAndReturnItsData, eq_comm]
      show MapStep _ _ (.first (some e))
        (removeFirstEntryAndReturnItsData ⟨e :: es, hnodup⟩).1.getDataByKey
      rw [hremove]
      exact .removeFirst (if_pos rfl)
  | getDataByKey key => exact .getDataByKey key
  | isEmpty => exact .isEmpty m.isEmpty_iff

variable {key : K} {d : D} {es es' : List (K × D)}

/-- To replace the data of a key leaves the entries of other keys in front of it. -/
theorem replace_append (h : ∀ e ∈ es, e.1 ≠ key) (data : D) :
    replace key data (es ++ (key, d) :: es') = es ++ (key, data) :: es' := by
  induction es with
  | nil => exact if_pos rfl
  | cons e es ih =>
    obtain ⟨hne, hrest⟩ := List.forall_mem_cons.mp h
    rw [List.cons_append, replace, if_neg hne, ih hrest, List.cons_append]

/-- To erase a key leaves the entries of other keys in front of it. -/
theorem erase_append (h : ∀ e ∈ es, e.1 ≠ key) :
    erase key (es ++ (key, d) :: es') = es ++ es' := by
  induction es with
  | nil => exact if_pos rfl
  | cons e es ih =>
    obtain ⟨hne, hrest⟩ := List.forall_mem_cons.mp h
    rw [List.cons_append, erase, if_neg hne, ih hrest, List.cons_append]

/-- Where there is no entry of the key nothing is erased. -/
theorem erase_of_absent (h : ∀ e ∈ es, e.1 ≠ key) : erase key es = es := by
  induction es with
  | nil => rfl
  | cons e es ih =>
    obtain ⟨hne, hrest⟩ := List.forall_mem_cons.mp h
    rw [erase, if_neg hne, ih hrest]

/-- A search passes the entries of other keys. -/
theorem find_append (h : ∀ e ∈ es, e.1 ≠ key) :
    findEntryByKey key (es ++ (key, d) :: es') = some d := by
  induction es with
  | nil => exact if_pos rfl
  | cons e es ih =>
    obtain ⟨hne, hrest⟩ := List.forall_mem_cons.mp h
    rw [List.cons_append, findEntryByKey, if_neg hne, ih hrest]

/-- A new key goes to the front. -/
theorem entries_add_absent {m : DataMap K D} (h : findEntryByKey key m.entries = none)
    (data : D) :
    (m.addDataByKey key data true).1.entries = (key, data) :: m.entries := by
  unfold addDataByKey
  rw [if_pos rfl, dif_pos h]

/-- The data of a key that is there is replaced where it is. -/
theorem entries_add_present {m : DataMap K D} (h : findEntryByKey key m.entries ≠ none)
    (data : D) :
    (m.addDataByKey key data true).1.entries = replace key data m.entries := by
  unfold addDataByKey
  rw [if_pos rfl, dif_neg h]

end DataMap

namespace EntryMemory

-- ---------------------------------------------------------------------------
-- The list in memory
-- ---------------------------------------------------------------------------

/-- The entries `l` are in the list of `head`, and are what is allocated. -/
structure Stored (head : Addr) (s : EntryMemory Addr K D) (l : List Addr) : Prop where
  ring : Circular s.flink s.blink head l
  head_notMem : head ∉ l
  owns : s.entries.Owns l

def entryAt (s : EntryMemory Addr K D) (a : Addr) : K × D := (s.key a, s.data a)

variable {head null a entry : Addr} {s : EntryMemory Addr K D} {l r : List Addr} {key : K}
  {data : D}

/-- Each entry is in the list once, and the head is none of them. -/
theorem Stored.nodup (h : Stored head s l) : (head :: l).Nodup :=
  List.nodup_cons.mpr ⟨h.head_notMem, h.owns.nodup⟩

section Lists

variable [DecidableEq Addr]

/-- The head points to itself just if there is no entry. -/
theorem Stored.isListEmpty_iff (h : Stored head s l) : s.isListEmpty head = true ↔ l = [] := by
  unfold isListEmpty
  rw [decide_eq_true_iff]
  cases l with
  | nil => exact iff_of_true (span_nil.mp h.ring).1 rfl
  | cons b l =>
    refine iff_of_false (fun heq => h.head_notMem ?_) (List.cons_ne_nil b l)
    rw [(span_cons.mp h.ring).1.1] at heq
    exact heq ▸ List.mem_cons_self

/-- An entry is taken out of the list and freed. -/
theorem Stored.remove (h : Stored head s (l ++ a :: r)) :
    ∃ s', (s.removeEntryList a).ioFree a = some s' ∧ Stored head s' (l ++ r) ∧
      s'.entryAt = s.entryAt := by
  obtain ⟨entries, hfree, howns⟩ := h.owns.free
  refine ⟨{ s.removeEntryList a with entries }, ?_, ⟨h.ring.remove h.nodup, ?_, howns⟩, rfl⟩
  · exact (congrArg (Option.map _) hfree).trans rfl
  · intro hmem
    refine h.head_notMem (List.mem_append.mpr ?_)
    exact (List.mem_append.mp hmem).imp_right (List.mem_cons_of_mem a)

/-- The first entry is the one that is removed and freed. -/
theorem Stored.removeFirst (h : Stored head s l) :
    ∃ s', s.removeFirstEntryAndReturnItsData head = some (s', (l.map s.entryAt).head?) ∧
      Stored head s' l.tail ∧ s'.entryAt = s.entryAt := by
  unfold removeFirstEntryAndReturnItsData
  cases l with
  | nil => exact ⟨s, if_pos (h.isListEmpty_iff.mpr rfl), h, rfl⟩
  | cons a l =>
    have hflink : s.flink head = a := (span_cons.mp h.ring).1.1
    obtain ⟨s', hrun, hstored, hentries⟩ := Stored.remove (l := []) h
    refine ⟨s', (if_neg (mt h.isListEmpty_iff.mp (List.cons_ne_nil a l))).trans ?_, hstored,
      hentries⟩
    dsimp only
    rw [hflink, hrun]
    rfl

/-- One entry gets other data. -/
theorem map_entryAt_setData (hnodup : (l ++ a :: r).Nodup) (data : D) :
    (l ++ a :: r).map (s.setData a data).entryAt =
      l.map s.entryAt ++ (s.key a, data) :: r.map s.entryAt := by
  rw [List.nodup_middle, List.nodup_cons, List.mem_append, not_or] at hnodup
  obtain ⟨⟨hal, har⟩, -⟩ := hnodup
  have hself : (s.setData a data).entryAt a = (s.key a, data) :=
    congrArg (Prod.mk (s.key a)) (Function.update_self ..)
  have hother : ∀ b, b ≠ a → (s.setData a data).entryAt b = s.entryAt b :=
    fun b hb => congrArg (Prod.mk (s.key b)) (Function.update_of_ne hb _ _)
  rw [List.map_append, List.map_cons, hself]
  rw [List.map_congr_left fun b hb => hother b (ne_of_mem_of_not_mem hb hal)]
  rw [List.map_congr_left fun b hb => hother b (ne_of_mem_of_not_mem hb har)]

/-- A new entry is in no list. -/
theorem Stored.new (h : Stored head s l) (hfresh : entry ≠ head ∧ entry ∉ s.entries.live)
    (null : Addr) (key : K) (data : D) :
    Circular (s.newEntry null entry key data).flink (s.newEntry null entry key data).blink head l ∧
      (s.newEntry null entry key data).entries.Owns (entry :: l) ∧
      entry ∉ head :: l ∧ l.map (s.newEntry null entry key data).entryAt = l.map s.entryAt := by
  have hentry : entry ∉ l := fun hl => hfresh.2 (h.owns.live.mem_iff.mpr hl)
  have hne : ∀ b ∈ head :: l, b ≠ entry := by
    intro b hb
    rcases List.mem_cons.mp hb with rfl | hb
    · exact hfresh.1.symm
    · exact ne_of_mem_of_not_mem hb hentry
  refine ⟨(span_congr (fun b hb => ?_) fun b hb => ?_).mpr h.ring, h.owns.alloc hentry, ?_, ?_⟩
  · exact Function.update_of_ne (hne b hb) _ _
  · refine Function.update_of_ne (hne b ?_) _ _
    rcases List.mem_append.mp hb with hb | hb
    · exact List.mem_cons_of_mem _ hb
    · exact List.mem_singleton.mp hb ▸ List.mem_cons_self
  · exact fun hmem => hne entry hmem rfl
  · refine List.map_congr_left fun b hb => ?_
    have hb := hne b (List.mem_cons_of_mem _ hb)
    show (Function.update s.key entry key b, Function.update s.data entry data b) = _
    rw [Function.update_of_ne hb, Function.update_of_ne hb]
    rfl

end Lists

-- ---------------------------------------------------------------------------
-- The search
-- ---------------------------------------------------------------------------

section Contents

variable [DecidableEq K]

/-- Where an entry is that was found. -/
theorem find_eq_some (h : (l.find? fun e => s.key e = key) = some a) :
    s.key a = key ∧ ∃ l₁ l₂, l = l₁ ++ a :: l₂ ∧ ∀ e ∈ l₁.map s.entryAt, e.1 ≠ key := by
  obtain ⟨hkey, l₁, l₂, rfl, hbefore⟩ := List.find?_eq_some_iff_append.mp h
  refine ⟨by simpa using hkey, l₁, l₂, rfl, fun e he => ?_⟩
  obtain ⟨b, hb, rfl⟩ := List.mem_map.mp he
  simpa [entryAt] using hbefore b hb

/-- Where the search finds nothing no entry has the key. -/
theorem find_eq_none (h : (l.find? fun e => s.key e = key) = none) :
    ∀ e ∈ l.map s.entryAt, e.1 ≠ key := by
  intro e he
  obtain ⟨b, hb, rfl⟩ := List.mem_map.mp he
  simpa [entryAt] using List.find?_eq_none.mp h b hb

/-- What the entries of a list say of a key. -/
def content (s : EntryMemory Addr K D) (l : List Addr) (key : K) : Option D :=
  (l.find? fun e => s.key e = key).map s.data

/-- The contents of the list are what the map would have of its entries. -/
theorem content_eq : DataMap.findEntryByKey key (l.map s.entryAt) = s.content l key := by
  unfold content
  cases hfind : l.find? fun e => s.key e = key with
  | none =>
    rw [DataMap.find_eq_none_iff.mpr]
    · rfl
    · intro hmem
      obtain ⟨e, he, hkey⟩ := List.mem_map.mp hmem
      exact find_eq_none hfind e he hkey
  | some a =>
    obtain ⟨rfl, l₁, l₂, rfl, hbefore⟩ := find_eq_some hfind
    rw [List.map_append, List.map_cons]
    exact DataMap.find_append hbefore

end Contents

section Search

variable [DecidableEq Addr] [DecidableEq K]

/-- The loop finds the first entry of the key, or comes back to the head. -/
theorem findFrom_eq {bound : Nat} (h : Span s.flink s.blink a l head) (hhead : head ∉ l)
    (hbound : l.length < bound) :
    s.findFrom head key bound (s.flink a) = some (l.find? fun e => s.key e = key) := by
  induction l generalizing a bound with
  | nil =>
    obtain ⟨bound, rfl⟩ := Nat.exists_eq_add_one_of_ne_zero (Nat.ne_zero_of_lt hbound)
    rw [(span_nil.mp h).1, findFrom, if_neg (not_not.mpr rfl)]
    rfl
  | cons e l ih =>
    obtain ⟨bound, rfl⟩ := Nat.exists_eq_add_one_of_ne_zero (Nat.ne_zero_of_lt hbound)
    obtain ⟨⟨hflink, -⟩, hrest⟩ := span_cons.mp h
    have he : e ≠ head := fun heq => hhead (heq ▸ List.mem_cons_self)
    rw [hflink, findFrom, if_pos he]
    by_cases hkey : s.key e = key
    · rw [if_pos hkey, List.find?_cons_of_pos (by simpa using hkey)]
    · rw [if_neg hkey, List.find?_cons_of_neg (by simpa using hkey)]
      exact ih hrest (fun hl => hhead (List.mem_cons_of_mem _ hl))
        (Nat.lt_of_succ_lt_succ hbound)

/-- With as many steps as there are entries the loop comes to its end. -/
theorem findEntryByKey_eq (h : Circular s.flink s.blink head l) (hhead : head ∉ l)
    (hlive : l.length ≤ s.entries.live.length) :
    s.findEntryByKey head key = some (l.find? fun e => s.key e = key) :=
  findFrom_eq h hhead (Nat.lt_succ_of_le hlive)

/-- The search in a stored list finds the first entry of the key. -/
theorem Stored.findEntryByKey_eq (h : Stored head s l) :
    s.findEntryByKey head key = some (l.find? fun e => s.key e = key) :=
  EntryMemory.findEntryByKey_eq h.ring h.head_notMem h.owns.live.length_eq.ge

/-- What an operation on a stored list does to it. -/
theorem Stored.removeKey (h : Stored head s l) (key : K) :
    ∃ s' l', s.removeKey head key = some s' ∧ Stored head s' l' ∧
      l'.map s'.entryAt = DataMap.erase key (l.map s.entryAt) := by
  unfold EntryMemory.removeKey
  rw [h.findEntryByKey_eq]
  cases hfind : l.find? fun e => s.key e = key with
  | none => exact ⟨s, l, rfl, h, (DataMap.erase_of_absent (find_eq_none hfind)).symm⟩
  | some a =>
    obtain ⟨rfl, l₁, l₂, rfl, hbefore⟩ := find_eq_some hfind
    obtain ⟨s', hrun, hstored, hentries⟩ := h.remove
    refine ⟨s', l₁ ++ l₂, hrun, hstored, ?_⟩
    rw [hentries, List.map_append, List.map_append, List.map_cons]
    exact (DataMap.erase_append hbefore).symm

/-- The entry that was allocated is linked or freed. -/
theorem Stored.addDataByKey (h : Stored head s l)
    (hfresh : entry ≠ head ∧ entry ∉ s.entries.live) (null : Addr) (key : K) (data : D) :
    ∃ s' l', s.addDataByKey null head key data (some entry) = some (s', true) ∧
      Stored head s' l' ∧
      l'.map s'.entryAt =
        if s.content l key = none then (key, data) :: l.map s.entryAt
        else DataMap.replace key data (l.map s.entryAt) := by
  obtain ⟨hring, howns, hentry, hentries⟩ := h.new hfresh null key data
  unfold EntryMemory.addDataByKey
  generalize hnew : s.newEntry null entry key data = s₁ at hring howns hentries
  -- the new entry is filled before the search
  have hkey : s₁.entryAt entry = (key, data) := by
    subst hnew
    show (Function.update s.key entry key entry, Function.update s.data entry data entry) = _
    rw [Function.update_self, Function.update_self]
  have hlive : l.length ≤ s₁.entries.live.length := by
    rw [howns.live.length_eq, List.length_cons]
    omega
  have hsearch : s₁.findEntryByKey head key = some (l.find? fun e => s₁.key e = key) :=
    EntryMemory.findEntryByKey_eq hring h.head_notMem hlive
  have hcontent : s.content l key = s₁.content l key := by
    rw [← content_eq, ← content_eq, hentries]
  dsimp only
  rw [hnew, hsearch, hcontent, ← hentries]
  unfold content
  cases hfind : l.find? fun e => s₁.key e = key with
  -- absent: the new entry goes to the head of the list
  | none =>
    refine ⟨s₁.insertHeadList head entry, entry :: l, rfl, ⟨?_, ?_, howns⟩, ?_⟩
    · exact hring.insert h.nodup hentry
    · exact fun hmem => (List.mem_cons.mp hmem).elim hfresh.1.symm h.head_notMem
    · show s₁.entryAt entry :: l.map s₁.entryAt = _
      rw [hkey]
      rfl
  -- present: the data is replaced and the new entry freed
  | some a =>
    obtain ⟨rfl, l₁, l₂, rfl, hbefore⟩ := find_eq_some hfind
    obtain ⟨entries, hfree, hownsFreed⟩ := Allocations.Owns.free (l := []) howns
    refine ⟨{ s₁.setData a data with entries }, l₁ ++ a :: l₂, ?_,
      ⟨hring, h.head_notMem, hownsFreed⟩, ?_⟩
    · show ((s₁.setData a data).ioFree entry).bind _ = _
      unfold ioFree
      rw [show (s₁.setData a data).entries.free entry = some entries from hfree]
      rfl
    · rw [if_neg (by simp)]
      refine (map_entryAt_setData (s := s₁) h.owns.nodup data).trans ?_
      rw [List.map_append, List.map_cons]
      exact (DataMap.replace_append hbefore data).symm

end Search

-- ---------------------------------------------------------------------------
-- The map
-- ---------------------------------------------------------------------------

/-- A stored list is the map `m`. -/
structure Holds (head : Addr) (s : EntryMemory Addr K D) (l : List Addr) (m : DataMap K D) :
    Prop where
  stored : Stored head s l
  entries : l.map s.entryAt = m.entries

/-- A list in good order: from the head each entry is visited once and the head comes
again, the other direction is the inverse, no key is there twice, and each allocation so
far is one of the entries or was freed once. -/
structure WellFormed (head : Addr) (s : EntryMemory Addr K D) (l : List Addr) : Prop where
  nodup : (head :: l).Nodup
  visits : List.iterate s.flink (s.flink head) l.length = l
  returns : s.flink^[l.length + 1] head = head
  inverse : ∀ a ∈ head :: l, s.blink (s.flink a) = a ∧ s.flink (s.blink a) = a
  keys : (l.map s.key).Nodup
  once : ∀ i < s.entries.made, (s.entries.freed i = 0 ∧ ∃ a ∈ l, s.entries.serial a = i) ∨
    (s.entries.freed i = 1 ∧ ∀ a ∈ l, s.entries.serial a ≠ i)

/-- A stored map is a list in good order. -/
theorem Holds.wellFormed {m : DataMap K D} (h : Holds head s l m) : WellFormed head s l where
  nodup := h.stored.nodup
  visits := h.stored.ring.iterate_eq
  returns := h.stored.ring.returns
  inverse := fun _ ha => h.stored.ring.inverse ha
  keys := by
    have hkeys := m.nodupKeys
    rw [← h.entries, List.map_map] at hkeys
    exact hkeys
  once := fun _ hi => h.stored.owns.once hi

/-- The new list is the empty map. -/
theorem holds_dataMap [DecidableEq Addr] (head : Addr) (memory : EntryMemory Addr K D) :
    Holds head (memory.dataMap head) [] DataMap.empty :=
  ⟨⟨circular_self, List.not_mem_nil, Allocations.owns_start _⟩, rfl⟩

section Refinement

variable [DecidableEq K] {m : DataMap K D}

/-- What the list says of a key is what the map says. -/
theorem Holds.content_eq (h : Holds head s l m) : s.content l = m.getDataByKey := by
  funext key
  rw [← EntryMemory.content_eq, h.entries]
  rfl

variable [DecidableEq Addr]

/-- **The list refines the map**: a call returns what it returns of the map, and leaves a
list that is what is left of the map. -/
theorem Holds.call (h : Holds head s l m) {c : DataMapCall Addr K D} (hfresh : s.Fresh head c)
    (null : Addr) :
    ∃ s' l', s.call null head c = some (s', (m.call c).2) ∧ Holds head s' l' (m.call c).1 := by
  obtain ⟨hstored, hentries⟩ := h
  cases c with
  | addDataByKey key data memory =>
    cases memory with
    | none => exact ⟨s, l, rfl, hstored, hentries⟩
    -- a key that is there gets the new data in place, and the new entry is freed
    | some entry =>
      obtain ⟨s', l', hrun, hstored', hentries'⟩ := hstored.addDataByKey hfresh null key data
      refine ⟨s', l', ?_, hstored', ?_⟩
      · show (s.addDataByKey null head key data (some entry)).map _ =
          some (s', DataMapResult.added (m.addDataByKey key data true).2)
        rw [hrun, DataMap.addDataByKey_result]
        rfl
      · show _ = (m.addDataByKey key data true).1.entries
        rw [hentries', hentries, ← EntryMemory.content_eq, hentries]
        split
        · exact (DataMap.entries_add_absent ‹_› data).symm
        · exact (DataMap.entries_add_present ‹_› data).symm
  | removeKey key =>
    obtain ⟨s', l', hrun, hstored', hentries'⟩ := hstored.removeKey key
    refine ⟨s', l', congrArg (Option.map _) hrun, hstored', ?_⟩
    rw [hentries', hentries]
    rfl
  | removeFirstEntryAndReturnItsData =>
    obtain ⟨s', hrun, hstored', hentries'⟩ := hstored.removeFirst
    refine ⟨s', l.tail, ?_, hstored', ?_⟩
    · rw [hentries] at hrun
      exact congrArg (Option.map _) hrun
    · rw [hentries', List.map_tail, hentries]
      rfl
  | getDataByKey key =>
    refine ⟨s, l, ?_, hstored, hentries⟩
    -- the search through the ring finds what the map has
    have hget : s.getDataByKey head key = some (m.getDataByKey key) := by
      rw [← Holds.content_eq ⟨hstored, hentries⟩]
      unfold EntryMemory.getDataByKey content
      rw [hstored.findEntryByKey_eq]
      cases l.find? fun e => s.key e = key <;> rfl
    exact congrArg (Option.map _) hget
  | isEmpty =>
    have hempty : s.isListEmpty head = m.isEmpty := by
      rw [Bool.eq_iff_iff, hstored.isListEmpty_iff]
      unfold DataMap.isEmpty
      rw [← hentries, List.isEmpty_iff, List.map_eq_nil_iff]
    refine ⟨s, l, ?_, hstored, hentries⟩
    show some (s, DataMapResult.empty (s.isListEmpty head)) = _
    rw [hempty]
    rfl

/-- A run of the list is a run of the map. -/
theorem Holds.run (h : Holds head s l m) {calls : List (DataMapCall Addr K D)}
    (hfresh : FreshRun null head s calls) :
    ∃ s' results l' m', run null head s calls = some (s', results) ∧ Holds head s' l' m' ∧
      MapRuns m.getDataByKey calls results m'.getDataByKey := by
  induction calls generalizing s l m with
  | nil => exact ⟨s, [], l, m, rfl, h, .nil⟩
  | cons c calls ih =>
    obtain ⟨hc, hrest⟩ := hfresh
    obtain ⟨s₁, l₁, hcall, hholds⟩ := h.call hc null
    obtain ⟨s', results, l', m', hrun, hholds', hruns⟩ := ih hholds (hrest _ hcall)
    refine ⟨s', (m.call c).2 :: results, l', m', ?_, hholds', .cons (m.mapStep_call c) hruns⟩
    rw [EntryMemory.run, hcall, Option.bind_some, hrun]
    rfl

/-- **A DataMap is a finite map**: every sequence of calls returns, with the list in good
order and what a finite map returns. Where there is no memory, nothing is changed. -/
theorem run_dataMap (null head : Addr) (memory : EntryMemory Addr K D)
    (calls : List (DataMapCall Addr K D))
    (hfresh : FreshRun null head (memory.dataMap head) calls) :
    ∃ s results l, run null head (memory.dataMap head) calls = some (s, results) ∧
      WellFormed head s l ∧ MapRuns (fun _ => none) calls results (s.content l) ∧
      ∀ key data, s.addDataByKey null head key data none = some (s, false) := by
  obtain ⟨s, results, l, m, hrun, hholds, hruns⟩ := (holds_dataMap head memory).run hfresh
  refine ⟨s, results, l, hrun, hholds.wellFormed, ?_, fun _ _ => rfl⟩
  rw [hholds.content_eq]
  exact hruns

end Refinement

namespace Reused

def memory : EntryMemory Nat Nat Nat :=
  ⟨fun _ => 0, fun _ => 0, fun _ => 0, fun _ => 0, Allocations.start fun _ => 0⟩

/-- The entry at 4 is not needed, and the one at 3 is allocated twice. -/
def calls : List (DataMapCall Nat Nat Nat) :=
  [.addDataByKey 10 100 (some 2), .addDataByKey 11 110 (some 3), .addDataByKey 10 101 (some 4),
    .addDataByKey 12 120 none, .removeKey 11, .addDataByKey 11 111 (some 3), .getDataByKey 10,
    .removeFirstEntryAndReturnItsData, .isEmpty]

example : (run 0 1 (memory.dataMap 1) calls).map Prod.snd =
    some [.added true, .added true, .added true, .added false, .removed, .added true,
      .found (some 101), .first (some (11, 111)), .empty false] := by
  decide +kernel

end Reused

open Reused in
/-- A run in which entries are replaced, removed and allocated again. -/
theorem run_dataMap_reused : ∃ s results l,
    run 0 1 (memory.dataMap 1) calls = some (s, results) ∧ WellFormed 1 s l ∧
      MapRuns (fun _ => none) calls results (s.content l) ∧
      ∀ key data, s.addDataByKey 0 1 key data none = some (s, false) :=
  run_dataMap 0 1 memory calls (by decide +kernel)

end EntryMemory

end VfsRedirector
