import VfsRedirector.HashTable.Map

/-!
# The end of the hooks table

`QvrVnodeHooksHashTable::free` goes through what is still in the table, and then
`ght_finalize` frees the hash entries by the buckets. What the first loop gets from
`ght_first` and `ght_next` is the data of an entry, a `QvrVnodeHookEntry`; it takes
it for the `ght_hash_entry_t`, reads the fields of one there, releases what it has
read, and frees the object.

The model has what is done with pointers, in the order in which it is done. What the
release of an arbitrary pointer does to the memory is left out; that it is arbitrary
is what the law of a cleanup excludes.

## Results

* `free_frees_once`: each hash entry is freed once, with the size of its allocation,
  by `ght_finalize`.
* `free_cleanedUp_iff`: the law holds only where there is nothing to clean up.
-/

namespace VfsRedirector

open Library

/-- The types of the objects. -/
inductive ObjectType where
  | ght_hash_entry_t
  | QvrVnodeHookEntry
  deriving DecidableEq

/-- What a pointer points to. -/
inductive Pointee (Addr Entry : Type) where
  | hashEntry (a : Addr)
  | hookEntry (entry : Entry)
  | unknown
  deriving DecidableEq

/-- The type of the object, as it was allocated. -/
def Pointee.type {Addr Entry : Type} : Pointee Addr Entry → Option ObjectType
  | hashEntry _ => some .ght_hash_entry_t
  | hookEntry _ => some .QvrVnodeHookEntry
  | unknown => none

/-- What is done: `read` is of fields, through a pointer of the type `as`. -/
inductive CleanupAct (Addr Entry : Type) where
  | read (p : Pointee Addr Entry) (as : ObjectType)
  | release (p : Pointee Addr Entry)
  | free (p : Pointee Addr Entry) (size : Nat)
  deriving DecidableEq

/-- What stands in a `QvrVnodeHookEntry` where a `ght_hash_entry_t` has a field. These
are saved vnode operations, so that nothing is known about them. -/
structure Misread (Addr Entry : Type) where
  p_data : Entry → Pointee Addr Entry
  size : Entry → Nat

variable {Addr Entry : Type}

/-- The reads of `ght_first` and `ght_next`. -/
def iterateReads (p_entry : Option Addr) : List (CleanupAct Addr Entry) :=
  match p_entry with
  | some a => [.read (.hashEntry a) .ght_hash_entry_t]
  | none => []

/-- The body of the loop of `free`. -/
def releaseActs (misread : Misread Addr Entry) (p_e : Entry) : List (CleanupAct Addr Entry) :=
  [.read (.hookEntry p_e) .ght_hash_entry_t, .release (misread.p_data p_e),
    .read (.hookEntry p_e) .ght_hash_entry_t, .free (.hookEntry p_e) (misread.size p_e)]

/-- The loop of `free`. -/
def releaseFrom (misread : Misread Addr Entry) (m : EntryHeap Addr Entry) :
    Nat → GhtIterator Addr → Option Entry → Option (List (CleanupAct Addr Entry))
  | _, _, none => some []
  | 0, _, some _ => none
  | bound + 1, iterator, some p_e => do
    let (next, p) := Ght.ghtNext m iterator
    let rest ← releaseFrom misread m bound next p
    return releaseActs misread p_e ++ iterateReads iterator.p_next ++ rest

/-- `free_entry_chain`; `p_next` is read first, and `size` to free the entry. -/
def finalizeChain (m : EntryHeap Addr Entry) :
    Nat → Option Addr → Option (List (CleanupAct Addr Entry))
  | _, none => some []
  | 0, some _ => none
  | bound + 1, some p_e => do
    let rest ← finalizeChain m bound (m.p_next p_e)
    return .read (.hashEntry p_e) .ght_hash_entry_t :: .free (.hashEntry p_e) (m.size p_e) :: rest

/-- `ght_finalize`, as far as it is about the entries. -/
def Ght.ghtFinalize (s : Ght Addr Entry) : Option (List (CleanupAct Addr Entry)) :=
  ((List.range s.table.i_size.toNat).mapM fun i =>
    finalizeChain s.heap s.heap.live.length (s.table.pp_entries (UInt32.ofNat i))).map
      List.flatten

/-- `QvrVnodeHooksHashTable::free` -/
def HooksTable.free (misread : Misread Addr Entry) (s : HooksTable Addr Entry) :
    Option (List (CleanupAct Addr Entry)) := do
  let (iterator, p_e) := s.hashTable.ghtFirst
  let released ← releaseFrom misread s.hashTable.heap s.hashTable.heap.live.length iterator p_e
  let finalized ← s.hashTable.ghtFinalize
  return iterateReads s.hashTable.table.p_oldest ++ released ++ finalized

/-- The frees of a hash entry: the sizes. -/
def freesOf [DecidableEq Addr] (a : Addr) (log : List (CleanupAct Addr Entry)) : List Nat :=
  log.filterMap fun
    | .free (.hashEntry b) size => if b = a then some size else none
    | _ => none

/-- The law of a cleanup of the entries `ages`. -/
structure CleanedUp [DecidableEq Addr] [DecidableEq Entry] (m : EntryHeap Addr Entry)
    (ages : List Addr) (log : List (CleanupAct Addr Entry)) : Prop where
  released : ∀ entry, log.count (.release (.hookEntry entry)) =
    ages.countP fun a => m.p_data a = some entry
  freed : ∀ a ∈ ages, freesOf a log = [sizeofEntry + (m.key a).length]
  typed : ∀ p as, .read p as ∈ log → p.type = some as

-- ---------------------------------------------------------------------------
-- ght_finalize
-- ---------------------------------------------------------------------------

/-- What is done with a hash entry. -/
def finalizeActs (m : EntryHeap Addr Entry) (a : Addr) : List (CleanupAct Addr Entry) :=
  [.read (.hashEntry a) .ght_hash_entry_t, .free (.hashEntry a) (m.size a)]

/-- `ght_finalize` frees a chain entry by entry. -/
theorem finalizeChain_eq {m : EntryHeap Addr Entry} {p : Option Addr} {c : List Addr}
    {bound : Nat} (hseg : Seg m.p_next m.p_prev p c none) (hbound : c.length ≤ bound) :
    finalizeChain m bound c.head? = some (c.flatMap (finalizeActs m)) := by
  induction c generalizing p bound with
  | nil => cases bound <;> rfl
  | cons a c ih =>
    obtain ⟨-, hnext, hrest⟩ := hseg
    rw [Option.or_none] at hnext
    cases bound with
    | zero => cases hbound
    | succ bound =>
      rw [List.head?_cons, finalizeChain, hnext, ih hrest (Nat.le_of_succ_le_succ hbound)]
      rfl

section Listed

variable {s : HooksTable Addr Entry} {ages : List Addr} {chains : UInt32 → List Addr}

/-- `ght_finalize` frees the table bucket by bucket. -/
theorem ghtFinalize_eq (h : s.hashTable.Listed ages chains) :
    s.hashTable.ghtFinalize = some ((List.range s.hashTable.table.i_size.toNat).flatMap fun i =>
      (chains (UInt32.ofNat i)).flatMap (finalizeActs s.hashTable.heap)) := by
  have hchain : ∀ i, finalizeChain s.hashTable.heap s.hashTable.heap.live.length
      (s.hashTable.table.pp_entries (UInt32.ofNat i)) =
        some ((chains (UInt32.ofNat i)).flatMap (finalizeActs s.hashTable.heap)) := fun i => by
    rw [h.first]
    exact finalizeChain_eq (h.chained _) (h.length_chain_le _)
  rw [Ght.ghtFinalize, funext hchain, List.flatMap_def]
  exact congrArg (Option.map List.flatten) List.mapM_pure

variable [DecidableEq Addr] {a : Addr}

/-- One of the elements gives something. -/
theorem flatMap_ite_eq {α β : Type} [DecidableEq α] {l : List α} (hnodup : l.Nodup) (j : α)
    (x : β) : (l.flatMap fun i => if i = j then [x] else []) = if j ∈ l then [x] else [] := by
  induction l with
  | nil => rfl
  | cons i l ih =>
    obtain ⟨hi, hl⟩ := List.nodup_cons.mp hnodup
    rw [List.flatMap_cons, ih hl]
    rcases eq_or_ne i j with rfl | hne
    · rw [if_pos rfl, if_neg hi, if_pos List.mem_cons_self]
      rfl
    · rw [if_neg hne, List.nil_append]
      simp only [List.mem_cons, hne.symm, false_or]

/-- The frees of two lists of acts are added. -/
theorem freesOf_append (l r : List (CleanupAct Addr Entry)) :
    freesOf a (l ++ r) = freesOf a l ++ freesOf a r := List.filterMap_append

/-- A chain is freed with one `free` for an entry. -/
theorem freesOf_chain {m : EntryHeap Addr Entry} {c : List Addr} (hnodup : c.Nodup) :
    freesOf a (c.flatMap (finalizeActs m)) = if a ∈ c then [m.size a] else [] := by
  rw [← flatMap_ite_eq hnodup, freesOf, List.filterMap_flatMap]
  refine List.flatMap_congr fun b hb => ?_
  rcases eq_or_ne b a with rfl | hne
  · simp [finalizeActs]
  · simp [finalizeActs, hne]

/-- The buckets have an entry once. -/
theorem freesOf_finalize (h : s.hashTable.Listed ages chains) (ha : a ∈ ages) :
    freesOf a ((List.range s.hashTable.table.i_size.toNat).flatMap fun i =>
      (chains (UInt32.ofNat i)).flatMap (finalizeActs s.hashTable.heap)) =
        [s.hashTable.heap.size a] := by
  have hlt := h.bucket_lt (s.hashTable.heap.key a)
  rw [UInt32.lt_iff_toNat_lt] at hlt
  have hone := flatMap_ite_eq (List.nodup_range (n := s.hashTable.table.i_size.toNat))
    (s.hashTable.table.bucket (s.hashTable.heap.key a)).toNat (s.hashTable.heap.size a)
  rw [if_pos (List.mem_range.mpr hlt)] at hone
  rw [← hone, freesOf, List.filterMap_flatMap]
  refine List.flatMap_congr fun i hi => ?_
  have hi : (UInt32.ofNat i).toNat = i := UInt32.toNat_ofNat_of_lt'
    (Nat.lt_trans (List.mem_range.mp hi) s.hashTable.table.i_size.toNat_lt_size)
  rw [← freesOf, freesOf_chain (h.nodup _)]
  refine if_congr ?_ rfl rfl
  rw [h.bucket, ← UInt32.toNat_inj, hi]
  exact ⟨fun hmem => hmem.2.symm, fun heq => ⟨ha, heq.symm⟩⟩

-- ---------------------------------------------------------------------------
-- The loop
-- ---------------------------------------------------------------------------

/-- The reads of an iteration free nothing. -/
theorem freesOf_iterateReads (p : Option Addr) :
    freesOf a (iterateReads p : List (CleanupAct Addr Entry)) = [] := by
  cases p <;> rfl

/-- The loop frees no hash entry, and reads the first hook entry as one. -/
theorem releaseFrom_spec (misread : Misread Addr Entry) {m : EntryHeap Addr Entry}
    {p : Option Addr} {rest : List Addr} {bound : Nat}
    (hseg : Seg m.p_newer m.p_older p rest none) (hstored : ∀ a ∈ rest, (m.p_data a).isSome)
    (hbound : rest.length ≤ bound) :
    ∃ log, releaseFrom misread m bound (m.iterate rest.head?).1 (m.iterate rest.head?).2 =
        some log ∧
      (∀ a, freesOf a log = []) ∧ (rest = [] → log = []) ∧
      (rest ≠ [] → ∃ entry, .read (.hookEntry entry) .ght_hash_entry_t ∈ log) := by
  -- over what the iteration has still to return
  induction rest generalizing p bound with
  | nil =>
    refine ⟨[], by cases bound <;> rfl, fun _ => rfl, fun _ => rfl, fun h => absurd rfl h⟩
  | cons a rest ih =>
    obtain ⟨-, hnewer, hrest⟩ := hseg
    rw [Option.or_none] at hnewer
    obtain ⟨entry, hentry⟩ := Option.isSome_iff_exists.mp (hstored a List.mem_cons_self)
    cases bound with
    | zero => cases hbound
    | succ bound =>
      obtain ⟨log, hrun, hfrees, -, -⟩ := ih hrest
        (fun b hb => hstored b (List.mem_cons_of_mem a hb)) (Nat.le_of_succ_le_succ hbound)
      refine ⟨releaseActs misread entry ++ iterateReads rest.head? ++ log, ?_, fun b => ?_,
        fun h => absurd h (List.cons_ne_nil a rest), fun _ => ⟨entry, List.mem_cons_self⟩⟩
      · show releaseFrom misread m (bound + 1) ⟨some a, m.p_newer a⟩ (m.p_data a) = _
        rw [hentry, hnewer, releaseFrom]
        simp only [Ght.ghtNext, Option.bind_eq_bind, hrun, Option.bind_some]
        rfl
      · rw [freesOf_append, freesOf_append, freesOf_iterateReads, hfrees]
        rfl

-- ---------------------------------------------------------------------------
-- The law
-- ---------------------------------------------------------------------------

/-- What `free` does, in three parts. -/
theorem free_eq (h : s.hashTable.Listed ages chains) (misread : Misread Addr Entry) :
    ∃ released, s.free misread = some (iterateReads ages.head? ++ released ++
        (List.range s.hashTable.table.i_size.toNat).flatMap fun i =>
          (chains (UInt32.ofNat i)).flatMap (finalizeActs s.hashTable.heap)) ∧
      (∀ a, freesOf a released = []) ∧ (ages = [] → released = []) ∧
      (ages ≠ [] → ∃ entry, .read (.hookEntry entry) .ght_hash_entry_t ∈ released) := by
  obtain ⟨released, hrun, hspec⟩ := releaseFrom_spec misread h.aged h.stored
    (h.ages_nodup.subperm h.live).length_le
  refine ⟨released, ?_, hspec⟩
  rw [HooksTable.free, Ght.ghtFirst, h.oldest, ghtFinalize_eq h]
  simp only [Option.bind_eq_bind, hrun, Option.bind_some]
  rfl

/-- Each hash entry is freed once, with the size of its allocation, in every table. -/
theorem free_frees_once (h : s.hashTable.Listed ages chains) (misread : Misread Addr Entry)
    {log : List (CleanupAct Addr Entry)} (hrun : s.free misread = some log) (ha : a ∈ ages) :
    freesOf a log = [sizeofEntry + (s.hashTable.heap.key a).length] := by
  obtain ⟨released, heq, hfrees, -, -⟩ := free_eq h misread
  obtain rfl := Option.some.inj (heq.symm.trans hrun)
  rw [freesOf_append, freesOf_append, freesOf_iterateReads, hfrees, freesOf_finalize h ha,
    h.sized a ha]
  rfl

variable [DecidableEq Entry]

/-- Where an entry is stored, a hook entry is read as a hash entry. -/
theorem not_cleanedUp (h : s.hashTable.Listed ages chains) (misread : Misread Addr Entry)
    (hages : ages ≠ []) {log : List (CleanupAct Addr Entry)}
    (hrun : s.free misread = some log) : ¬ CleanedUp s.hashTable.heap ages log := by
  obtain ⟨released, heq, -, -, hread⟩ := free_eq h misread
  obtain rfl := Option.some.inj (heq.symm.trans hrun)
  obtain ⟨entry, hread⟩ := hread hages
  intro hclean
  have htype := hclean.typed (.hookEntry entry) .ght_hash_entry_t
    (List.mem_append_left _ (List.mem_append_right _ hread))
  cases htype

/-- Where nothing is stored, nothing is left to do. -/
theorem cleanedUp_of_empty (h : s.hashTable.Listed [] chains) (misread : Misread Addr Entry)
    {log : List (CleanupAct Addr Entry)} (hrun : s.free misread = some log) :
    CleanedUp s.hashTable.heap [] log := by
  obtain ⟨released, heq, -, hreleased, -⟩ := free_eq h misread
  obtain rfl := Option.some.inj (heq.symm.trans hrun)
  have hempty : ∀ b, chains b = [] := fun b =>
    List.eq_nil_iff_forall_not_mem.mpr fun a ha => List.not_mem_nil (h.mem_ages ha)
  have hlog : (iterateReads ([] : List Addr).head? ++ released ++
      (List.range s.hashTable.table.i_size.toNat).flatMap fun i =>
        (chains (UInt32.ofNat i)).flatMap (finalizeActs s.hashTable.heap)) =
          ([] : List (CleanupAct Addr Entry)) := by
    rw [hreleased rfl]
    simp [hempty, iterateReads]
  rw [hlog]
  exact ⟨fun _ => rfl, fun a ha => absurd ha List.not_mem_nil,
    fun p as hread => absurd hread List.not_mem_nil⟩

/-- The cleanup keeps its law exactly where the table is empty. -/
theorem free_cleanedUp_iff (h : s.hashTable.Listed ages chains) (misread : Misread Addr Entry) :
    ∃ log, s.free misread = some log ∧ (CleanedUp s.hashTable.heap ages log ↔ ages = []) := by
  obtain ⟨released, hrun, -⟩ := free_eq h misread
  refine ⟨_, hrun, fun hclean => ?_, fun hages => ?_⟩
  · by_contra hages
    exact not_cleanedUp h misread hages hrun hclean
  · subst hages
    exact cleanedUp_of_empty h misread hrun

end Listed

/-- The hook entry has no saved operation in these places. -/
def notSaved : Misread Nat Nat where
  p_data _ := .unknown
  size _ := 0

/-- A table of 8 buckets with one vector that is still hooked. -/
theorem exists_oneHooked :
    ∃ t s, ghtCreate (fun _ => 0) 8 true = some t ∧
      TableOp.runAll ⟨⟨noEntries, t⟩, fun _ => 0⟩ [.addEntry nextAddress 5 50] =
        some (s, [.added true]) ∧
      ∃ ages chains, s.hashTable.Listed ages chains ∧
        ages.map s.hashTable.heap.view = [(vopKey 5, some 50)] := by
  have hsize : (8 : UInt32) ≤ sizeLimit := by decide
  obtain ⟨t, hcreate, -, hempty⟩ := Ght.ghtCreate_listed (fun _ => 0) hsize noEntries
  have hmap : Ght.Represents ⟨noEntries, t⟩ (∅ : KeyMap Nat) := ⟨[], _, hempty, rfl⟩
  obtain ⟨s, hrun, ages, chains, hlisted, hview⟩ :=
    TableOp.runAll_represents (s := ⟨⟨noEntries, t⟩, fun _ => 0⟩) hmap
      [.addEntry nextAddress 5 50] (List.forall_mem_singleton.mpr nextAddress_succeeds)
  exact ⟨t, s, hcreate, hrun, ages, chains, hlisted, hview⟩

/-- There a hook entry is taken for a hash entry. -/
theorem free_misreads :
    ∃ t s, ghtCreate (fun _ => 0) 8 true = some t ∧
      TableOp.runAll ⟨⟨noEntries, t⟩, fun _ => 0⟩ [.addEntry nextAddress 5 50] =
        some (s, [.added true]) ∧
      ∃ ages chains log, s.hashTable.Listed ages chains ∧ s.free notSaved = some log ∧
        ¬ CleanedUp s.hashTable.heap ages log := by
  obtain ⟨t, s, hcreate, hrun, ages, chains, hlisted, hview⟩ := exists_oneHooked
  obtain ⟨released, hfree, -⟩ := free_eq hlisted notSaved
  have hages : ages ≠ [] := by
    rintro rfl
    cases hview
  exact ⟨t, s, hcreate, hrun, ages, chains, _, hlisted, hfree,
    not_cleanedUp hlisted notSaved hages hfree⟩

/-- The condition for that table, which it does not meet. -/
theorem free_cleanedUp_iff_oneHooked :
    ∃ (s : HooksTable Nat Nat) (ages : List Nat),
      ages.map s.hashTable.heap.view = [(vopKey 5, some 50)] ∧
      ∃ log, s.free notSaved = some log ∧
        (CleanedUp s.hashTable.heap ages log ↔ ages = []) := by
  obtain ⟨-, s, -, -, ages, chains, hlisted, hview⟩ := exists_oneHooked
  exact ⟨s, ages, hview, free_cleanedUp_iff hlisted notSaved⟩

end VfsRedirector
