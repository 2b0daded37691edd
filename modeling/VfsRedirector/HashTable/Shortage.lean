import VfsRedirector.HashTable.Contents

/-!
# The hash table in any memory

The memory for an entry may be missing at any time. An insertion then fails and changes
nothing. But a rehash allocates as well, one entry after the other, and goes on where an
allocation fails: `ght_insert` into the new table returns an error, which is only printed,
and the old entry is freed with the rest. So entries are lost (`Thinned`), without a word to
the caller, also to one whose insertion succeeds. Nothing else is: the table stays one, every
call returns, and no entry is leaked.

## Results

* `TableOp.run_short`: what a step does, whatever memory there is.
* `hashTable_in_any_memory`: the same for every run.
-/

namespace VfsRedirector

open Library

variable {Addr Data : Type}

/-- The allocation of an entry does not fail. -/
def Allocator.Plenty (alloc : Allocator Addr) : Prop := ∀ live, (alloc.entry live).isSome

/-- Some of the keys are missing, but none if nothing was lost. -/
def Thinned (lossless : Prop) (m m' : KeyMap Data) : Prop :=
  m'.entries.Sublist m.entries ∧ (lossless → m' = m)

/-- The contents of a table, and whether its insertions rehash. -/
structure TableState (Data : Type) where
  map : KeyMap Data
  i_automatic_rehash : Bool

/-- An insertion, with what it returns. -/
inductive InsertStep (alloc : Allocator Addr) (p_data : Data) (key : List UInt8) :
    TableState Data → GhtStatusCode → TableState Data → Prop where
  | present {t} : key ∈ t.map → InsertStep alloc p_data key t .GHT_ALREADY_IN_HASH t
  | noMemory {t live} : key ∉ t.map → alloc.entry live = none →
    InsertStep alloc p_data key t .GHT_ERROR t
  | inserted {t m} : key ∉ t.map → Thinned (t.i_automatic_rehash = false ∨ alloc.Plenty) t.map m →
    InsertStep alloc p_data key t .GHT_OK { t with map := m.insert key p_data }

/-- Without automatic rehashing an insertion of a new key adds the key, or does nothing. -/
theorem InsertStep.of_no_rehash {alloc : Allocator Addr} {p_data : Data} {key : List UInt8}
    {t t' : TableState Data} {rc : GhtStatusCode} (h : InsertStep alloc p_data key t rc t')
    (hno : t.i_automatic_rehash = false) (hnew : key ∉ t.map) :
    t'.i_automatic_rehash = false ∧
      t'.map = if rc = .GHT_OK then t.map.insert key p_data else t.map := by
  cases h with
  | present hmem => exact absurd hmem hnew
  | noMemory => exact ⟨hno, rfl⟩
  | inserted _ hthin =>
    rw [hthin.2 (.inl hno)]
    exact ⟨hno, rfl⟩

/-- The steps of a table in whatever memory there is. -/
inductive ShortStep :
    TableState Data → TableOp Addr Data → TableResult Data → TableState Data → Prop where
  | insert {t alloc p_data key rc t'} : InsertStep alloc p_data key t rc t' →
    ShortStep t (.insert alloc p_data key) (.status rc) t'
  | get {t key} : ShortStep t (.get key) (.data (t.map.lookup key)) t
  | replace {t p_data key} : ShortStep t (.replace p_data key) (.data (t.map.lookup key))
      { t with map := t.map.replace key p_data }
  | remove {t key} : ShortStep t (.remove key) (.data (t.map.lookup key))
      { t with map := t.map.erase key }
  | rehash {t alloc i_size m} : Thinned alloc.Plenty t.map m →
    ShortStep t (.rehash alloc i_size) .done { t with map := m }
  | setHeuristics {t i_heuristics} : ShortStep t (.setHeuristics i_heuristics) .done t
  | setRehash {t b_rehash} : ShortStep t (.setRehash b_rehash) .done
      { t with i_automatic_rehash := b_rehash }
  | addEntry {t alloc v_op entry rc t'} : InsertStep alloc entry (vopKey v_op) t rc t' →
    ShortStep t (.addEntry alloc v_op entry) (.added (rc = .GHT_OK)) t'
  | removeEntry {t v_op} : ShortStep t (.removeEntry v_op) (.data (t.map.lookup (vopKey v_op)))
      { t with map := t.map.erase (vopKey v_op) }
  | retrieveEntry {t v_op reference} :
    ShortStep t (.retrieveEntry v_op reference) (.data (t.map.lookup (vopKey v_op))) t

inductive ShortRun :
    TableState Data → List (TableOp Addr Data) → List (TableResult Data) → TableState Data →
      Prop where
  | nil {t} : ShortRun t [] [] t
  | cons {t t' t'' op ops result results} : ShortStep t op result t' →
    ShortRun t' ops results t'' → ShortRun t (op :: ops) (result :: results) t''

/-- The arrays of a new table are allocated: where they are not, `ght_rehash` goes on with the
NULL that `ght_create` returns. A size that is asked for has a power of two. -/
def TableOp.Arrays : TableOp Addr Data → Prop
  | insert alloc _ _ => alloc.table = true
  | rehash alloc i_size => alloc.table = true ∧ i_size ≤ sizeLimit
  | addEntry alloc _ _ => alloc.table = true
  | _ => True

namespace Ght

variable {others ages : List Addr} {s : Ght Addr Data} {m : KeyMap Data}
  {chains : UInt32 → List Addr} {key : List UInt8} {alloc : Allocator Addr}

/-- What is left of the entries is left of the map. -/
theorem exists_thinned {l old : List (List UInt8 × Option Data)} {lossless : Prop}
    (hview : l = (m.entries.map storedAs).reverse) (hsub : old.Sublist l)
    (hexact : lossless → old = l) :
    ∃ m', Thinned lossless m m' ∧ old = (m'.entries.map storedAs).reverse := by
  subst hview
  have hrev := hsub.reverse
  rw [List.reverse_reverse] at hrev
  obtain ⟨l', hl', hold⟩ := List.sublist_map_iff.mp hrev
  refine ⟨⟨l', m.nodupKeys.sublist hl'⟩, ⟨hl', fun hloss => AList.ext ?_⟩, ?_⟩
  · refine hl'.eq_of_length ?_
    have hlength := congrArg List.length (hexact hloss)
    rw [← List.length_reverse, hold] at hlength
    simpa using hlength
  · rw [← hold, List.reverse_reverse]

namespace Contents

/-- What was carried over is what the table stands for, and then what is new. -/
theorem of_carried (h : Contents others s m ages chains) {lossless : Prop} {s' : Ght Addr Data}
    {ages' : List Addr} {chains' : UInt32 → List Addr}
    {new : List (List UInt8 × Option Data)}
    (hc : Carried lossless s s' ages ages' chains' new) :
    ∃ m', Thinned lossless m m' ∧
      ages'.map s'.heap.view = (m'.entries.map storedAs).reverse ++ new ∧
      s'.heap.live.Perm (ages' ++ others) := by
  obtain ⟨old, hview, hsub, hexact⟩ := hc.view
  obtain ⟨m', hthin, hold⟩ := exists_thinned h.view hsub hexact
  exact ⟨m', hthin, hold ▸ hview, hc.memory others h.memory⟩

variable [DecidableEq Addr]

/-- A rehash whose arrays there is memory for keeps some of the entries, and all where none fails.
-/
theorem ghtRehash (h : Contents others s m ages chains) (htable : alloc.table = true)
    {i_size : UInt32} (hsize : i_size ≤ sizeLimit) :
    ∃ s' m' ages' chains', s.ghtRehash alloc i_size = some s' ∧ Thinned alloc.Plenty m m' ∧
      s'.table.i_automatic_rehash = s.table.i_automatic_rehash ∧
      Contents others s' m' ages' chains' := by
  obtain ⟨s', ages', chains', hrun, hc⟩ := h.listed.ghtRehash_carried htable hsize
  obtain ⟨m', hthin, hview, hmemory⟩ := h.of_carried hc
  rw [List.append_nil] at hview
  exact ⟨s', m', ages', chains', hrun, hthin, hc.auto, hc.listed, hview, hmemory⟩

/-- An insertion returns, and does what `InsertStep` allows. -/
theorem ghtInsert (h : Contents others s m ages chains)
    (htable : s.table.i_automatic_rehash = true → alloc.table = true) (p_data : Data)
    (key : List UInt8) :
    ∃ s' rc m' ages' chains', s.ghtInsert alloc p_data key = some (s', rc) ∧
      InsertStep alloc p_data key ⟨m, s.table.i_automatic_rehash⟩ rc
        ⟨m', s'.table.i_automatic_rehash⟩ ∧
      s'.table.i_heuristics = s.table.i_heuristics ∧ Contents others s' m' ages' chains' := by
  cases hkey : s.entryOf ages key with
  -- the key is there: no memory is asked for
  | some e =>
    obtain ⟨found⟩ := exists_found h.view hkey
    exact ⟨s, _, m, ages, chains, h.listed.insertWith_present p_data _ hkey, .present found.mem,
      rfl, h⟩
  | none =>
    have hnew := (entryOf_eq_none h.view).mp hkey
    cases he : alloc.entry s.heap.live with
    | none =>
      exact ⟨s, _, m, ages, chains, h.listed.insertWith_noMemory he p_data _ hkey,
        .noMemory hnew he, rfl, h⟩
    | some e =>
      obtain ⟨s', ages', chains', hrun, hc⟩ := h.listed.ghtInsert_carried htable he p_data hkey
      obtain ⟨m', hthin, hview, hmemory⟩ := h.of_carried hc
      -- the rehash may have lost keys, but it added none
      have hnew' : key ∉ m' := fun hmem => hnew ((hthin.1.map Sigma.fst).subset hmem)
      refine ⟨s', _, m'.insert key p_data, ages', chains', hrun, ?_, hc.heuristics, hc.listed, ?_,
        hmemory⟩
      · rw [hc.auto]
        exact .inserted hnew hthin
      · rw [hview, AList.entries_insert_of_notMem hnew', List.map_cons, List.reverse_cons]
        rfl

end Contents

end Ght

/-- Memory for the arrays only. -/
def noEntry : Allocator Nat where
  entry _ := none
  fresh _ _ h := by cases h
  table := true

-- ---------------------------------------------------------------------------
-- Runs
-- ---------------------------------------------------------------------------

namespace TableOp

variable [DecidableEq Addr] [DecidableEq Data] {others : List Addr} {s : HooksTable Addr Data}
  {t : TableState Data}

/-- The table stands for the state `t`, in a heap with `others` besides its entries. -/
def Holds (others : List Addr) (s : HooksTable Addr Data) (t : TableState Data) : Prop :=
  (∃ ages chains, s.hashTable.Contents others t.map ages chains) ∧
    s.hashTable.table.i_automatic_rehash = t.i_automatic_rehash

/-- A step of the code, whatever memory there is for entries. -/
theorem run_short (h : Holds others s t) (op : TableOp Addr Data) (harrays : op.Arrays) :
    ∃ s' result t', op.run s = some (s', result) ∧ ShortStep t op result t' ∧
      Holds others s' t' := by
  obtain ⟨⟨ages, chains, hc⟩, hauto⟩ := h
  -- ght_insert, and addEntry over it, lose at most what a rehash loses
  have hinsert : ∀ (alloc : Allocator Addr) p_data key, alloc.table = true →
      ∃ r rc t', s.hashTable.ghtInsert alloc p_data key = some (r, rc) ∧
        InsertStep alloc p_data key t rc t' ∧ Holds others { s with hashTable := r } t' := by
    intro alloc p_data key htable
    obtain ⟨r, rc, m', ages', chains', hrun, hstep, -, h'⟩ :=
      hc.ghtInsert (fun _ => htable) p_data key
    rw [hauto] at hstep
    exact ⟨r, rc, _, hrun, hstep, ⟨ages', chains', h'⟩, rfl⟩
  cases op with
  | insert alloc p_data key =>
    obtain ⟨r, rc, t', hrun, hstep, h'⟩ := hinsert alloc p_data key harrays
    exact ⟨_, _, t', by rw [run, hrun, Option.map_some], .insert hstep, h'⟩
  | get key =>
    obtain ⟨r, chains', hrun, hsame, h'⟩ := hc.ghtGet key
    exact ⟨_, _, t, by rw [run, hrun, Option.map_some], .get, ⟨ages, chains', h'⟩,
      hsame.auto.trans hauto⟩
  | replace p_data key =>
    obtain ⟨r, chains', hrun, hsame, h'⟩ := hc.ghtReplace p_data key
    exact ⟨_, _, _, by rw [run, hrun, Option.map_some], .replace, ⟨ages, chains', h'⟩,
      hsame.auto.trans hauto⟩
  | remove key =>
    obtain ⟨r, ages', chains', hrun, hsame, -, -, -, h'⟩ := hc.ghtRemove key
    exact ⟨_, _, _, by rw [run, hrun, Option.map_some], .remove, ⟨ages', chains', h'⟩,
      hsame.auto.trans hauto⟩
  -- a rehash may drop the entries it has no memory for
  | rehash alloc i_size =>
    obtain ⟨r, m', ages', chains', hrun, hthin, hsame, h'⟩ := hc.ghtRehash harrays.1 harrays.2
    exact ⟨_, _, _, by rw [run, hrun, Option.map_some], .rehash hthin, ⟨ages', chains', h'⟩,
      hsame.trans hauto⟩
  | setHeuristics i_heuristics =>
    exact ⟨_, _, t, rfl, .setHeuristics, ⟨ages, chains, hc.settings _ _⟩, hauto⟩
  | setRehash b_rehash =>
    exact ⟨_, _, _, rfl, .setRehash, ⟨ages, chains, hc.settings _ _⟩, rfl⟩
  | addEntry alloc v_op entry =>
    obtain ⟨r, rc, t', hrun, hstep, h'⟩ := hinsert alloc entry (vopKey v_op) harrays
    rw [run, HooksTable.addEntry, hrun]
    cases rc with
    | GHT_OK => exact ⟨_, _, t', rfl, .addEntry hstep, h'⟩
    | GHT_ALREADY_IN_HASH => exact ⟨_, _, t', rfl, .addEntry hstep, h'⟩
    | GHT_ERROR => exact ⟨_, _, t', rfl, .addEntry hstep, h'⟩
  | removeEntry v_op =>
    obtain ⟨r, ages', chains', hrun, hsame, -, -, -, h'⟩ := hc.ghtRemove (vopKey v_op)
    exact ⟨_, _, _, by rw [run, HooksTable.removeEntry, hrun]; rfl, .removeEntry,
      ⟨ages', chains', h'⟩, hsame.auto.trans hauto⟩
  -- a lookup; with a reference the entry found is retained
  | retrieveEntry v_op reference =>
    obtain ⟨r, chains', hrun, hsame, h'⟩ := hc.ghtGet (vopKey v_op)
    have hend : ∀ retainCount, Holds others ⟨r, retainCount⟩ t := fun _ =>
      ⟨⟨ages, chains', h'⟩, hsame.auto.trans hauto⟩
    have hstep := @ShortStep.retrieveEntry Addr Data t v_op reference
    rw [run, HooksTable.retrieveEntry, hrun]
    cases hdata : t.map.lookup (vopKey v_op) with
    | none =>
      rw [hdata] at hstep
      exact ⟨_, _, t, rfl, hstep, hend s.retainCount⟩
    | some e =>
      rw [hdata] at hstep
      cases reference with
      | false => exact ⟨_, _, t, rfl, hstep, hend s.retainCount⟩
      | true => exact ⟨_, _, t, rfl, hstep, hend _⟩

/-- A run of the code goes through, with what is lost in its rehashes. -/
theorem runAll_short (h : Holds others s t) (ops : List (TableOp Addr Data))
    (harrays : ∀ op ∈ ops, op.Arrays) :
    ∃ s' results t', runAll s ops = some (s', results) ∧ ShortRun t ops results t' ∧
      Holds others s' t' := by
  induction ops generalizing s t with
  | nil => exact ⟨s, [], t, rfl, .nil, h⟩
  | cons op ops ih =>
    obtain ⟨s₁, result, t₁, hrun, hstep, h₁⟩ := run_short h op (harrays op List.mem_cons_self)
    obtain ⟨s₂, results, t₂, hruns, hsteps, h₂⟩ :=
      ih h₁ fun op hop => harrays op (List.mem_cons_of_mem _ hop)
    refine ⟨s₂, result :: results, t₂, ?_, .cons hstep hsteps, h₂⟩
    rw [runAll, hrun]
    simp only [Option.bind_eq_bind, Option.bind_some, hruns]
    rfl

end TableOp

end VfsRedirector
