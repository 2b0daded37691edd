import Mathlib.Data.List.Basic
import VfsRedirector.HashTable.Entries

/-!
# The rehash

A rehash inserts the entries into a second table in the same heap, from the oldest to
the newest, and then frees those of the first. The first is not touched before, as
none of its entries is one of the second; the entries that were inserted are not
freed, as none of them is one of the first. So the contents are the same, in the same
order (`Rebuilt`), also for the rehash in the middle of an insertion. An entry for which
there is no memory is not in the second table (`Carried`).

## Results

* `ghtCreate_listed` — a new table is empty.
* `Listed.rehashFrom` — the loop of a rehash.
* `Listed.ghtRehash` — with memory for it a rehash keeps the contents.
* `Listed.ghtInsert` — an insertion that may rehash.
-/

namespace VfsRedirector

open Library

variable {Addr Data : Type}

/-- The largest power of two that `i_size` can be. -/
def sizeLimit : UInt32 := 0x80000000

-- ---------------------------------------------------------------------------
-- ght_create
-- ---------------------------------------------------------------------------

/-- The rounding comes to a power of two within its rounds. -/
theorem roundSize_eq {i_size : UInt32} (hsize : i_size ≤ sizeLimit) {n k : Nat} (hk : k + n = 31) :
    ∃ j ≤ 31, roundSize i_size (n + 1) (UInt32.ofNat (2 ^ k)) (k + 1) =
      some (UInt32.ofNat (2 ^ j), j + 1) := by
  induction n generalizing k with
  | zero =>
    obtain rfl : k = 31 := hk
    have hstop : ¬ UInt32.ofNat (2 ^ 31) < i_size := UInt32.not_lt.mpr hsize
    exact ⟨31, Nat.le_refl _, by rw [roundSize, if_neg hstop]⟩
  | succ n ih =>
    rw [roundSize]
    by_cases hlt : UInt32.ofNat (2 ^ k) < i_size
    · have hshift : (1 : UInt32) <<< UInt32.ofNat (k + 1) = UInt32.ofNat (2 ^ (k + 1)) := by
        have hk : k < 31 := by omega
        interval_cases k <;> rfl
      rw [if_pos hlt, hshift]
      exact ih (by omega)
    · exact ⟨k, by omega, by rw [if_neg hlt]⟩

namespace Ght

variable {s : Ght Addr Data} {ages : List Addr} {chains : UInt32 → List Addr} {b : UInt32}
  {a : Addr} {c : List Addr} {key : List UInt8} {alloc : Allocator Addr}

/-- A new table has no entries. -/
theorem ghtCreate_listed (fn_hash : List UInt8 → UInt32) {i_size : UInt32}
    (hsize : i_size ≤ sizeLimit) (heap : EntryHeap Addr Data) :
    ∃ t, ghtCreate fn_hash i_size true = some t ∧ t.fn_hash = fn_hash ∧
      Listed ⟨heap, t⟩ [] fun _ => [] := by
  obtain ⟨j, hj, hround⟩ := roundSize_eq hsize (Nat.zero_add 31)
  have hmask : (1 : UInt32) <<< UInt32.ofNat (j + 1 - 1) = UInt32.ofNat (2 ^ j) := by
    interval_cases j <;> rfl
  refine ⟨_, by rw [ghtCreate, show roundSize i_size 32 1 1 = _ from hround]; rfl, rfl, ?_⟩
  constructor
  case live => exact fun a ha => absurd ha List.not_mem_nil
  case stored => exact fun a ha => absurd ha List.not_mem_nil
  case sized => exact fun a ha => absurd ha List.not_mem_nil
  case keys => exact List.nodup_nil
  case aged => exact seg_nil
  case oldest => rfl
  case newest => rfl
  case items => rfl
  case bucket =>
    exact fun b a => iff_of_false List.not_mem_nil fun ha => absurd ha.1 List.not_mem_nil
  case nodup => exact fun _ => List.nodup_nil
  case chained => exact fun _ => seg_nil
  case first => exact fun _ => rfl
  case nr => exact fun _ => rfl
  case size => exact ⟨j, hj, rfl, congrArg (· - 1) hmask⟩

/-- The table has what the new one has, and its own settings. -/
theorem Listed.replaceWith {heap : EntryHeap Addr Data} {t p_tmp : GhtHashTable Addr}
    (h : Listed ⟨heap, p_tmp⟩ ages chains) (hhash : p_tmp.fn_hash = t.fn_hash) :
    Listed ⟨heap, t.replaceWith p_tmp⟩ ages chains := by
  have heq : t.replaceWith p_tmp = { p_tmp with
      i_heuristics := t.i_heuristics, i_automatic_rehash := t.i_automatic_rehash } := by
    simp only [GhtHashTable.replaceWith, hhash]
  rw [heq]
  exact h.settings _ _

variable [DecidableEq Addr]

-- ---------------------------------------------------------------------------
-- The new table
-- ---------------------------------------------------------------------------

/-- The entries `done` of `s` are in the new table as far as there was memory for them. -/
structure Refilled (lossless : Prop) (s p_tmp : Ght Addr Data) (done ages' : List Addr)
    (chains' : UInt32 → List Addr) : Prop where
  listed : p_tmp.Listed ages' chains'
  hash : p_tmp.table.fn_hash = s.table.fn_hash
  view : (ages'.map p_tmp.heap.view).Sublist (done.map s.heap.view)
  exact : lossless → ages'.map p_tmp.heap.view = done.map s.heap.view
  kept : ∀ a ∈ s.heap.live, s.heap.Same p_tmp.heap a ∧ a ∉ ages'
  memory : p_tmp.heap.live.Perm (ages' ++ s.heap.live)

/-- The insertion of the next entry. -/
theorem Refilled.insertWith {lossless : Prop} {p_tmp : Ght Addr Data} {done rest ages' : List Addr}
    {chains' : UInt32 → List Addr} (h : s.Listed (done ++ a :: rest) chains)
    (hr : Refilled lossless s p_tmp done ages' chains')
    (halloc : lossless → ∀ live, (alloc.entry live).isSome) {d : Data}
    (hd : s.heap.p_data a = some d) :
    ∃ p_tmp' rc ages'' chains'',
      p_tmp.insertWith alloc d (s.heap.key a) some = some (p_tmp', rc) ∧
      Refilled lossless s p_tmp' (done ++ [a]) ages'' chains'' := by
  have hview : s.heap.view a = (s.heap.key a, some d) := Prod.ext rfl hd
  have hnone : p_tmp.entryOf ages' (s.heap.key a) = none := by
    -- the entries that were inserted have the keys of the older ones
    rw [entryOf_eq_none_iff]
    rintro v hv heq
    obtain ⟨a', ha', rfl⟩ := List.mem_map.mp (hr.view.subset hv)
    have haa := h.key_inj (List.mem_append_left _ ha')
      (List.mem_append_right _ List.mem_cons_self) heq
    exact (nodup_around h.ages_nodup).2.1 (haa ▸ ha')
  cases he : alloc.entry p_tmp.heap.live with
  | none =>
    refine ⟨p_tmp, _, ages', chains', hr.listed.insertWith_noMemory he d some hnone, hr.listed,
      hr.hash, ?_, fun hloss => ?_, hr.kept, hr.memory⟩
    · rw [List.map_append]
      exact hr.view.trans (List.sublist_append_left _ _)
    · have hsome := halloc hloss p_tmp.heap.live
      rw [he] at hsome
      cases hsome
  | some e =>
    obtain ⟨p_tmp', ages'', chains'', hrun, hc⟩ := hr.listed.insertWith he d some
      (fun s' hs' _ => ⟨s', ages', chains', rfl, hs'.carried_self True⟩) hnone
    refine ⟨p_tmp', _, ages'', chains'', hrun, hc.listed, hc.hash.trans hr.hash, ?_,
      fun hloss => ?_, fun a ha => ?_, hc.memory _ hr.memory⟩
    · rw [hc.view_eq trivial, List.map_append, List.map_singleton, hview]
      exact hr.view.append (List.Sublist.refl _)
    · rw [hc.view_eq trivial, List.map_append, List.map_singleton, hview, hr.exact hloss]
    · obtain ⟨hkeep, hout⟩ := hr.kept a ha
      obtain ⟨hkeep', hout'⟩ := hc.others a hkeep.live hout
      exact ⟨hkeep.trans hkeep', hout'⟩

/-- The loop of a rehash of `s`, of whose entries those of `rest` are still to be
inserted into `p_tmp`. -/
theorem Listed.rehashFrom (h : s.Listed ages chains) {lossless : Prop}
    (halloc : lossless → ∀ live, (alloc.entry live).isSome) {done rest : List Addr}
    (hages : ages = done ++ rest) {bound : Nat} (hbound : rest.length ≤ bound)
    {p_tmp : Ght Addr Data} {ages' : List Addr} {chains' : UInt32 → List Addr}
    (hr : Refilled lossless s p_tmp done ages' chains') :
    ∃ p_tmp' ages'' chains'',
      rehashFrom alloc bound p_tmp (p_tmp.heap.iterate rest.head?).1
        (p_tmp.heap.iterate rest.head?).2 = some p_tmp' ∧
      Refilled lossless s p_tmp' ages ages'' chains'' := by
  -- over the entries by age that are still to be carried over
  induction rest generalizing done bound p_tmp ages' chains' with
  | nil =>
    rw [List.append_nil] at hages
    exact ⟨p_tmp, ages', chains', by cases bound <;> rfl, hages ▸ hr⟩
  | cons a rest ih =>
    subst hages
    have ha : a ∈ done ++ a :: rest := List.mem_append_right _ List.mem_cons_self
    obtain ⟨hsame, -⟩ := hr.kept a (h.live a ha)
    obtain ⟨d, hd⟩ := Option.isSome_iff_exists.mp (h.stored a ha)
    have hnewer : s.heap.p_newer a = rest.head? := Chain.next_eq h.aged
    obtain ⟨p_tmp', rc, ages'', chains'', hinsert, hr'⟩ := hr.insertWith h halloc hd
    cases bound with
    | zero => cases hbound
    | succ bound =>
      obtain ⟨t, ages₂, chains₂, hrun, hr₂⟩ :=
        ih (List.append_cons done a rest) (Nat.le_of_succ_le_succ hbound) hr'
      refine ⟨t, ages₂, chains₂, ?_, hr₂⟩
      rw [← hrun]
      show Ght.rehashFrom alloc (bound + 1) p_tmp ⟨some a, p_tmp.heap.p_newer a⟩
        (p_tmp.heap.p_data a) = _
      rw [hsame.p_newer, hsame.p_data, hnewer, hd, Ght.rehashFrom]
      simp only [Option.bind_eq_bind, Option.bind_some, hsame.key, hinsert, ghtNext]

-- ---------------------------------------------------------------------------
-- The old table
-- ---------------------------------------------------------------------------

/-- The entries of a chain are freed one after another. -/
theorem freeEntryChain_eq {m : EntryHeap Addr Data} {p : Option Addr} {bound : Nat}
    (hseg : Seg m.p_next m.p_prev p c none) (hbound : c.length ≤ bound) :
    m.freeEntryChain bound c.head? = some { m with live := m.live.diff c } := by
  induction c generalizing m p bound with
  | nil => cases bound <;> rfl
  | cons a c ih =>
    obtain ⟨-, hnext, hrest⟩ := hseg
    rw [Option.or_none] at hnext
    cases bound with
    | zero => cases hbound
    | succ bound =>
      rw [List.head?_cons, EntryHeap.freeEntryChain, hnext, List.diff_cons]
      exact ih (m := m.heFinalize a) hrest (Nat.le_of_succ_le_succ hbound)

/-- A list without what stands in front of it. -/
theorem diff_append_self (l r : List Addr) : (l ++ r).diff l = r := by
  induction l with
  | nil => rfl
  | cons a l ih => rw [List.cons_append, List.diff_cons, List.erase_cons_head, ih]

/-- The entries of the buckets with the numbers `is`. -/
def inBuckets (chains : UInt32 → List Addr) (is : List Nat) : List Addr :=
  is.flatMap fun i => chains (UInt32.ofNat i)

/-- The entries of the buckets are freed, and no others. -/
theorem freeBuckets_eq {t : GhtHashTable Addr} {m : EntryHeap Addr Data} {bound : Nat}
    (hfirst : ∀ b, t.pp_entries b = (chains b).head?)
    (hchain : ∀ b, Chain m.p_next m.p_prev (chains b)) (hbound : ∀ b, (chains b).length ≤ bound) :
    t.freeBuckets bound m =
      some { m with live := m.live.diff (inBuckets chains (List.range t.i_size.toNat)) } := by
  rw [GhtHashTable.freeBuckets]
  generalize List.range t.i_size.toNat = is
  induction is generalizing m with
  | nil => rfl
  | cons i is ih =>
    rw [List.foldlM_cons, hfirst, freeEntryChain_eq (hchain _) (hbound _), inBuckets,
      List.flatMap_cons, List.diff_append]
    exact ih (m := { m with live := m.live.diff (chains (UInt32.ofNat i)) }) hchain

omit [DecidableEq Addr] in
/-- The buckets have the entries of the table, each of them once. -/
theorem Listed.inBuckets_perm (h : s.Listed ages chains) :
    (inBuckets chains (List.range s.table.i_size.toNat)).Perm ages := by
  have hindex : ∀ i ∈ List.range s.table.i_size.toNat, (UInt32.ofNat i).toNat = i := fun i hi =>
    UInt32.toNat_ofNat_of_lt'
      (Nat.lt_trans (List.mem_range.mp hi) s.table.i_size.toNat_lt_size)
  have hnodup : (inBuckets chains (List.range s.table.i_size.toNat)).Nodup := by
    refine List.nodup_flatMap.mpr ⟨fun i _ => h.nodup _, ?_⟩
    refine List.nodup_range.imp_of_mem fun hi hj hne => ?_
    intro a ha ha'
    have heq := h.bucket_unique ha ha'
    exact hne ((hindex _ hi).symm.trans ((congrArg UInt32.toNat heq).trans (hindex _ hj)))
  refine (List.perm_ext_iff_of_nodup hnodup h.ages_nodup).mpr fun a => ?_
  rw [inBuckets, List.mem_flatMap]
  constructor
  · rintro ⟨i, -, ha⟩
    exact h.mem_ages ha
  · intro ha
    have hlt := UInt32.lt_iff_toNat_lt.mp (h.bucket_lt (s.heap.key a))
    refine ⟨(s.table.bucket (s.heap.key a)).toNat, List.mem_range.mpr hlt, ?_⟩
    rw [UInt32.ofNat_toNat, h.bucket]
    exact ⟨ha, rfl⟩

/-- A rehash in whatever memory there is for the entries. -/
theorem Listed.ghtRehash_carried (h : s.Listed ages chains) (htable : alloc.table = true)
    {i_size : UInt32} (hsize : i_size ≤ sizeLimit) :
    ∃ s' ages' chains', s.ghtRehash alloc i_size = some s' ∧
      Carried (∀ live, (alloc.entry live).isSome) s s' ages ages' chains' [] := by
  obtain ⟨t, hcreate, hhash, hempty⟩ := ghtCreate_listed s.table.fn_hash hsize s.heap
  have hlength : ages.length ≤ s.heap.live.length :=
    (h.ages_nodup.subperm h.live).length_le
  obtain ⟨p_tmp, ages', chains', hrun, hr⟩ := h.rehashFrom id
    (show ages = [] ++ ages from rfl) hlength
    ⟨hempty, hhash, List.Sublist.refl _, fun _ => rfl,
      fun a ha => ⟨⟨ha, rfl, rfl, rfl, rfl, rfl, rfl, rfl⟩, List.not_mem_nil⟩,
      List.Perm.refl _⟩
  -- the old table is still there when it is freed
  have hstill := h.congr fun a ha => (hr.kept a (h.live a ha)).1
  have hfree := freeBuckets_eq (t := s.table) hstill.first hstill.chained hstill.length_chain_le
  have hkeep : ∀ a ∈ p_tmp.heap.live, a ∉ ages → p_tmp.heap.Same { p_tmp.heap with
      live := p_tmp.heap.live.diff (inBuckets chains (List.range s.table.i_size.toNat)) } a := by
    intro a ha hout
    refine ⟨List.mem_diff_of_mem ha fun hfreed => ?_, rfl, rfl, rfl, rfl, rfl, rfl, rfl⟩
    exact hout (h.inBuckets_perm.mem_iff.mp hfreed)
  have hnew : ∀ a ∈ ages', a ∉ ages := fun a ha' ha => (hr.kept a (h.live a ha)).2 ha'
  have hlisted := (hr.listed.congr fun a ha =>
    hkeep a (hr.listed.live a ha) (hnew a ha)).replaceWith hr.hash
  refine ⟨_, ages', chains', ?_, hlisted, rfl, rfl, rfl, ?_, fun a ha hout => ?_,
    fun others hlive => ?_⟩
  · rw [Ght.ghtRehash, htable, hcreate, ghtFirst, h.oldest]
    simp only [Option.bind_eq_bind, Option.bind_some]
    rw [show Ght.rehashFrom alloc s.heap.live.length ⟨s.heap, t⟩ _ _ = _ from hrun]
    rw [Option.bind_some, show s.table.freeBuckets _ _ = _ from hfree]
    rfl
  · exact ⟨_, (List.append_nil _).symm, hr.view, hr.exact⟩
  · obtain ⟨hsame, hout'⟩ := hr.kept a ha
    exact ⟨hsame.trans (hkeep a hsame.live hout), hout'⟩
  · have hall : p_tmp.heap.live.Perm (ages ++ (ages' ++ others)) := by
      refine (hr.memory.trans (hlive.append_left ages')).trans ?_
      rw [← List.append_assoc, ← List.append_assoc]
      exact List.perm_append_comm.append_right others
    refine (hall.diff h.inBuckets_perm).trans ?_
    rw [diff_append_self]

/-- After a rehash the contents are what they were. -/
theorem Listed.ghtRehash (h : s.Listed ages chains) (halloc : alloc.Succeeds) {i_size : UInt32}
    (hsize : i_size ≤ sizeLimit) :
    ∃ s' ages' chains', s.ghtRehash alloc i_size = some s' ∧ Rebuilt s s' ages ages' chains' := by
  obtain ⟨s', ages', chains', hrun, hcarried⟩ := h.ghtRehash_carried halloc.table hsize
  exact ⟨s', ages', chains', hrun, hcarried.rebuilt halloc.entry⟩

/-- An insertion rehashes with its own memory if there are too many items. -/
theorem Listed.automaticRehash (h : s.Listed ages chains)
    (htable : s.table.i_automatic_rehash = true → alloc.table = true) :
    ∃ s' ages' chains', Ght.automaticRehash alloc s = some s' ∧
      Carried (s.table.i_automatic_rehash = false ∨ ∀ live, (alloc.entry live).isSome) s s' ages
        ages' chains' [] := by
  rw [Ght.automaticRehash]
  split_ifs with hmany
  · have hsize : 2 * s.table.i_size ≤ sizeLimit := by
      -- twice the largest size is 0, which makes a table of one bucket
      obtain ⟨k, hk, hsize, -⟩ := h.size
      rw [hsize]
      interval_cases k <;> decide
    obtain ⟨s', ages', chains', hrun, hc⟩ := h.ghtRehash_carried (htable hmany.1) hsize
    obtain ⟨old, hview, hsub, hexact⟩ := hc.view
    refine ⟨s', ages', chains', hrun, hc.listed, hc.hash, hc.heuristics, hc.auto,
      ⟨old, hview, hsub, ?_⟩, hc.others, hc.memory⟩
    rintro (hoff | hfull)
    · cases hoff.symm.trans hmany.1
    · exact hexact hfull
  · exact ⟨s, ages, chains, rfl, h.carried_self _⟩

/-- An insertion with memory for its entry. -/
theorem Listed.ghtInsert_carried (h : s.Listed ages chains)
    (htable : s.table.i_automatic_rehash = true → alloc.table = true) {e : Addr}
    (he : alloc.entry s.heap.live = some e) (p_data : Data) (hkey : s.entryOf ages key = none) :
    ∃ s' ages' chains', s.ghtInsert alloc p_data key = some (s', .GHT_OK) ∧
      Carried (s.table.i_automatic_rehash = false ∨ ∀ live, (alloc.entry live).isSome) s s' ages
        ages' chains' [(key, some p_data)] := by
  refine h.insertWith he p_data (Ght.automaticRehash alloc) (fun s' hs' hsame => ?_) hkey
  rw [← hsame] at htable ⊢
  exact hs'.automaticRehash htable

/-- An insertion of a new key with memory for everything adds it behind the others. -/
theorem Listed.ghtInsert (h : s.Listed ages chains) (halloc : alloc.Succeeds) (p_data : Data)
    (hkey : s.entryOf ages key = none) :
    ∃ s' ages' chains', s.ghtInsert alloc p_data key = some (s', .GHT_OK) ∧
      s'.Listed ages' chains' ∧
      ages'.map s'.heap.view = ages.map s.heap.view ++ [(key, some p_data)] := by
  obtain ⟨e, he⟩ := Option.isSome_iff_exists.mp (halloc.entry s.heap.live)
  obtain ⟨s', ages', chains', hrun, hc⟩ :=
    h.ghtInsert_carried (fun _ => halloc.table) he p_data hkey
  exact ⟨s', ages', chains', hrun, hc.listed, hc.view_eq (.inr halloc.entry)⟩

/-- The insertions of a rehash are those of `ght_insert` into a table that is not rehashed. -/
theorem Listed.ghtInsert_eq_insertWith (h : s.Listed ages chains)
    (hno : s.table.i_automatic_rehash = false) (p_data : Data) (key : List UInt8) :
    s.ghtInsert alloc p_data key = s.insertWith alloc p_data key some := by
  have hsame : ∀ heap : EntryHeap Addr Data,
      Ght.automaticRehash alloc ⟨heap, s.table⟩ = some ⟨heap, s.table⟩ := by
    intro heap
    rw [Ght.automaticRehash, if_neg]
    rintro ⟨hyes, -⟩
    cases hno.symm.trans hyes
  rw [Ght.ghtInsert, Ght.insertWith, Ght.insertWith, h.searchInBucket_zero]
  simp only [Option.bind_eq_bind, Option.bind_some, hsame]

end Ght

end VfsRedirector
