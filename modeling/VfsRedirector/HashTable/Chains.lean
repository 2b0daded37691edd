import Mathlib.Data.List.Perm.Subperm
import Mathlib.Tactic.IntervalCases
import VfsRedirector.HashTable.Model

/-!
# The lists of a hash table

`Listed` says what a table is in memory: the chains of the buckets, the list by
age, and the three counters, for the entries `ages` from the oldest to the newest.

The heuristics of a search reorder one chain and touch nothing else (`rechained`).
A search finds the entry of a key in its bucket, and finds it within the bound of
the model, as a chain has no more nodes than there are entries.

## Results

* `Listed.applyHeuristics` — an entry that was found may move in its chain.
* `Listed.searchInBucket` — a search finds the entry of the key.
-/

namespace VfsRedirector

open Library

variable {Addr Data : Type}

namespace Ght

/-- The table has the entries `ages`, and in each bucket those of `chains`. The counters
have 32 bits, and count in that width. -/
structure Listed (s : Ght Addr Data) (ages : List Addr) (chains : UInt32 → List Addr) : Prop where
  live : ∀ a ∈ ages, a ∈ s.heap.live
  stored : ∀ a ∈ ages, (s.heap.p_data a).isSome
  sized : ∀ a ∈ ages, s.heap.size a = sizeofEntry + (s.heap.key a).length
  keys : (ages.map s.heap.key).Nodup
  aged : Chain s.heap.p_newer s.heap.p_older ages
  oldest : s.table.p_oldest = ages.head?
  newest : s.table.p_newest = ages.getLast?
  items : s.table.i_items = UInt32.ofNat ages.length
  bucket : ∀ b a, a ∈ chains b ↔ a ∈ ages ∧ s.table.bucket (s.heap.key a) = b
  nodup : ∀ b, (chains b).Nodup
  chained : ∀ b, Chain s.heap.p_next s.heap.p_prev (chains b)
  first : ∀ b, s.table.pp_entries b = (chains b).head?
  nr : ∀ b, s.table.p_nr b = Int32.ofNat (chains b).length
  size : ∃ k ≤ 31, s.table.i_size = UInt32.ofNat (2 ^ k) ∧
    s.table.i_size_mask = UInt32.ofNat (2 ^ k) - 1

variable {s : Ght Addr Data} {ages : List Addr} {chains : UInt32 → List Addr} {b : UInt32}
  {a e x : Addr} {c l r : List Addr} {key : List UInt8} {next prev : Addr → Option Addr}

/-- No entry is twice in the list by age. -/
theorem Listed.ages_nodup (h : s.Listed ages chains) : ages.Nodup := h.keys.of_map

/-- What is in a chain is in the list by age. -/
theorem Listed.mem_ages (h : s.Listed ages chains) (ha : a ∈ chains b) : a ∈ ages :=
  ((h.bucket b a).mp ha).1

/-- An entry is in one bucket. -/
theorem Listed.bucket_unique (h : s.Listed ages chains) {b' : UInt32} (ha : a ∈ chains b)
    (ha' : a ∈ chains b') : b = b' :=
  ((h.bucket b a).mp ha).2.symm.trans ((h.bucket b' a).mp ha').2

/-- One entry has the key. -/
theorem Listed.key_inj (h : s.Listed ages chains) (ha : a ∈ ages) (he : e ∈ ages)
    (heq : s.heap.key a = s.heap.key e) : a = e :=
  List.inj_on_of_nodup_map h.keys ha he heq

/-- The buckets are within the arrays. -/
theorem Listed.bucket_lt (h : s.Listed ages chains) (key : List UInt8) :
    s.table.bucket key < s.table.i_size := by
  obtain ⟨k, hk, hsize, hmask⟩ := h.size
  have hpow : (UInt32.ofNat (2 ^ k) - 1).toNat < (UInt32.ofNat (2 ^ k)).toNat := by
    interval_cases k <;> decide
  rw [GhtHashTable.bucket, hmask, hsize, UInt32.lt_iff_toNat_lt, UInt32.toNat_and]
  exact Nat.lt_of_le_of_lt Nat.and_le_right hpow

/-- A chain is not longer than there are entries. -/
theorem Listed.length_chain_le (h : s.Listed ages chains) (b : UInt32) :
    (chains b).length ≤ s.heap.live.length :=
  ((h.nodup b).subperm fun a ha => h.live a (h.mem_ages ha)).length_le

/-- The entry of a key. -/
def entryOf (s : Ght Addr Data) (ages : List Addr) (key : List UInt8) : Option Addr :=
  ages.find? fun a => s.heap.key a = key

/-- An entry that is found for a key is in the table. -/
theorem entryOf_mem (he : s.entryOf ages key = some e) : e ∈ ages := List.mem_of_find?_eq_some he

/-- An entry that is found for a key has the key. -/
theorem entryOf_key (he : s.entryOf ages key = some e) : s.heap.key e = key := by
  simpa using List.find?_some he

/-- The entry of a key is the one in the bucket of the key. -/
theorem Listed.find_bucket (h : s.Listed ages chains) (key : List UInt8) :
    ((chains (s.table.bucket key)).find? fun a => s.heap.key a = key) = s.entryOf ages key := by
  cases hage : s.entryOf ages key with
  | none =>
    rw [entryOf, List.find?_eq_none] at hage
    exact List.find?_eq_none.mpr fun a ha => hage a (h.mem_ages ha)
  | some e =>
    have hkey := entryOf_key hage
    have he : e ∈ chains (s.table.bucket key) :=
      (h.bucket _ e).mpr ⟨entryOf_mem hage, by rw [hkey]⟩
    cases hfind : (chains (s.table.bucket key)).find? fun a => s.heap.key a = key with
    | none => exact absurd hkey (by simpa using List.find?_eq_none.mp hfind e he)
    | some a =>
      have hakey : s.heap.key a = key := by simpa using List.find?_some hfind
      have ha := h.mem_ages (List.mem_of_find?_eq_some hfind)
      rw [h.key_inj ha (entryOf_mem hage) (hakey.trans hkey.symm)]

-- ---------------------------------------------------------------------------
-- The heuristics
-- ---------------------------------------------------------------------------

/-- The table with other links in the chain of a bucket, which is now `c`. -/
def rechained (s : Ght Addr Data) (b : UInt32) (next prev : Addr → Option Addr)
    (c : List Addr) : Ght Addr Data :=
  { heap := { s.heap with p_next := next, p_prev := prev }
    table := { s.table with pp_entries := Function.update s.table.pp_entries b c.head? } }

/-- What the links of a reordered chain have to be. -/
structure Reorders (s : Ght Addr Data) (old : List Addr) (next prev : Addr → Option Addr)
    (c : List Addr) : Prop where
  chain : Chain next prev c
  perm : c.Perm old
  rest : ∀ a ∉ old, next a = s.heap.p_next a ∧ prev a = s.heap.p_prev a

/-- A chain in another order makes a table with the same entries. -/
theorem Listed.rechained (h : s.Listed ages chains) (hr : s.Reorders (chains b) next prev c) :
    (s.rechained b next prev c).Listed ages (Function.update chains b c) where
  live := h.live
  stored := h.stored
  sized := h.sized
  keys := h.keys
  aged := h.aged
  oldest := h.oldest
  newest := h.newest
  items := h.items
  bucket := by
    refine (Function.forall_update_iff chains fun b' c =>
      ∀ a, a ∈ c ↔ a ∈ ages ∧ s.table.bucket (s.heap.key a) = b').mpr ⟨fun a => ?_, ?_⟩
    · rw [hr.perm.mem_iff]
      exact h.bucket b a
    · exact fun b' _ => h.bucket b'
  nodup := by
    refine (Function.forall_update_iff chains fun _ c => c.Nodup).mpr ⟨?_, fun b' _ => h.nodup b'⟩
    exact hr.perm.nodup_iff.mpr (h.nodup b)
  chained := by
    refine (Function.forall_update_iff chains fun _ c => Chain next prev c).mpr
      ⟨hr.chain, fun b' hne => ?_⟩
    -- the nodes of another chain are not those that were written
    exact (seg_congr fun a ha => hr.rest a fun hb => hne (h.bucket_unique ha hb)).mpr
      (h.chained b')
  first := by
    refine (Function.forall_update_iff chains fun b' c' =>
      Function.update s.table.pp_entries b c.head? b' = c'.head?).mpr ⟨?_, fun b' hne => ?_⟩
    · rw [Function.update_self]
    · rw [Function.update_of_ne hne]
      exact h.first b'
  nr := by
    refine (Function.forall_update_iff chains fun b' c =>
      s.table.p_nr b' = Int32.ofNat c.length).mpr ⟨?_, fun b' _ => h.nr b'⟩
    rw [hr.perm.length_eq]
    exact h.nr b
  size := h.size

/-- A chain to which nothing is done is in order. -/
theorem Listed.rechained_self (h : s.Listed ages chains) (b : UInt32) :
    s.rechained b s.heap.p_next s.heap.p_prev (chains b) = s := by
  rw [Ght.rechained, ← h.first b, Function.update_eq_self]

variable [DecidableEq Addr]

/-- The first in its chain stays. -/
theorem transpose_head (hprev : s.heap.p_prev e = none) : s.transpose b e = s := by
  rw [transpose, hprev]

/-- A transposition links the entry in front of the one before it. -/
theorem transpose_eq (hchain : Chain s.heap.p_next s.heap.p_prev (l ++ x :: e :: r))
    (hnodup : (l ++ x :: e :: r).Nodup) (hfirst : s.table.pp_entries b = (l ++ [x]).head?) :
    s.transpose b e = s.rechained b
      (Function.update (Function.update (relink s.heap.p_next l.getLast? (some e)) x r.head?)
        e (some x))
      (Function.update (Function.update (relink s.heap.p_prev r.head? (some x)) x (some e))
        e l.getLast?)
      (l ++ e :: x :: r) := by
  have hx : s.heap.p_prev x = l.getLast? := hchain.prev_eq
  rw [← List.singleton_append, ← List.append_assoc] at hchain hnodup
  have he : s.heap.p_prev e = some x := by rw [hchain.prev_eq, List.getLast?_concat]
  have hnext : s.heap.p_next e = r.head? := hchain.next_eq
  have hel : e ∉ l := fun hl =>
    (nodup_around hnodup).2.1 (List.mem_append_left _ hl)
  rw [transpose, he]
  -- has the one before it a predecessor, or is it the first of the bucket
  rcases List.eq_nil_or_concat l with rfl | ⟨l, p, rfl⟩
  · simp only [hx, hnext, onHeap, setEntries, EntryHeap.setPrev, EntryHeap.setNext, relink_some,
      List.getLast?_nil, relink_none]
    rfl
  · rw [List.concat_eq_append] at hx hel hfirst ⊢
    rw [List.getLast?_concat] at hx
    have hep : e ≠ p := fun heq => hel (heq ▸ List.mem_append_right _ List.mem_cons_self)
    have hhead : (l ++ [p] ++ e :: x :: r).head? = s.table.pp_entries b := by
      rw [hfirst, List.append_assoc]
      cases l <;> rfl
    simp only [hx, hnext, onHeap, EntryHeap.setPrev, EntryHeap.setNext, relink_some,
      List.getLast?_concat, Function.update_of_ne hep, Ght.rechained, hhead,
      Function.update_eq_self]

/-- A transposition leaves a chain of the same entries. -/
theorem reorders_transpose (hchain : Chain s.heap.p_next s.heap.p_prev (l ++ x :: e :: r))
    (hnodup : (l ++ x :: e :: r).Nodup) :
    s.Reorders (l ++ x :: e :: r)
      (Function.update (Function.update (relink s.heap.p_next l.getLast? (some e)) x r.head?)
        e (some x))
      (Function.update (Function.update (relink s.heap.p_prev r.head? (some x)) x (some e))
        e l.getLast?)
      (l ++ e :: x :: r) where
  chain := hchain.transpose hnodup
  perm := (List.Perm.swap x e r).append_left l
  rest a ha := by
    simp only [List.mem_append, List.mem_cons, not_or] at ha
    obtain ⟨hl, hx, he, hr⟩ := ha
    rw [Function.update_of_ne he, Function.update_of_ne hx, Function.update_of_ne he,
      Function.update_of_ne hx]
    exact ⟨relink_getLast_of_notMem hl, relink_head_of_notMem hr⟩

/-- The first entry of a chain is not moved to the front. -/
theorem moveToFront_head (hfirst : s.table.pp_entries b = some e) :
    s.moveToFront b e = some s := by
  rw [moveToFront, if_pos hfirst]
  rfl

/-- The links after `move_to_front`: those of a removal, and of a new first node. -/
def frontNext (s : Ght Addr Data) (l : List Addr) (e : Addr) (r : List Addr) :
    Addr → Option Addr :=
  Function.update (relink s.heap.p_next l.getLast? r.head?) e (l ++ r).head?

def frontPrev (s : Ght Addr Data) (l : List Addr) (e : Addr) (r : List Addr) :
    Addr → Option Addr :=
  relink (Function.update (relink s.heap.p_prev r.head? l.getLast?) e none) (l ++ r).head? (some e)

/-- An entry that is not the first is cut out of its chain and put in front. -/
theorem moveToFront_eq (hchain : Chain s.heap.p_next s.heap.p_prev (x :: l ++ e :: r))
    (hnodup : (x :: l ++ e :: r).Nodup) (hfirst : s.table.pp_entries b = some x) :
    s.moveToFront b e = some (s.rechained b (s.frontNext (x :: l) e r)
      (s.frontPrev (x :: l) e r) (e :: (x :: l ++ r))) := by
  obtain ⟨p, hp⟩ : ∃ p, (x :: l).getLast? = some p :=
    ⟨_, List.getLast?_eq_some_getLast (List.cons_ne_nil x l)⟩
  have hprev : s.heap.p_prev e = some p := hchain.prev_eq.trans hp
  have hnext : s.heap.p_next e = r.head? := hchain.next_eq
  have hel : e ∉ x :: l := (nodup_around hnodup).2.1
  have hxe : ¬ some x = some e := fun heq => hel (Option.some.inj heq ▸ List.mem_cons_self)
  have hep : e ≠ p := fun heq => hel (heq ▸ List.mem_of_getLast? hp)
  simp only [moveToFront, hfirst, hxe, hprev, hnext, onHeap, setEntries, EntryHeap.setPrev,
    EntryHeap.setNext, relink_some, Option.bind_eq_bind, Option.bind_some,
    Function.update_of_ne hep, if_false]
  simp only [Ght.rechained, frontNext, frontPrev, hp, relink_some]
  rfl

/-- To move an entry to the front leaves a chain of the same entries. -/
theorem reorders_moveToFront (hchain : Chain s.heap.p_next s.heap.p_prev (l ++ e :: r))
    (hnodup : (l ++ e :: r).Nodup) :
    s.Reorders (l ++ e :: r) (s.frontNext l e r) (s.frontPrev l e r) (e :: (l ++ r)) where
  chain := by
    have hout := hnodup
    rw [List.nodup_middle, List.nodup_cons] at hout
    exact (hchain.remove hnodup).push hout.2 hout.1
  perm := List.perm_middle.symm
  rest a ha := by
    simp only [List.mem_append, List.mem_cons, not_or] at ha
    obtain ⟨hl, he, hr⟩ := ha
    have hlr : a ∉ l ++ r := fun hmem => (List.mem_append.mp hmem).elim hl hr
    constructor
    · rw [frontNext, Function.update_of_ne he, relink_getLast_of_notMem hl]
    · rw [frontPrev, relink_head_of_notMem hlr, Function.update_of_ne he,
        relink_head_of_notMem hr]

/-- The heuristics reorder the chain. -/
theorem Listed.applyHeuristics (h : s.Listed ages chains) (he : e ∈ chains b)
    (i_heuristics : UInt8) :
    ∃ next prev c, s.applyHeuristics b e i_heuristics = some (s.rechained b next prev c) ∧
      s.Reorders (chains b) next prev c := by
  have hself : s.Reorders (chains b) s.heap.p_next s.heap.p_prev (chains b) :=
    ⟨h.chained b, List.Perm.refl _, fun _ _ => ⟨rfl, rfl⟩⟩
  -- an entry that is first in its chain stays there under both heuristics
  have hstays : some s = some (s.rechained b s.heap.p_next s.heap.p_prev (chains b)) := by
    rw [h.rechained_self]
  have hchain := h.chained b
  have hnodup := h.nodup b
  have hfirst := h.first b
  rw [Ght.applyHeuristics]
  split_ifs with hfront htranspose
  -- move to front
  · obtain ⟨l, r, hc⟩ := List.append_of_mem he
    cases l with
    | nil =>
      refine ⟨_, _, _, (moveToFront_head ?_).trans hstays, hself⟩
      rw [hfirst, hc]
      rfl
    | cons x l =>
      rw [hc] at hchain hnodup hfirst ⊢
      exact ⟨_, _, _, moveToFront_eq hchain hnodup hfirst, reorders_moveToFront hchain hnodup⟩
  -- transpose: the entry and the one before it change places
  · obtain ⟨l, r, hc⟩ := List.append_of_mem he
    rcases List.eq_nil_or_concat l with rfl | ⟨l, x, rfl⟩
    · rw [hc] at hchain
      refine ⟨_, _, _, (congrArg some (transpose_head ?_)).trans hstays, hself⟩
      rw [List.nil_append] at hchain
      exact hchain.1
    · rw [List.concat_eq_append, List.append_assoc, List.singleton_append] at hc
      rw [hc] at hchain hnodup hfirst ⊢
      refine ⟨_, _, _, congrArg some (transpose_eq hchain hnodup ?_),
        reorders_transpose hchain hnodup⟩
      rw [hfirst]
      cases l <;> rfl
  · exact ⟨_, _, _, hstays, hself⟩

-- ---------------------------------------------------------------------------
-- The search
-- ---------------------------------------------------------------------------

/-- The search goes along the chain to the first entry with the key. -/
theorem searchFrom_eq {p : Option Addr} {i_heuristics : UInt8} {bound : Nat}
    (hseg : Seg s.heap.p_next s.heap.p_prev p c none) (hbound : c.length ≤ bound) :
    s.searchFrom b key i_heuristics bound c.head? =
      match c.find? fun a => s.heap.key a = key with
      | none => some (s, none)
      | some e => (s.applyHeuristics b e i_heuristics).map fun s => (s, some e) := by
  induction c generalizing p bound with
  | nil => cases bound <;> rfl
  | cons a c ih =>
    obtain ⟨-, hnext, hrest⟩ := hseg
    rw [Option.or_none] at hnext
    cases bound with
    | zero => cases hbound
    | succ bound =>
      rw [List.head?_cons, searchFrom]
      by_cases hkey : s.heap.key a = key
      · rw [if_pos hkey, List.find?_cons_of_pos (by simpa using hkey)]
      · rw [if_neg hkey, List.find?_cons_of_neg (by simpa using hkey), hnext]
        exact ih hrest (by simpa using hbound)

/-- A search finds the entry of the key, and at most reorders its chain. -/
theorem Listed.searchInBucket (h : s.Listed ages chains) (key : List UInt8)
    (i_heuristics : UInt8) :
    ∃ next prev c, s.Reorders (chains (s.table.bucket key)) next prev c ∧
      s.searchInBucket (s.table.bucket key) key i_heuristics =
        some (s.rechained (s.table.bucket key) next prev c, s.entryOf ages key) := by
  rw [Ght.searchInBucket, h.first, searchFrom_eq (h.chained _) (h.length_chain_le _),
    h.find_bucket]
  cases hage : s.entryOf ages key with
  | none =>
    exact ⟨_, _, _, ⟨h.chained _, List.Perm.refl _, fun _ _ => ⟨rfl, rfl⟩⟩,
      by rw [h.rechained_self]⟩
  | some e =>
    have he : e ∈ chains (s.table.bucket key) :=
      (h.bucket _ e).mpr ⟨entryOf_mem hage, by rw [entryOf_key hage]⟩
    obtain ⟨next, prev, c, heq, hr⟩ := h.applyHeuristics he i_heuristics
    exact ⟨next, prev, c, hr, by simp only [heq, Option.map_some]⟩

/-- A search without heuristics changes nothing. -/
theorem Listed.searchInBucket_zero (h : s.Listed ages chains) (key : List UInt8) :
    s.searchInBucket (s.table.bucket key) key 0 = some (s, s.entryOf ages key) := by
  rw [Ght.searchInBucket, h.first, searchFrom_eq (h.chained _) (h.length_chain_le _),
    h.find_bucket]
  cases s.entryOf ages key <;> rfl

end Ght

end VfsRedirector
