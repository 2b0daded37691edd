import VfsRedirector.HashTable.Entries

/-!
# Bounded buckets

`ght_set_bounded_buckets` makes a cache of the table: an insertion into a bucket that has
as many entries as the limit takes the last entry out of the chain. The counters stay as
they are then, as one entry comes for one that goes.

The new entry is in its chain already when the last one is taken out, but not yet in the
list by age. What comes out is the table in which the last entry was removed first
(`Listed.placeBounded`).

`fn_bucket_free` is called with the data and the key of the entry, before the entry is
freed; it does not call back here.

## Results

* `Listed.makeRoom` — the last entry of a full chain is cut off.
* `Listed.replaced` — the table then has the new entry in place of that one.
-/

namespace VfsRedirector

open Library

variable {Addr Data : Type}

/-- What `fn_bucket_free` is called with. -/
abbrev BucketFree (Data : Type) := Option Data × List UInt8

/-- A table with the setting of `ght_set_bounded_buckets`. -/
structure BoundedGht (Addr Data : Type) where
  ght : Ght Addr Data
  bucket_limit : UInt32

/-- `fn` is whether there is a callback; the kernel panics where one is needed. -/
def ghtSetBoundedBuckets (s : Ght Addr Data) (limit : UInt32) (fn : Bool) :
    Option (BoundedGht Addr Data) :=
  if limit > 0 ∧ fn = false then none else some ⟨s, limit⟩

/-- `for (p = ...; p->p_next != NULL; p = p->p_next);` from `p` on. -/
def EntryHeap.lastInChain (m : EntryHeap Addr Data) : Nat → Addr → Option Addr
  | 0, _ => none
  | bound + 1, p =>
    match m.p_next p with
    | none => some p
    | some p_next => m.lastInChain bound p_next

variable [DecidableEq Addr]

namespace Ght

/-- Places the entry first in the list. -/
def placeFirst (s : Ght Addr Data) (l_key : UInt32) (p_entry : Addr) : Ght Addr Data :=
  let s := s.onHeap (·.setNext (some p_entry) (s.table.pp_entries l_key))
  let s := s.onHeap (·.setPrev (some p_entry) none)
  let s := s.onHeap (·.setPrev (s.table.pp_entries l_key) (some p_entry))
  s.setEntries l_key (some p_entry)

def countEntry (s : Ght Addr Data) (l_key : UInt32) : Ght Addr Data :=
  let s := s.setNr l_key (s.table.p_nr l_key + 1)
  { s with table.i_items := s.table.i_items + 1 }

/-- The entry is the newest. -/
def linkNewest (s : Ght Addr Data) (p_entry : Addr) : Ght Addr Data :=
  let s := if s.table.p_oldest = none then { s with table.p_oldest := some p_entry } else s
  let s := s.onHeap (·.setOlder (some p_entry) s.table.p_newest)
  let s := s.onHeap (·.setNewer s.table.p_newest (some p_entry))
  { s with table.p_newest := some p_entry }

/-- `If this is a limited bucket hash table, potentially remove the last item`. The
counter is compared as an unsigned number. -/
def makeRoom (s : Ght Addr Data) (bucket_limit : UInt32) (l_key : UInt32) :
    Option (Ght Addr Data × Option (BucketFree Data)) :=
  if bucket_limit ≠ 0 ∧ (s.table.p_nr l_key).toUInt32 ≥ bucket_limit then do
    let first ← s.table.pp_entries l_key
    let p ← s.heap.lastInChain s.heap.live.length first
    let s := s.removeFromChain l_key p
    return (s.onHeap (·.heFinalize p), some (s.heap.p_data p, s.heap.key p))
  else some (s.countEntry l_key, none)

/-- From where the entry is placed first in the list, to the end. -/
def placeBounded (s : Ght Addr Data) (bucket_limit : UInt32) (l_key : UInt32) (p_entry : Addr) :
    Option (Ght Addr Data × Option (BucketFree Data)) :=
  ((s.placeFirst l_key p_entry).makeRoom bucket_limit l_key).map fun r =>
    (r.1.linkNewest p_entry, r.2)

end Ght

namespace BoundedGht

/-- `ght_insert`, with what it does about too many items in `rehash`. -/
def insertWith (s : BoundedGht Addr Data) (alloc : Allocator Addr) (p_entry_data : Data)
    (key : List UInt8) (rehash : Ght Addr Data → Option (Ght Addr Data)) :
    Option (BoundedGht Addr Data × GhtStatusCode × Option (BucketFree Data)) := do
  let (t, found) ← s.ght.searchInBucket (s.ght.table.bucket key) key 0
  match found with
  | some _ => return ({ s with ght := t }, .GHT_ALREADY_IN_HASH, none)
  | none =>
    match t.heap.heCreate alloc p_entry_data key with
    | none => return ({ s with ght := t }, .GHT_ERROR, none)
    | some (heap, p_entry) =>
      let t ← rehash { t with heap }
      let (t, freed) ← t.placeBounded s.bucket_limit (t.table.bucket key) p_entry
      return ({ s with ght := t }, .GHT_OK, freed)

def ghtInsert (s : BoundedGht Addr Data) (alloc : Allocator Addr) (p_entry_data : Data)
    (key : List UInt8) :
    Option (BoundedGht Addr Data × GhtStatusCode × Option (BucketFree Data)) :=
  s.insertWith alloc p_entry_data key (Ght.automaticRehash alloc)

end BoundedGht

namespace Ght

variable {s : Ght Addr Data} {ages la ra l : List Addr} {chains : UInt32 → List Addr}
  {b : UInt32} {e v : Addr} {key : List UInt8} {p_data : Data}

/-- Where there is room it is what the table without limits does. -/
theorem placeBounded_room {bucket_limit : UInt32}
    (hroom : ¬ (bucket_limit ≠ 0 ∧ (s.table.p_nr b).toUInt32 ≥ bucket_limit)) (e : Addr) :
    s.placeBounded bucket_limit b e = some (s.placeEntry b e, none) := by
  have hroom' : ¬ (bucket_limit ≠ 0 ∧
    ((s.placeFirst b e).table.p_nr b).toUInt32 ≥ bucket_limit) := hroom
  rw [placeBounded, makeRoom, if_neg hroom']
  rfl

/-- A limit of 0 is no limit. -/
theorem ghtInsert_unbounded (s : Ght Addr Data) (alloc : Allocator Addr) (p_data : Data)
    (key : List UInt8) :
    BoundedGht.ghtInsert ⟨s, 0⟩ alloc p_data key =
      (s.ghtInsert alloc p_data key).map fun r => (⟨r.1, 0⟩, r.2, none) := by
  -- without a limit no bucket is full
  have hplace : ∀ t : Ght Addr Data, ∀ e,
      t.placeBounded 0 (t.table.bucket key) e = some (t.placeEntry (t.table.bucket key) e, none) :=
    fun t e => placeBounded_room (fun h => h.1 rfl) e
  rw [BoundedGht.ghtInsert, BoundedGht.insertWith, Ght.ghtInsert, Ght.insertWith]
  cases s.searchInBucket (s.table.bucket key) key 0 with
  | none => rfl
  | some r =>
    obtain ⟨t, found⟩ := r
    cases found with
    | some e => rfl
    | none =>
      simp only [Option.bind_eq_bind, Option.bind_some]
      cases t.heap.heCreate alloc p_data key with
      | none => rfl
      | some r =>
        simp only
        cases Ght.automaticRehash alloc { t with heap := r.1 } with
        | none => rfl
        | some t =>
          simp only [Option.bind_some, hplace]
          rfl

omit [DecidableEq Addr] in
/-- The loop ends at the last of a chain. -/
theorem lastInChain_eq {m : EntryHeap Addr Data} {p : Option Addr} {bound : Nat} {a : Addr}
    (hseg : Seg m.p_next m.p_prev p (a :: l ++ [v]) none) (hbound : l.length + 1 < bound) :
    m.lastInChain bound a = some v := by
  induction l generalizing a p bound with
  | nil =>
    obtain ⟨-, hnext, -, hlast, -⟩ := hseg
    obtain ⟨bound, rfl⟩ : ∃ n, bound = n + 2 := ⟨bound - 2, by simp at hbound; omega⟩
    have hnext : m.p_next a = some v := hnext
    have hlast : m.p_next v = none := hlast
    simp only [EntryHeap.lastInChain, hnext, hlast]
  | cons a' l ih =>
    obtain ⟨-, hnext, hrest⟩ := hseg
    obtain ⟨bound, rfl⟩ : ∃ n, bound = n + 1 := ⟨bound - 1, by omega⟩
    have hnext : m.p_next a = some a' := hnext
    simp only [EntryHeap.lastInChain, hnext]
    exact ih hrest (by simp only [List.length_cons] at hbound; omega)

/-- The new entry is linked in front of its bucket, whose counter goes up. -/
theorem placeFirst_eq {c : List Addr} (hfirst : s.table.pp_entries b = c.head?) (e : Addr) :
    s.placeFirst b e =
      { heap := { s.heap with
          p_next := Function.update s.heap.p_next e c.head?
          p_prev := relink (Function.update s.heap.p_prev e none) c.head? (some e) }
        table := { s.table with
          pp_entries := Function.update s.table.pp_entries b (some e) } } := by
  simp only [placeFirst, onHeap, setEntries, EntryHeap.setNext, EntryHeap.setPrev, relink_some,
    hfirst]

/-- The new entry is linked behind the newest of the list by age. -/
theorem linkNewest_eq (ages : List Addr) (holdest : s.table.p_oldest = ages.head?)
    (hnewest : s.table.p_newest = ages.getLast?) (e : Addr) :
    s.linkNewest e =
      { heap := { s.heap with
          p_older := Function.update s.heap.p_older e ages.getLast?
          p_newer := relink s.heap.p_newer ages.getLast? (some e) }
        table := { s.table with
          p_oldest := (ages ++ [e]).head?
          p_newest := some e } } := by
  cases ages with
  | nil =>
    simp only [linkNewest, onHeap, EntryHeap.setOlder, EntryHeap.setNewer, relink_some, holdest,
      hnewest, List.head?_nil, if_true]
    rfl
  | cons o ages =>
    have hsome : ¬ some o = none := Option.some_ne_none o
    simp only [linkNewest, onHeap, EntryHeap.setOlder, EntryHeap.setNewer, relink_some, holdest,
      hnewest, List.head?_cons, hsome, if_false, List.cons_append]

/-- An entry is taken out of a chain and the list by age, which need not have the same
entries. -/
theorem removeFromChain_of {r : List Addr}
    (hchain : Chain s.heap.p_next s.heap.p_prev (l ++ v :: r))
    (hfirst : s.table.pp_entries b = (l ++ [v]).head?) (hl : v ∉ l)
    (haged : Chain s.heap.p_newer s.heap.p_older (la ++ v :: ra))
    (holdest : s.table.p_oldest = (la ++ v :: ra).head?)
    (hnewest : s.table.p_newest = (la ++ v :: ra).getLast?) (hla : v ∉ la) :
    s.removeFromChain b v =
      { heap := { s.heap with
          p_next := relink s.heap.p_next l.getLast? r.head?
          p_prev := relink s.heap.p_prev r.head? l.getLast?
          p_newer := relink s.heap.p_newer la.getLast? ra.head?
          p_older := relink s.heap.p_older ra.head? la.getLast? }
        table := { s.table with
          pp_entries := Function.update s.table.pp_entries b (l ++ r).head?
          p_oldest := (la ++ ra).head?
          p_newest := (la ++ ra).getLast? } } := by
  have haged' : Chain (s.rechained b (relink s.heap.p_next l.getLast? r.head?)
      (relink s.heap.p_prev r.head? l.getLast?) (l ++ r)).heap.p_newer _ _ := haged
  rw [removeFromChain, unlinkBucket_eq hchain hfirst hl, unlinkAge_eq haged' holdest hnewest hla]
  rfl

/-- The last entry of the chain behind a new one is taken out of both lists. -/
theorem Listed.makeRoom (h : s.Listed (la ++ v :: ra) chains) (hc : chains b = l ++ [v])
    (hlive : e ∈ s.heap.live) (hnew : e ∉ la ++ v :: ra) {bucket_limit : UInt32}
    (hfull : bucket_limit ≠ 0 ∧ (s.table.p_nr b).toUInt32 ≥ bucket_limit) :
    (s.placeFirst b e).makeRoom bucket_limit b =
      some ({ heap := { s.heap with
                p_next := relink (Function.update s.heap.p_next e (l ++ [v]).head?)
                  (e :: l).getLast? none
                p_prev := relink (Function.update s.heap.p_prev e none) (l ++ [v]).head? (some e)
                p_newer := relink s.heap.p_newer la.getLast? ra.head?
                p_older := relink s.heap.p_older ra.head? la.getLast?
                live := s.heap.live.erase v }
              table := { s.table with
                pp_entries := Function.update s.table.pp_entries b (some e)
                p_oldest := (la ++ ra).head?
                p_newest := (la ++ ra).getLast? } },
        some (s.heap.p_data v, s.heap.key v)) := by
  have hfirst := h.first b
  have hnodup := h.nodup b
  have hchain := h.chained b
  have hout : e ∉ chains b := fun he => hnew (h.mem_ages he)
  have hpush := hchain.push hnodup hout
  -- the chain is no longer than what is allocated, so the walk to its last entry ends
  have hbound : l.length + 1 < s.heap.live.length := by
    have hsub : (e :: chains b).Subperm s.heap.live :=
      (List.nodup_cons.mpr ⟨hout, hnodup⟩).subperm fun a ha => by
        rcases List.mem_cons.mp ha with rfl | ha
        · exact hlive
        · exact h.live a (h.mem_ages ha)
    have hle := hsub.length_le
    rw [hc, List.length_cons, List.length_append, List.length_singleton] at hle
    omega
  rw [hc] at hfirst hnodup hpush hout
  rw [placeFirst_eq hfirst]
  have hlast := lastInChain_eq (m := { s.heap with
    p_next := Function.update s.heap.p_next e (l ++ [v]).head?
    p_prev := relink (Function.update s.heap.p_prev e none) (l ++ [v]).head? (some e) })
    hpush hbound
  -- the last entry is not the new one, nor any before it
  have hve : v ∉ e :: l := by
    rw [List.mem_cons, not_or]
    exact ⟨fun hve => hout (hve ▸ List.mem_append_right _ List.mem_cons_self),
      (nodup_around hnodup).2.1⟩
  have hremove := removeFromChain_of (b := b) (s := ⟨{ s.heap with
      p_next := Function.update s.heap.p_next e (l ++ [v]).head?
      p_prev := relink (Function.update s.heap.p_prev e none) (l ++ [v]).head? (some e) },
    { s.table with pp_entries := Function.update s.table.pp_entries b (some e) }⟩)
    (l := e :: l) (r := []) hpush (Function.update_self ..) hve h.aged h.oldest h.newest
    (nodup_around h.ages_nodup).2.1
  rw [Ght.makeRoom, if_pos hfull]
  simp only [Function.update_self, Option.bind_eq_bind, Option.bind_some, hlast, hremove]
  simp only [onHeap, EntryHeap.heFinalize, List.head?_nil, relink_none, List.append_nil,
    List.head?_cons, Function.update_idem]
  rfl

omit [DecidableEq Addr] in
/-- A table with the same fields and the same entries is listed alike. -/
theorem Listed.of_same {t : Ght Addr Data} (h : t.Listed ages chains)
    (hsame : ∀ a ∈ ages, t.heap.Same s.heap a) (htable : s.table = t.table) :
    s.Listed ages chains := by
  have hcongr := h.congr hsame
  rw [← htable] at hcongr
  exact hcongr

/-- The table of an insertion into a full bucket. -/
def replaced (s : Ght Addr Data) (b : UInt32) (e v : Addr) (l la ra : List Addr) :
    Ght Addr Data where
  heap := { s.heap with
    p_next := relink (Function.update s.heap.p_next e (l ++ [v]).head?) (e :: l).getLast? none
    p_prev := relink (Function.update s.heap.p_prev e none) (l ++ [v]).head? (some e)
    p_older := Function.update (relink s.heap.p_older ra.head? la.getLast?) e (la ++ ra).getLast?
    p_newer := relink (relink s.heap.p_newer la.getLast? ra.head?) (la ++ ra).getLast? (some e)
    live := s.heap.live.erase v }
  table := { s.table with
    pp_entries := Function.update s.table.pp_entries b (some e)
    p_oldest := (la ++ ra ++ [e]).head?
    p_newest := some e }

/-- In a full bucket the last entry is cut off, and its data and key are what the callback gets. -/
theorem Listed.placeBounded_eq (h : s.Listed (la ++ v :: ra) chains) (hc : chains b = l ++ [v])
    (hlive : e ∈ s.heap.live) (hnew : e ∉ la ++ v :: ra) {bucket_limit : UInt32}
    (hfull : bucket_limit ≠ 0 ∧ (s.table.p_nr b).toUInt32 ≥ bucket_limit) :
    s.placeBounded bucket_limit b e =
      some (s.replaced b e v l la ra, some (s.heap.p_data v, s.heap.key v)) := by
  rw [Ght.placeBounded, h.makeRoom hc hlive hnew hfull, Option.map_some]
  rw [linkNewest_eq (la ++ ra) rfl rfl]
  rfl

/-- To cut the last node off behind a new first one, or before it comes. -/
theorem next_replaced (field : Addr → Option Addr) {a : Addr} (he : e ∉ l) (hav : a ≠ v) :
    relink (Function.update field e (l ++ [v]).head?) (e :: l).getLast? none a =
      Function.update (Function.update (relink field l.getLast? none) v none) e l.head? a := by
  rcases List.eq_nil_or_concat l with rfl | ⟨l, x, rfl⟩
  · by_cases hae : a = e
    · subst hae
      simp
    · simp [hae, hav]
  · have hxe : x ≠ e := by
      rintro rfl
      exact he (by simp)
    have hend : (e :: l.concat x).getLast? = some x := by
      rw [List.concat_eq_append, ← List.cons_append, List.getLast?_concat]
    have hhead : (l.concat x ++ [v]).head? = (l.concat x).head? := by
      cases l <;> rfl
    have hlast : (l.concat x).getLast? = some x := by
      rw [List.concat_eq_append, List.getLast?_concat]
    rw [hend, hhead, hlast, relink_some, relink_some]
    by_cases hae : a = e
    · rw [hae, Function.update_of_ne hxe.symm, Function.update_self, Function.update_self]
    · rw [Function.update_of_ne hae, Function.update_of_ne hav]
      by_cases hax : a = x
      · rw [hax, Function.update_self, Function.update_self]
      · rw [Function.update_of_ne hax, Function.update_of_ne hae, Function.update_of_ne hax]

/-- To cut the last node off behind a new first one, as seen from the links back. -/
theorem prev_replaced (field : Addr → Option Addr) {a : Addr} (hav : a ≠ v) :
    relink (Function.update field e none) (l ++ [v]).head? (some e) a =
      relink (Function.update (Function.update field v none) e none) l.head? (some e) a := by
  cases l with
  | nil =>
    by_cases hae : a = e
    · subst hae
      simp [hav]
    · simp [hae, hav]
  | cons y l =>
    by_cases hay : a = y
    · simp [hay]
    · by_cases hae : a = e
      · subst hae
        simp [hay]
      · simp [hay, hae, hav]

/-- A table whose last entry is cut off behind a new one is that in which it was removed before, but
for what stands in that entry. -/
theorem Listed.replaced (h : s.Listed (la ++ v :: ra) chains)
    (hc : chains (s.table.bucket key) = l ++ [v]) (hlive : e ∈ s.heap.live)
    (hnew : e ∉ la ++ v :: ra) (hnewer : s.heap.p_newer e = none)
    (hview : s.heap.view e = (key, some p_data))
    (hsize : s.heap.size e = sizeofEntry + key.length)
    (hkey : s.entryOf (la ++ v :: ra) key = none) :
    (s.replaced (s.table.bucket key) e v l la ra).Listed (la ++ ra ++ [e])
      (Function.update chains (s.table.bucket key) (e :: l)) := by
  have hev : e ≠ v := fun hev => hnew (hev ▸ List.mem_append_right _ List.mem_cons_self)
  have hout : e ∉ la ++ ra := fun he => by
    rcases List.mem_append.mp he with he | he
    · exact hnew (List.mem_append_left _ he)
    · exact hnew (List.mem_append_right _ (List.mem_cons_of_mem v he))
  have hvb : s.table.bucket (s.heap.key v) = s.table.bucket key :=
    ((h.bucket _ v).mp (hc ▸ List.mem_append_right _ List.mem_cons_self)).2
  -- as if the last entry were removed first and the new one placed then
  have hremoved := h.unlinkEntry (r := []) rfl (hvb ▸ hc)
  rw [hvb, List.append_nil] at hremoved
  have hkey' : Ght.entryOf ((s.unlinkEntry (s.table.bucket key) v).onHeap (·.heFinalize v))
      (la ++ ra) key = none := by
    rw [h.unlinkEntry_eq (r := []) hc]
    rw [entryOf, List.find?_eq_none] at hkey ⊢
    exact fun a ha => hkey a ((mem_around h.ages_nodup).mp ha).2
  have hplaced := @Listed.placeEntry _ _ _ _ _ e key p_data _ hremoved
  rw [hremoved.placeEntry_eq, h.unlinkEntry_eq (r := []) hc] at hplaced
  rw [h.unlinkEntry_eq (r := []) hc] at hkey'
  have hla : e ∉ la := fun he => hout (List.mem_append_left _ he)
  have h' := hplaced ((List.mem_erase_of_ne hev).mpr hlive) hout
    ((relink_getLast_of_notMem hla).trans hnewer) hview hsize hkey'
  -- the two updates of the bucket's chain are one
  have hchains : ∀ b, Function.update (Function.update chains b l) b
      (e :: Function.update chains b l b) = Function.update chains b (e :: l) := by
    intro b
    rw [Function.update_self, Function.update_idem]
  have hel : e ∉ l := fun he =>
    hnew (h.mem_ages (b := s.table.bucket key) (hc ▸ List.mem_append_left [v] he))
  rw [← hchains]
  -- the memory that the source leaves agrees with that on the entries of the table
  refine Listed.of_same h' (fun a ha => ?_) ?_
  -- the freed entry is not among them
  · have hav : a ≠ v := by
      rcases List.mem_append.mp ha with ha | ha
      · exact ((mem_around h.ages_nodup).mp ha).1
      · exact List.mem_singleton.mp ha ▸ hev
    have hback := Function.update_self (s.table.bucket key) l chains
    constructor
    case live => exact h'.live a ha
    case p_next =>
      show relink (Function.update s.heap.p_next e (l ++ [v]).head?) (e :: l).getLast? none a =
        Function.update (Function.update (relink s.heap.p_next l.getLast? none) v none) e
          (Function.update chains (s.table.bucket key) l (s.table.bucket key)).head? a
      rw [hback]
      exact next_replaced s.heap.p_next hel hav
    case p_prev =>
      show relink (Function.update s.heap.p_prev e none) (l ++ [v]).head? (some e) a =
        relink (Function.update (Function.update s.heap.p_prev v none) e none)
          (Function.update chains (s.table.bucket key) l (s.table.bucket key)).head? (some e) a
      rw [hback]
      exact prev_replaced s.heap.p_prev hav
    case key => rfl
    case p_data => rfl
    case p_older => rfl
    case p_newer => rfl
    case size => rfl
  · show _ = { s.table with
      i_items := s.table.i_items - 1 + 1
      pp_entries := Function.update (Function.update s.table.pp_entries (s.table.bucket key)
        (l ++ []).head?) (s.table.bucket key) (some e)
      p_nr := Function.update (Function.update s.table.p_nr (s.table.bucket key)
        (s.table.p_nr (s.table.bucket key) - 1)) (s.table.bucket key)
        (Function.update s.table.p_nr (s.table.bucket key) (s.table.p_nr (s.table.bucket key) - 1)
          (s.table.bucket key) + 1)
      p_oldest := (la ++ ra ++ [e]).head?
      p_newest := some e }
    rw [UInt32.sub_add_cancel, Function.update_idem, Function.update_self, Function.update_idem,
      Int32.sub_add_cancel, Function.update_eq_self]
    rfl

end Ght

end VfsRedirector
