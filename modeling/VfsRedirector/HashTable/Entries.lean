import VfsRedirector.HashTable.Chains

/-!
# The entries of a hash table

An insertion puts a new entry in front of its chain and at the end of the list by
age; a removal takes an entry out of both. What is not an entry of the table is left
alone (`Same`), also by a rehash in the middle of an insertion, of which only
`Carried` is used here.

## Results

* `Listed.placeEntry` — a new entry in front of its chain, and the newest.
* `Listed.insertWith` — an insertion, whatever is done about too many items.
* `Listed.unlinkEntry` — an entry is out of both lists, and freed.
* `Listed.ghtGet`, `Listed.ghtReplace`, `Listed.ghtRemove` — the operations on the
  entry of a key.
-/

namespace VfsRedirector

open Library

variable {Addr Data : Type}

/-- The entry is allocated, and is what it was in `m`. -/
structure EntryHeap.Same (m m' : EntryHeap Addr Data) (a : Addr) : Prop where
  live : a ∈ m'.live
  p_next : m'.p_next a = m.p_next a
  p_prev : m'.p_prev a = m.p_prev a
  key : m'.key a = m.key a
  p_data : m'.p_data a = m.p_data a
  p_older : m'.p_older a = m.p_older a
  p_newer : m'.p_newer a = m.p_newer a
  size : m'.size a = m.size a

theorem EntryHeap.Same.trans {m m' m'' : EntryHeap Addr Data} {a : Addr} (h : m.Same m' a)
    (h' : m'.Same m'' a) : m.Same m'' a where
  live := h'.live
  p_next := h'.p_next.trans h.p_next
  p_prev := h'.p_prev.trans h.p_prev
  key := h'.key.trans h.key
  p_data := h'.p_data.trans h.p_data
  p_older := h'.p_older.trans h.p_older
  p_newer := h'.p_newer.trans h.p_newer
  size := h'.size.trans h.size

/-- The key of an entry and its data. -/
def EntryHeap.view (m : EntryHeap Addr Data) (a : Addr) : List UInt8 × Option Data :=
  (m.key a, m.p_data a)

/-- An entry that is the same has its key and its data. -/
theorem EntryHeap.Same.view {m m' : EntryHeap Addr Data} {a : Addr} (h : m.Same m' a) :
    m'.view a = m.view a := by
  rw [EntryHeap.view, EntryHeap.view, h.key, h.p_data]

/-- `m'` is the heap with a new entry. -/
structure EntryHeap.Created (m m' : EntryHeap Addr Data) (e : Addr) (key : List UInt8)
    (p_data : Data) : Prop where
  fresh : e ∉ m.live
  live : m'.live = e :: m.live
  view : m'.view e = (key, some p_data)
  size : m'.size e = sizeofEntry + key.length
  newer : m'.p_newer e = none
  kept : ∀ a ∈ m.live, m.Same m' a

/-- A new entry is allocated. -/
theorem EntryHeap.Created.mem {m m' : EntryHeap Addr Data} {e : Addr} {key : List UInt8}
    {p_data : Data} (h : m.Created m' e key p_data) : e ∈ m'.live := h.live ▸ List.mem_cons_self

/-- The memory that an operation asks for is there. -/
structure Allocator.Succeeds (alloc : Allocator Addr) : Prop where
  entry : ∀ live, (alloc.entry live).isSome
  table : alloc.table = true

namespace Ght

variable {s : Ght Addr Data} {ages : List Addr} {chains : UInt32 → List Addr} {b : UInt32}
  {a e : Addr} {c l r : List Addr} {key : List UInt8} {p_data : Data} {alloc : Allocator Addr}

/-- A table is what it was in a heap that has the same for its entries. -/
theorem Listed.congr (h : s.Listed ages chains) {heap : EntryHeap Addr Data}
    (hsame : ∀ a ∈ ages, s.heap.Same heap a) : Listed ⟨heap, s.table⟩ ages chains where
  live a ha := (hsame a ha).live
  stored a ha := by
    rw [(hsame a ha).p_data]
    exact h.stored a ha
  sized a ha := by
    rw [(hsame a ha).size, (hsame a ha).key]
    exact h.sized a ha
  keys := by
    rw [List.map_congr_left fun a ha => (hsame a ha).key]
    exact h.keys
  aged := (seg_congr fun a ha => ⟨(hsame a ha).p_newer, (hsame a ha).p_older⟩).mpr h.aged
  oldest := h.oldest
  newest := h.newest
  items := h.items
  bucket b a := by
    rw [h.bucket b a]
    exact and_congr_right fun ha => by rw [(hsame a ha).key]
  nodup := h.nodup
  chained b := (seg_congr fun a ha =>
    ⟨(hsame a (h.mem_ages ha)).p_next, (hsame a (h.mem_ages ha)).p_prev⟩).mpr (h.chained b)
  first := h.first
  nr := h.nr
  size := h.size

/-- The settings do not matter to what a table has. -/
theorem Listed.settings (h : s.Listed ages chains) (i_heuristics : Int)
    (i_automatic_rehash : Bool) :
    Listed ⟨s.heap, { s.table with i_heuristics, i_automatic_rehash }⟩ ages chains where
  live := h.live
  stored := h.stored
  sized := h.sized
  keys := h.keys
  aged := h.aged
  oldest := h.oldest
  newest := h.newest
  items := h.items
  bucket := h.bucket
  nodup := h.nodup
  chained := h.chained
  first := h.first
  nr := h.nr
  size := h.size

/-- No entry is found if none has the key. -/
theorem entryOf_eq_none_iff :
    s.entryOf ages key = none ↔ ∀ v ∈ ages.map s.heap.view, v.1 ≠ key := by
  rw [entryOf, List.find?_eq_none]
  simp [EntryHeap.view]

/-- The same contents in other entries, and nothing else touched: what is asked of a
rehash. -/
structure Rebuilt (s s' : Ght Addr Data) (ages ages' : List Addr)
    (chains' : UInt32 → List Addr) : Prop where
  listed : s'.Listed ages' chains'
  hash : s'.table.fn_hash = s.table.fn_hash
  view : ages'.map s'.heap.view = ages.map s.heap.view
  others : ∀ a ∈ s.heap.live, a ∉ ages → s.heap.Same s'.heap a ∧ a ∉ ages'

/-- The contents in other entries, as far as there is memory for them, and then `new`. None
are missing where the operation is `lossless`; no entry is left behind. -/
structure Carried (lossless : Prop) (s s' : Ght Addr Data) (ages ages' : List Addr)
    (chains' : UInt32 → List Addr) (new : List (List UInt8 × Option Data)) : Prop where
  listed : s'.Listed ages' chains'
  hash : s'.table.fn_hash = s.table.fn_hash
  heuristics : s'.table.i_heuristics = s.table.i_heuristics
  auto : s'.table.i_automatic_rehash = s.table.i_automatic_rehash
  view : ∃ old, ages'.map s'.heap.view = old ++ new ∧ old.Sublist (ages.map s.heap.view) ∧
    (lossless → old = ages.map s.heap.view)
  others : ∀ a ∈ s.heap.live, a ∉ ages → s.heap.Same s'.heap a ∧ a ∉ ages'
  memory : ∀ others, s.heap.live.Perm (ages ++ others) → s'.heap.live.Perm (ages' ++ others)

/-- A table is its own contents in the entries that it has. -/
theorem Listed.carried_self (h : s.Listed ages chains) (lossless : Prop) :
    Carried lossless s s ages ages chains [] where
  listed := h
  hash := rfl
  heuristics := rfl
  auto := rfl
  view := ⟨_, (List.append_nil _).symm, List.Sublist.refl _, fun _ => rfl⟩
  others _ ha hout := ⟨⟨ha, rfl, rfl, rfl, rfl, rfl, rfl, rfl⟩, hout⟩
  memory _ hlive := hlive

/-- Without a loss the contents are those of before, and then the new ones. -/
theorem Carried.view_eq {lossless : Prop} {s' : Ght Addr Data} {ages' : List Addr}
    {chains' : UInt32 → List Addr} {new : List (List UInt8 × Option Data)}
    (h : Carried lossless s s' ages ages' chains' new) (hloss : lossless) :
    ages'.map s'.heap.view = ages.map s.heap.view ++ new := by
  obtain ⟨old, hview, -, hold⟩ := h.view
  rw [hview, hold hloss]

/-- A table whose contents are carried over without a loss, and nothing added, is rebuilt. -/
theorem Carried.rebuilt {lossless : Prop} {s' : Ght Addr Data} {ages' : List Addr}
    {chains' : UInt32 → List Addr} (h : Carried lossless s s' ages ages' chains' [])
    (hloss : lossless) : Rebuilt s s' ages ages' chains' where
  listed := h.listed
  hash := h.hash
  view := (h.view_eq hloss).trans (List.append_nil _)
  others := h.others

/-- What is in a list besides `e`. -/
theorem mem_around (hnodup : (l ++ e :: r).Nodup) : a ∈ l ++ r ↔ a ≠ e ∧ a ∈ l ++ e :: r := by
  obtain ⟨-, hl, hr, -⟩ := nodup_around hnodup
  rw [List.mem_append, List.mem_append, List.mem_cons]
  constructor
  · rintro (ha | ha)
    · exact ⟨ne_of_mem_of_not_mem ha hl, .inl ha⟩
    · exact ⟨ne_of_mem_of_not_mem ha hr, .inr (.inr ha)⟩
  · rintro ⟨hne, ha | rfl | ha⟩
    · exact .inl ha
    · exact absurd rfl hne
    · exact .inr ha

-- ---------------------------------------------------------------------------
-- A new entry
-- ---------------------------------------------------------------------------

variable [DecidableEq Addr]

/-- With memory for it an entry is created with the key and the data. -/
theorem heCreate_of {m : EntryHeap Addr Data} (he : alloc.entry m.live = some e) (p_data : Data)
    (key : List UInt8) :
    ∃ m', m.heCreate alloc p_data key = some (m', e) ∧ m.Created m' e key p_data := by
  have hfresh := alloc.fresh m.live e he
  refine ⟨_, by rw [EntryHeap.heCreate, he, Option.map_some], hfresh, rfl,
    ?_, Function.update_self .., Function.update_self .., fun a ha => ?_⟩
  · exact Prod.ext (Function.update_self ..) (Function.update_self ..)
  · have hne : a ≠ e := ne_of_mem_of_not_mem ha hfresh
    exact ⟨List.mem_cons_of_mem e ha, Function.update_of_ne hne _ _,
      Function.update_of_ne hne _ _, Function.update_of_ne hne _ _, Function.update_of_ne hne _ _,
      Function.update_of_ne hne _ _, Function.update_of_ne hne _ _, Function.update_of_ne hne _ _⟩

/-- To place an entry is to link it in front of its bucket and behind the newest. -/
theorem Listed.placeEntry_eq (h : s.Listed ages chains) (b : UInt32) (e : Addr) :
    s.placeEntry b e =
      { heap := { s.heap with
          p_next := Function.update s.heap.p_next e (chains b).head?
          p_prev := relink (Function.update s.heap.p_prev e none) (chains b).head? (some e)
          p_older := Function.update s.heap.p_older e ages.getLast?
          p_newer := relink s.heap.p_newer ages.getLast? (some e) }
        table := { s.table with
          pp_entries := Function.update s.table.pp_entries b (some e)
          p_nr := Function.update s.table.p_nr b (s.table.p_nr b + 1)
          i_items := s.table.i_items + 1
          p_oldest := (ages ++ [e]).head?
          p_newest := some e } } := by
  have holdest := h.oldest
  have hnewest := h.newest
  have hfirst := h.first b
  -- p_oldest is written only when the table was empty
  cases ages with
  | nil =>
    simp only [placeEntry, onHeap, setEntries, setNr, EntryHeap.setNext, EntryHeap.setPrev,
      EntryHeap.setOlder, EntryHeap.setNewer, relink_some, hfirst, holdest, hnewest,
      List.head?_nil, if_true]
    rfl
  | cons o ages =>
    have hsome : ¬ some o = none := Option.some_ne_none o
    simp only [placeEntry, onHeap, setEntries, setNr, EntryHeap.setNext, EntryHeap.setPrev,
      EntryHeap.setOlder, EntryHeap.setNewer, relink_some, hfirst, holdest, hnewest,
      List.head?_cons, hsome, if_false, List.cons_append]

/-- The entry is in front of its chain, and the newest. -/
theorem Listed.placeEntry (h : s.Listed ages chains) (hlive : e ∈ s.heap.live) (hnew : e ∉ ages)
    (hnewer : s.heap.p_newer e = none) (hview : s.heap.view e = (key, some p_data))
    (hsize : s.heap.size e = sizeofEntry + key.length)
    (hkey : s.entryOf ages key = none) :
    (s.placeEntry (s.table.bucket key) e).Listed (ages ++ [e])
      (Function.update chains (s.table.bucket key) (e :: chains (s.table.bucket key))) := by
  obtain ⟨hek, hed⟩ := Prod.mk.inj hview
  have hnotin : ∀ b, e ∉ chains b := fun b he => hnew (h.mem_ages he)
  rw [h.placeEntry_eq]
  constructor
  case live =>
    intro a ha
    rcases List.mem_append.mp ha with ha | ha
    · exact h.live a ha
    · exact List.mem_singleton.mp ha ▸ hlive
  case stored =>
    intro a ha
    rcases List.mem_append.mp ha with ha | ha
    · exact h.stored a ha
    · rw [List.mem_singleton.mp ha, hed]
      rfl
  case sized =>
    intro a ha
    rcases List.mem_append.mp ha with ha | ha
    · exact h.sized a ha
    · rw [List.mem_singleton.mp ha, hek]
      exact hsize
  -- the new key was in no entry
  case keys =>
    rw [List.map_append, List.nodup_append]
    refine ⟨h.keys, List.nodup_singleton _, fun k hk k' hk' heq => ?_⟩
    obtain ⟨a, ha, rfl⟩ := List.mem_map.mp hk
    rw [List.map_singleton, List.mem_singleton, hek] at hk'
    rw [entryOf, List.find?_eq_none] at hkey
    exact hkey a ha (by simpa using heq.trans hk')
  -- the entry becomes the newest
  case aged => exact h.aged.snoc h.ages_nodup hnew hnewer
  case oldest => rfl
  case newest => rw [List.getLast?_concat]
  case items =>
    rw [List.length_append, List.length_singleton, UInt32.ofNat_add, ← h.items]
    rfl
  -- the chain of its bucket gains the entry; the others stay
  case bucket =>
    refine (Function.forall_update_iff chains fun b c =>
      ∀ a, a ∈ c ↔ a ∈ ages ++ [e] ∧ s.table.bucket (s.heap.key a) = b).mpr
        ⟨fun a => ?_, fun b hne a => ?_⟩
    · rw [List.mem_cons, h.bucket, List.mem_append, List.mem_singleton]
      constructor
      · rintro (rfl | ⟨ha, hb⟩)
        · exact ⟨.inr rfl, by rw [hek]⟩
        · exact ⟨.inl ha, hb⟩
      · rintro ⟨ha | ha, hb⟩
        · exact .inr ⟨ha, hb⟩
        · exact .inl ha
    · rw [h.bucket, List.mem_append, List.mem_singleton]
      constructor
      · exact fun ha => ⟨.inl ha.1, ha.2⟩
      · rintro ⟨ha | rfl, hb⟩
        · exact ⟨ha, hb⟩
        · exact absurd (hb.symm.trans (by rw [hek])) hne
  case nodup =>
    refine (Function.forall_update_iff chains fun _ c => c.Nodup).mpr ⟨?_, fun b _ => h.nodup b⟩
    exact List.nodup_cons.mpr ⟨hnotin _, h.nodup _⟩
  -- pushed at the head of its chain; the links of the other chains are apart
  case chained =>
    refine (Function.forall_update_iff chains fun _ c => Chain _ _ c).mpr ⟨?_, fun b hne => ?_⟩
    · exact (h.chained _).push (h.nodup _) (hnotin _)
    · refine (seg_congr fun a ha => ?_).mpr (h.chained b)
      have hae : a ≠ e := ne_of_mem_of_not_mem ha (hnotin b)
      have hb : a ∉ chains (s.table.bucket key) := fun hb => hne (h.bucket_unique ha hb)
      exact ⟨Function.update_of_ne hae _ _,
        (relink_head_of_notMem hb).trans (Function.update_of_ne hae _ _)⟩
  -- p_nr and pp_entries are written at the one bucket
  case first =>
    refine (Function.forall_update_iff chains fun b c =>
      Function.update s.table.pp_entries _ (some e) b = c.head?).mpr ⟨?_, fun b hne => ?_⟩
    · rw [Function.update_self]
      rfl
    · rw [Function.update_of_ne hne]
      exact h.first b
  case nr =>
    refine (Function.forall_update_iff chains fun b c =>
      Function.update s.table.p_nr _ _ b = Int32.ofNat c.length).mpr ⟨?_, fun b hne => ?_⟩
    · rw [Function.update_self, List.length_cons, Int32.ofNat_add, ← h.nr]
      rfl
    · rw [Function.update_of_ne hne]
      exact h.nr b
  case size => exact h.size

-- ---------------------------------------------------------------------------
-- ght_insert
-- ---------------------------------------------------------------------------

/-- An insertion of a new key, whatever is done about too many items. -/
theorem Listed.insertWith (h : s.Listed ages chains) (he : alloc.entry s.heap.live = some e)
    (p_data : Data) (rehash : Ght Addr Data → Option (Ght Addr Data)) {lossless : Prop}
    (hrehash : ∀ s' : Ght Addr Data, s'.Listed ages chains → s'.table = s.table →
      ∃ s'' ages' chains', rehash s' = some s'' ∧ Carried lossless s' s'' ages ages' chains' [])
    (hkey : s.entryOf ages key = none) :
    ∃ s' ages' chains', s.insertWith alloc p_data key rehash = some (s', .GHT_OK) ∧
      Carried lossless s s' ages ages' chains' [(key, some p_data)] := by
  obtain ⟨heap, hcreate, hc⟩ := heCreate_of (m := s.heap) he p_data key
  -- the memory for the entry is made before the table may be rehashed
  have hnew : e ∉ ages := fun he => hc.fresh (h.live e he)
  obtain ⟨s', ages', chains', hrun, hcarried⟩ :=
    hrehash ⟨heap, s.table⟩ (h.congr fun a ha => hc.kept a (h.live a ha)) rfl
  obtain ⟨hesame, henew⟩ := hcarried.others e hc.mem hnew
  have hviews : ages.map heap.view = ages.map s.heap.view :=
    List.map_congr_left fun a ha => (hc.kept a (h.live a ha)).view
  obtain ⟨old, hold, hsub, hexact⟩ := hcarried.view
  rw [List.append_nil] at hold
  rw [show ages.map (Ght.heap ⟨heap, s.table⟩).view = _ from hviews] at hsub hexact
  -- a rehash adds no key
  have hkey' : s'.entryOf ages' key = none := by
    rw [entryOf_eq_none_iff, hold]
    exact fun v hv => entryOf_eq_none_iff.mp hkey v (hsub.subset hv)
  -- the entry goes into the table that the rehash left
  have hplaced := hcarried.listed.placeEntry hesame.live henew (hesame.p_newer.trans hc.newer)
    (hesame.view.trans hc.view) (hesame.size.trans hc.size) hkey'
  refine ⟨s'.placeEntry (s'.table.bucket key) e, ages' ++ [e], _, ?_, hplaced,
    ?_, ?_, ?_, ?_, ?_, ?_⟩
  · rw [Ght.insertWith, h.searchInBucket_zero]
    simp only [Option.bind_eq_bind, Option.bind_some, hkey, hcreate, hrun]
    rfl
  · rw [hcarried.listed.placeEntry_eq]
    exact hcarried.hash
  · rw [hcarried.listed.placeEntry_eq]
    exact hcarried.heuristics
  · rw [hcarried.listed.placeEntry_eq]
    exact hcarried.auto
  · have hheap : (s'.placeEntry (s'.table.bucket key) e).heap.view = s'.heap.view := by
      rw [hcarried.listed.placeEntry_eq]
      rfl
    refine ⟨old, ?_, hsub, hexact⟩
    rw [hheap, List.map_append, List.map_singleton, hold, hesame.view.trans hc.view]
  · intro a ha hage
    have hae : a ≠ e := ne_of_mem_of_not_mem ha hc.fresh
    have hkeep := hc.kept a ha
    obtain ⟨hasame, hanew⟩ := hcarried.others a hkeep.live hage
    have hchain : a ∉ chains' (s'.table.bucket key) := fun hb =>
      hanew (hcarried.listed.mem_ages hb)
    refine ⟨hkeep.trans (hasame.trans ?_), ?_⟩
    · rw [hcarried.listed.placeEntry_eq]
      exact ⟨hasame.live, Function.update_of_ne hae _ _,
        (relink_head_of_notMem hchain).trans (Function.update_of_ne hae _ _), rfl, rfl,
        Function.update_of_ne hae _ _, relink_getLast_of_notMem hanew, rfl⟩
    · rw [List.mem_append, List.mem_singleton, not_or]
      exact ⟨hanew, hae⟩
  · intro others hperm
    rw [hcarried.listed.placeEntry_eq, List.append_assoc, List.singleton_append]
    refine hcarried.memory (e :: others) ?_
    show heap.live.Perm (ages ++ e :: others)
    rw [hc.live]
    exact (hperm.cons e).trans List.perm_middle.symm

/-- An insertion of a new key without memory for the entry. -/
theorem Listed.insertWith_noMemory (h : s.Listed ages chains)
    (hno : alloc.entry s.heap.live = none) (p_data : Data)
    (rehash : Ght Addr Data → Option (Ght Addr Data)) (hkey : s.entryOf ages key = none) :
    s.insertWith alloc p_data key rehash = some (s, .GHT_ERROR) := by
  have hcreate : s.heap.heCreate alloc p_data key = none := by
    rw [EntryHeap.heCreate, hno, Option.map_none]
  rw [Ght.insertWith, h.searchInBucket_zero]
  simp only [Option.bind_eq_bind, Option.bind_some, hkey, hcreate]
  rfl

/-- An insertion of a key that is there. -/
theorem Listed.insertWith_present (h : s.Listed ages chains) (p_data : Data)
    (rehash : Ght Addr Data → Option (Ght Addr Data)) (hkey : s.entryOf ages key = some e) :
    s.insertWith alloc p_data key rehash = some (s, .GHT_ALREADY_IN_HASH) := by
  rw [Ght.insertWith, h.searchInBucket_zero]
  simp only [Option.bind_eq_bind, Option.bind_some, hkey]
  rfl

-- ---------------------------------------------------------------------------
-- ght_get and ght_replace
-- ---------------------------------------------------------------------------

/-- A lookup returns the data of the entry of the key, and may move it in its chain. -/
theorem Listed.ghtGet (h : s.Listed ages chains) (key : List UInt8) :
    ∃ s' chains', s.ghtGet key = some (s', (s.entryOf ages key).bind s.heap.p_data) ∧
      s'.Listed ages chains' ∧ s'.heap.view = s.heap.view := by
  obtain ⟨next, prev, c, hr, hsearch⟩ := h.searchInBucket key (UInt8.ofInt s.table.i_heuristics)
  refine ⟨_, _, ?_, h.rechained hr, rfl⟩
  rw [Ght.ghtGet, search, hsearch]
  rfl

/-- Other data for an entry. -/
theorem Listed.setData (h : s.Listed ages chains) (e : Addr) (p_data : Data) :
    (s.onHeap (·.setData e p_data)).Listed ages chains where
  live := h.live
  stored a ha := by
    rcases eq_or_ne a e with rfl | hne
    · show (Function.update s.heap.p_data a (some p_data) a).isSome
      rw [Function.update_self]
      rfl
    · show (Function.update s.heap.p_data e (some p_data) a).isSome
      rw [Function.update_of_ne hne]
      exact h.stored a ha
  sized := h.sized
  keys := h.keys
  aged := h.aged
  oldest := h.oldest
  newest := h.newest
  items := h.items
  bucket := h.bucket
  nodup := h.nodup
  chained := h.chained
  first := h.first
  nr := h.nr
  size := h.size

/-- Where there is no such entry nothing is replaced. -/
theorem Listed.ghtReplace_none (h : s.Listed ages chains) (p_data : Data)
    (hkey : s.entryOf ages key = none) :
    ∃ s' chains', s.ghtReplace p_data key = some (s', none) ∧ s'.Listed ages chains' ∧
      s'.heap.view = s.heap.view := by
  obtain ⟨next, prev, c, hr, hsearch⟩ := h.searchInBucket key (UInt8.ofInt s.table.i_heuristics)
  refine ⟨_, _, ?_, h.rechained hr, rfl⟩
  rw [Ght.ghtReplace, search, hsearch, hkey]
  rfl

/-- Where there is one it gets the new data, and the old is returned. -/
theorem Listed.ghtReplace (h : s.Listed ages chains) (p_data : Data)
    (hkey : s.entryOf ages key = some e) :
    ∃ s' chains', s.ghtReplace p_data key = some (s', s.heap.p_data e) ∧
      s'.Listed ages chains' ∧
      s'.heap.view = Function.update s.heap.view e (key, some p_data) := by
  obtain ⟨next, prev, c, hr, hsearch⟩ := h.searchInBucket key (UInt8.ofInt s.table.i_heuristics)
  refine ⟨_, _, ?_, (h.rechained hr).setData e p_data, ?_⟩
  · rw [Ght.ghtReplace, search, hsearch, hkey]
    rfl
  · funext a
    rcases eq_or_ne a e with rfl | hne
    · rw [Function.update_self]
      exact Prod.ext (entryOf_key hkey) (Function.update_self ..)
    · rw [Function.update_of_ne hne]
      exact Prod.ext rfl (Function.update_of_ne hne _ _)

-- ---------------------------------------------------------------------------
-- ght_remove
-- ---------------------------------------------------------------------------

/-- An entry is taken out of its chain by linking its two neighbours. -/
theorem unlinkBucket_eq (hchain : Chain s.heap.p_next s.heap.p_prev (l ++ e :: r))
    (hfirst : s.table.pp_entries b = (l ++ [e]).head?) (hel : e ∉ l) :
    s.unlinkBucket b e =
      s.rechained b (relink s.heap.p_next l.getLast? r.head?)
        (relink s.heap.p_prev r.head? l.getLast?) (l ++ r) := by
  have hnext : s.heap.p_next e = r.head? := hchain.next_eq
  have hprev : s.heap.p_prev e = l.getLast? := hchain.prev_eq
  rcases List.eq_nil_or_concat l with rfl | ⟨l, p, rfl⟩
  · rw [List.getLast?_nil] at hprev
    simp only [unlinkBucket, hprev, hnext, onHeap, setEntries, EntryHeap.setPrev,
      List.getLast?_nil, relink_none]
    rfl
  · rw [List.concat_eq_append] at *
    rw [List.getLast?_concat] at hprev
    have hep : e ≠ p := fun heq => hel (heq ▸ List.mem_append_right _ List.mem_cons_self)
    have hhead : (l ++ [p] ++ r).head? = s.table.pp_entries b := by
      rw [hfirst]
      cases l <;> rfl
    simp only [unlinkBucket, hprev, hnext, onHeap, EntryHeap.setPrev, EntryHeap.setNext,
      relink_some, List.getLast?_concat, Function.update_of_ne hep, Ght.rechained, hhead,
      Function.update_eq_self]

/-- An entry is taken out of the list by age by linking its two neighbours. -/
theorem unlinkAge_eq (haged : Chain s.heap.p_newer s.heap.p_older (l ++ e :: r))
    (holdest : s.table.p_oldest = (l ++ e :: r).head?)
    (hnewest : s.table.p_newest = (l ++ e :: r).getLast?) (hel : e ∉ l) :
    s.unlinkAge e =
      { heap := { s.heap with
          p_newer := relink s.heap.p_newer l.getLast? r.head?
          p_older := relink s.heap.p_older r.head? l.getLast? }
        table := { s.table with
          p_oldest := (l ++ r).head?
          p_newest := (l ++ r).getLast? } } := by
  have hnewer : s.heap.p_newer e = r.head? := haged.next_eq
  have holder : s.heap.p_older e = l.getLast? := haged.prev_eq
  -- is the entry the oldest, and is it the newest: four cases, as the source has them
  rcases List.eq_nil_or_concat l with rfl | ⟨l, p, rfl⟩
  · cases r with
    | nil =>
      simp only [unlinkAge, holder, hnewer, List.getLast?_nil, List.head?_nil, relink_none]
      rfl
    | cons n r =>
      have hlast : s.table.p_newest = (n :: r).getLast? := by
        rw [hnewest, List.nil_append, List.getLast?_cons_cons]
      simp only [unlinkAge, holder, hnewer, onHeap, EntryHeap.setOlder, List.getLast?_nil,
        List.head?_cons, relink_none, relink_some, List.nil_append, ← hlast]
  · rw [List.concat_eq_append] at *
    rw [List.getLast?_concat] at holder
    have hep : e ≠ p := fun heq => hel (heq ▸ List.mem_append_right _ List.mem_cons_self)
    have hhead : s.table.p_oldest = (l ++ [p] ++ r).head? := by
      rw [holdest]
      cases l <;> rfl
    cases r with
    | nil =>
      simp only [unlinkAge, holder, hnewer, onHeap, EntryHeap.setNewer, List.getLast?_concat,
        List.head?_nil, relink_none, relink_some, List.append_nil, Function.update_of_ne hep,
        hhead]
    | cons n r =>
      have hlast : s.table.p_newest = (l ++ [p] ++ n :: r).getLast? := by
        rw [hnewest, List.getLast?_append_cons, List.getLast?_append_cons,
          List.getLast?_cons_cons]
      simp only [unlinkAge, holder, hnewer, onHeap, EntryHeap.setNewer, EntryHeap.setOlder,
        List.getLast?_concat, List.head?_cons, relink_some, Function.update_of_ne hep,
        ← hhead, ← hlast]

/-- The entry is taken out of both lists. -/
theorem Listed.removeFromChain_eq {la ra : List Addr} (h : s.Listed (la ++ e :: ra) chains)
    (hc : chains b = l ++ e :: r) :
    s.removeFromChain b e =
      { heap := { s.heap with
          p_next := relink s.heap.p_next l.getLast? r.head?
          p_prev := relink s.heap.p_prev r.head? l.getLast?
          p_newer := relink s.heap.p_newer la.getLast? ra.head?
          p_older := relink s.heap.p_older ra.head? la.getLast? }
        table := { s.table with
          pp_entries := Function.update s.table.pp_entries b (l ++ r).head?
          p_oldest := (la ++ ra).head?
          p_newest := (la ++ ra).getLast? } } := by
  have hchain := h.chained b
  have hnodup := h.nodup b
  have hfirst : s.table.pp_entries b = (l ++ [e]).head? := by
    rw [h.first, hc]
    cases l <;> rfl
  rw [hc] at hchain hnodup
  have haged : Chain (s.rechained b (relink s.heap.p_next l.getLast? r.head?)
      (relink s.heap.p_prev r.head? l.getLast?) (l ++ r)).heap.p_newer _ _ := h.aged
  rw [removeFromChain, unlinkBucket_eq hchain hfirst (nodup_around hnodup).2.1,
    unlinkAge_eq haged h.oldest h.newest (nodup_around h.ages_nodup).2.1]
  rfl

/-- Where there is no entry of the key nothing is removed. -/
theorem Listed.ghtRemove_none (h : s.Listed ages chains) (hkey : s.entryOf ages key = none) :
    s.ghtRemove key = some (s, none) := by
  rw [Ght.ghtRemove]
  simp only [h.searchInBucket_zero, Option.bind_eq_bind, Option.bind_some, hkey]
  rfl

/-- An entry is unlinked from both lists, and the number of items goes down. -/
theorem Listed.unlinkEntry_eq {la ra : List Addr} (h : s.Listed (la ++ e :: ra) chains)
    (hc : chains b = l ++ e :: r) :
    s.unlinkEntry b e =
      { heap := { s.heap with
          p_next := Function.update (relink s.heap.p_next l.getLast? r.head?) e none
          p_prev := Function.update (relink s.heap.p_prev r.head? l.getLast?) e none
          p_newer := relink s.heap.p_newer la.getLast? ra.head?
          p_older := relink s.heap.p_older ra.head? la.getLast? }
        table := { s.table with
          i_items := s.table.i_items - 1
          p_nr := Function.update s.table.p_nr b (s.table.p_nr b - 1)
          pp_entries := Function.update s.table.pp_entries b (l ++ r).head?
          p_oldest := (la ++ ra).head?
          p_newest := (la ++ ra).getLast? } } := by
  rw [Ght.unlinkEntry, h.removeFromChain_eq hc]
  rfl

/-- The entry is in no list any more, and is freed. -/
theorem Listed.unlinkEntry {la ra : List Addr} (h : s.Listed (la ++ e :: ra) chains)
    (hekey : s.heap.key e = key) (hc : chains (s.table.bucket key) = l ++ e :: r) :
    ((s.unlinkEntry (s.table.bucket key) e).onHeap (·.heFinalize e)).Listed (la ++ ra)
      (Function.update chains (s.table.bucket key) (l ++ r)) := by
  -- the neighbours of the entry, in its chain and by age, close the gap
  have hchain := h.chained (s.table.bucket key)
  have hnodup := h.nodup (s.table.bucket key)
  rw [hc] at hchain hnodup
  have hages := h.ages_nodup
  rw [h.unlinkEntry_eq hc]
  constructor
  -- the other entries are not freed
  case live =>
    intro a ha
    obtain ⟨hne, ha⟩ := (mem_around hages).mp ha
    exact (List.mem_erase_of_ne hne).mpr (h.live a ha)
  case stored => exact fun a ha => h.stored a ((mem_around hages).mp ha).2
  case sized => exact fun a ha => h.sized a ((mem_around hages).mp ha).2
  case keys =>
    refine h.keys.sublist (List.Sublist.map _ ?_)
    exact List.Sublist.append_left (List.sublist_cons_self e ra) la
  case aged => exact h.aged.remove hages
  case oldest => rfl
  case newest => rfl
  case items =>
    have hlength : (la ++ e :: ra).length = (la ++ ra).length + 1 := by
      simp only [List.length_append, List.length_cons, Nat.add_assoc]
    show s.table.i_items - 1 = _
    rw [h.items, hlength, UInt32.ofNat_add]
    exact UInt32.add_sub_cancel _ _
  -- its chain loses the entry; the others do not have it
  case bucket =>
    refine (Function.forall_update_iff chains fun b c =>
      ∀ a, a ∈ c ↔ a ∈ la ++ ra ∧ s.table.bucket (s.heap.key a) = b).mpr
        ⟨fun a => ?_, fun b hne a => ?_⟩
    · rw [mem_around hages, mem_around hnodup, ← hc, h.bucket, and_assoc]
    · rw [mem_around hages, h.bucket, and_assoc]
      refine ⟨fun ha => ⟨?_, ha⟩, fun ha => ha.2⟩
      rintro rfl
      exact hne (ha.2.symm.trans (by rw [hekey]))
  case nodup =>
    refine (Function.forall_update_iff chains fun _ c => c.Nodup).mpr ⟨?_, fun b _ => h.nodup b⟩
    exact hnodup.sublist (List.Sublist.append_left (List.sublist_cons_self e r) l)
  -- the links of another chain do not touch the neighbours
  case chained =>
    refine (Function.forall_update_iff chains fun _ c => Chain _ _ c).mpr ⟨?_, fun b hne => ?_⟩
    · refine (seg_congr fun a ha => ?_).mpr (hchain.remove hnodup)
      have hae := ((mem_around hnodup).mp ha).1
      exact ⟨Function.update_of_ne hae _ _, Function.update_of_ne hae _ _⟩
    · refine (seg_congr fun a ha => ?_).mpr (h.chained b)
      have hout : a ∉ l ++ e :: r := fun hmem => hne (h.bucket_unique ha (hc ▸ hmem))
      simp only [List.mem_append, List.mem_cons, not_or] at hout
      obtain ⟨hl, hae, hr⟩ := hout
      exact ⟨(Function.update_of_ne hae _ _).trans (relink_getLast_of_notMem hl),
        (Function.update_of_ne hae _ _).trans (relink_head_of_notMem hr)⟩
  case first =>
    refine (Function.forall_update_iff chains fun b c =>
      Function.update s.table.pp_entries _ _ b = c.head?).mpr ⟨?_, fun b hne => ?_⟩
    · rw [Function.update_self]
    · rw [Function.update_of_ne hne]
      exact h.first b
  case nr =>
    have hlength : (l ++ e :: r).length = (l ++ r).length + 1 := by
      simp only [List.length_append, List.length_cons, Nat.add_assoc]
    refine (Function.forall_update_iff chains fun b c =>
      Function.update s.table.p_nr _ _ b = Int32.ofNat c.length).mpr ⟨?_, fun b hne => ?_⟩
    · rw [Function.update_self, h.nr, hc, hlength, Int32.ofNat_add]
      exact Int32.add_sub_cancel _ _
    · rw [Function.update_of_ne hne]
      exact h.nr b
  case size => exact h.size

/-- The entry of the key is taken out and freed, and its data returned. -/
theorem Listed.ghtRemove {la ra : List Addr} (h : s.Listed (la ++ e :: ra) chains)
    (hkey : s.entryOf (la ++ e :: ra) key = some e) :
    ∃ s' chains', s.ghtRemove key = some (s', s.heap.p_data e) ∧ s'.Listed (la ++ ra) chains' ∧
      s'.heap.view = s.heap.view := by
  have hekey := entryOf_key hkey
  have he : e ∈ chains (s.table.bucket key) :=
    (h.bucket _ e).mpr ⟨entryOf_mem hkey, by rw [hekey]⟩
  obtain ⟨l, r, hc⟩ := List.append_of_mem he
  refine ⟨_, _, ?_, h.unlinkEntry hekey hc, ?_⟩
  · rw [Ght.ghtRemove]
    simp only [h.searchInBucket_zero, Option.bind_eq_bind, Option.bind_some, hkey]
    rw [h.unlinkEntry_eq hc]
    rfl
  · rw [h.unlinkEntry_eq hc]
    rfl

end Ght

end VfsRedirector
