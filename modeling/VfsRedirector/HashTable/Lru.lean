import VfsRedirector.HashTable.Bounded
import VfsRedirector.HashTable.Contents
import VfsRedirector.Library.Recency

/-!
# The hash table as a cache

With a limit on its buckets a table is a cache. An insertion places its entry first in the
chain, and `move_to_front` does so with an entry that is found; so a chain is in the order
of last use, the most recent first. What an insertion into a full bucket frees is then
the entry of that bucket which was not used for the longest time (`CacheStep.full`). Without
heuristics the insertion is the only use of an entry. `transpose` keeps no such order, and
a rehash puts the chains in the order of insertion; both are left out here.

## Results

* `placed`, `displaced` — an insertion where there is room, and where there is none.
* `search` — a lookup is a use of the key, or nothing.
* `boundedTable_is_cache` — a table with limited buckets is a cache in every run.
-/

namespace VfsRedirector

open Library

variable {Addr Data : Type}

-- ---------------------------------------------------------------------------
-- What a cache does
-- ---------------------------------------------------------------------------

/-- What is called on the table, an insertion with the memory that there is then. -/
inductive CacheOp (Addr Data : Type) where
  | insert (alloc : Allocator Addr) (p_data : Data) (key : List UInt8)
  | get (key : List UInt8)
  | replace (p_data : Data) (key : List UInt8)
  | remove (key : List UInt8)

/-- What is returned, and what `fn_bucket_free` was called with. -/
inductive CacheResult (Data : Type) where
  | status (rc : GhtStatusCode) (freed : Option (BucketFree Data))
  | data (p_data : Option Data)

/-- The bucket of a key, the number of keys that a bucket may have, and whether an entry is
used when it is found. -/
structure CacheSettings where
  bucket : List UInt8 → UInt32
  limit : UInt32
  hits : Bool

/-- The keys with their data, and all keys that were used, in the order of the uses. -/
structure Cache (Data : Type) where
  map : KeyMap Data
  uses : List (List UInt8)

namespace Cache

/-- The keys of a bucket. -/
def keysIn (c : Cache Data) (g : CacheSettings) (b : UInt32) : List (List UInt8) :=
  c.map.keys.filter fun key => g.bucket key = b

/-- A key was found. -/
def found (c : Cache Data) (g : CacheSettings) (key : List UInt8) : Cache Data :=
  if g.hits ∧ key ∈ c.map then { c with uses := c.uses ++ [key] } else c

/-- A key is inserted that is not there. -/
def insert (c : Cache Data) (p_data : Data) (key : List UInt8) : Cache Data where
  map := c.map.insert key p_data
  uses := c.uses ++ [key]

def replace (c : Cache Data) (p_data : Data) (key : List UInt8) : Cache Data :=
  { c with map := c.map.replace key p_data }

def erase (c : Cache Data) (key : List UInt8) : Cache Data := { c with map := c.map.erase key }

end Cache

/-- The steps of a cache. -/
inductive CacheStep (g : CacheSettings) :
    Cache Data → CacheOp Addr Data → CacheResult Data → Cache Data → Prop where
  | present {c alloc p_data key} : key ∈ c.map →
    CacheStep g c (.insert alloc p_data key) (.status .GHT_ALREADY_IN_HASH none) c
  | noMemory {c alloc p_data key live} : key ∉ c.map → alloc.entry live = none →
    CacheStep g c (.insert alloc p_data key) (.status .GHT_ERROR none) c
  | room {c alloc p_data key} : key ∉ c.map →
    (c.keysIn g (g.bucket key)).length < g.limit.toNat →
    CacheStep g c (.insert alloc p_data key) (.status .GHT_OK none) (c.insert p_data key)
  /-- The oldest key of the bucket goes, and no other. -/
  | full {c alloc p_data key old data} : key ∉ c.map →
    (c.keysIn g (g.bucket key)).length = g.limit.toNat →
    old ∈ c.keysIn g (g.bucket key) → c.map.lookup old = some data →
    (∀ other ∈ c.keysIn g (g.bucket key), other ≠ old → UsedSince c.uses old other) →
    CacheStep g c (.insert alloc p_data key) (.status .GHT_OK (some (some data, old)))
      ((c.erase old).insert p_data key)
  | get {c key} : CacheStep g c (.get key) (.data (c.map.lookup key)) (c.found g key)
  | replace {c p_data key} :
    CacheStep g c (.replace p_data key) (.data (c.map.lookup key))
      ((c.found g key).replace p_data key)
  | remove {c key} : CacheStep g c (.remove key) (.data (c.map.lookup key)) (c.erase key)

/-- One step after the other. -/
inductive CacheRun (g : CacheSettings) :
    Cache Data → List (CacheOp Addr Data) → List (CacheResult Data) → Cache Data → Prop where
  | nil {c} : CacheRun g c [] [] c
  | cons {c c' c'' op ops result results} : CacheStep g c op result c' →
    CacheRun g c' ops results c'' → CacheRun g c (op :: ops) (result :: results) c''

-- ---------------------------------------------------------------------------
-- What the table does
-- ---------------------------------------------------------------------------

namespace BoundedGht

/-- What the table is as a cache. -/
def settings (s : BoundedGht Addr Data) : CacheSettings where
  bucket := s.ght.table.bucket
  limit := s.bucket_limit
  hits := UInt8.ofInt s.ght.table.i_heuristics = GHT_HEURISTICS_MOVE_TO_FRONT

/-- The chains are kept in the order of use. -/
structure Ordered (s : BoundedGht Addr Data) : Prop where
  limited : s.bucket_limit ≠ 0
  heuristics : UInt8.ofInt s.ght.table.i_heuristics ≠ GHT_HEURISTICS_TRANSPOSE
  no_rehash : s.ght.table.i_automatic_rehash = false

end BoundedGht

namespace CacheOp

variable [DecidableEq Addr]

def run (s : BoundedGht Addr Data) :
    CacheOp Addr Data → Option (BoundedGht Addr Data × CacheResult Data)
  | insert alloc p_data key => (s.ghtInsert alloc p_data key).map fun r =>
    (r.1, .status r.2.1 r.2.2)
  | get key => (s.ght.ghtGet key).map fun r => ({ s with ght := r.1 }, .data r.2)
  | replace p_data key => (s.ght.ghtReplace p_data key).map fun r =>
    ({ s with ght := r.1 }, .data r.2)
  | remove key => (s.ght.ghtRemove key).map fun r => ({ s with ght := r.1 }, .data r.2)

def runAll (s : BoundedGht Addr Data) :
    List (CacheOp Addr Data) → Option (BoundedGht Addr Data × List (CacheResult Data))
  | [] => some (s, [])
  | op :: ops => do
    let (s, result) ← op.run s
    let (s, results) ← runAll s ops
    return (s, result :: results)

end CacheOp

-- ---------------------------------------------------------------------------
-- The search
-- ---------------------------------------------------------------------------

namespace Ght

variable {s : Ght Addr Data} {ages : List Addr} {chains : UInt32 → List Addr} {e : Addr}
  {key : List UInt8}

variable [DecidableEq Addr]

/-- An entry that is found comes to the front. -/
theorem Listed.search_moves (h : s.Listed ages chains)
    (hmove : UInt8.ofInt s.table.i_heuristics = GHT_HEURISTICS_MOVE_TO_FRONT)
    (hkey : s.entryOf ages key = some e) :
    ∃ l r next prev, chains (s.table.bucket key) = l ++ e :: r ∧
      s.Reorders (chains (s.table.bucket key)) next prev (e :: (l ++ r)) ∧
      s.search key =
        some (s.rechained (s.table.bucket key) next prev (e :: (l ++ r)), some e) := by
  have he : e ∈ chains (s.table.bucket key) :=
    (h.bucket _ e).mpr ⟨entryOf_mem hkey, by rw [Ght.entryOf_key hkey]⟩
  have hchain := h.chained (s.table.bucket key)
  have hnodup := h.nodup (s.table.bucket key)
  have hfirst := h.first (s.table.bucket key)
  obtain ⟨l, r, hc⟩ := List.append_of_mem he
  have hsearch : s.search key =
      (s.moveToFront (s.table.bucket key) e).map fun s => (s, some e) := by
    rw [search, Ght.searchInBucket, hfirst,
      searchFrom_eq (h.chained _) (h.length_chain_le _), h.find_bucket, hkey]
    simp only
    rw [Ght.applyHeuristics, if_pos hmove]
  rw [hsearch]
  -- an entry that is in front already stays
  cases l with
  | nil =>
    rw [List.nil_append] at hc
    refine ⟨[], r, s.heap.p_next, s.heap.p_prev, hc, ?_, ?_⟩
    · rw [List.nil_append, ← hc]
      exact ⟨hchain, List.Perm.refl _, fun _ _ => ⟨rfl, rfl⟩⟩
    · rw [moveToFront_head (hfirst.trans (by rw [hc]; rfl)), Option.map_some, List.nil_append,
        ← hc, h.rechained_self]
  | cons x l =>
    rw [hc] at hchain hnodup hfirst
    refine ⟨x :: l, r, _, _, hc, hc ▸ reorders_moveToFront hchain hnodup, ?_⟩
    rw [moveToFront_eq hchain hnodup hfirst, Option.map_some]

end Ght

-- ---------------------------------------------------------------------------
-- The table as a cache
-- ---------------------------------------------------------------------------

/-- The table is the cache `c`, in a heap with the entries `others` besides its own. -/
structure Caches (others : List Addr) (s : BoundedGht Addr Data) (c : Cache Data)
    (ages : List Addr) (chains : UInt32 → List Addr) : Prop where
  ordered : s.Ordered
  contents : s.ght.Contents others c.map ages chains
  recency : ∀ b, ByRecency c.uses ((chains b).map s.ght.heap.key)
  bounded : ∀ b, (chains b).length ≤ s.bucket_limit.toNat

/-- With the same settings a table is the same kind of cache. -/
theorem BoundedGht.settings_eq {s : BoundedGht Addr Data} {t : Ght Addr Data}
    (h : s.ght.SameSettings t) : BoundedGht.settings { s with ght := t } = s.settings := by
  rw [settings, settings, h.bucket, h.heuristics]

/-- A cache stays in order if the settings are the same. -/
theorem BoundedGht.Ordered.of_same {s : BoundedGht Addr Data} {t : Ght Addr Data}
    (h : s.Ordered) (hsame : s.ght.SameSettings t) : Ordered { s with ght := t } where
  limited := h.limited
  heuristics := by
    rw [hsame.heuristics]
    exact h.heuristics
  no_rehash := hsame.auto.trans h.no_rehash

namespace Caches

variable {others ages : List Addr} {s : BoundedGht Addr Data} {c : Cache Data}
  {chains : UInt32 → List Addr} {e : Addr} {key : List UInt8}

/-- The keys of a bucket are those of its chain. -/
theorem keysIn_perm (h : Caches others s c ages chains) (b : UInt32) :
    (c.keysIn s.settings b).Perm ((chains b).map s.ght.heap.key) := by
  refine (List.perm_ext_iff_of_nodup (c.map.keys_nodup.filter _) (h.recency b).nodup).mpr
    fun k => ?_
  have hkeys : k ∈ c.map.keys ↔ ∃ a ∈ ages, s.ght.heap.key a = k := by
    rw [← List.mem_reverse, ← h.contents.map_key, List.mem_map]
  rw [List.mem_filter, hkeys, List.mem_map, decide_eq_true_iff]
  constructor
  · rintro ⟨⟨a, ha, rfl⟩, hb⟩
    exact ⟨a, (h.contents.listed.bucket b a).mpr ⟨ha, hb⟩, rfl⟩
  · rintro ⟨a, ha, rfl⟩
    obtain ⟨hage, hb⟩ := (h.contents.listed.bucket b a).mp ha
    exact ⟨⟨a, hage, rfl⟩, hb⟩

/-- The counter of a bucket, which is compared with the limit. -/
theorem nr (h : Caches others s c ages chains) (b : UInt32) :
    (s.ght.table.p_nr b).toUInt32.toNat = (c.keysIn s.settings b).length := by
  have hle := h.bounded b
  have hlt := s.bucket_limit.toNat_lt
  rw [h.contents.listed.nr, Int32.toUInt32_ofNat', UInt32.toNat_ofNat',
    (h.keysIn_perm b).length_eq, List.length_map, Nat.mod_eq_of_lt (Nat.lt_of_le_of_lt hle hlt)]

/-- A key is in no other chain than that of its bucket. -/
theorem key_notMem (h : Caches others s c ages chains) {b : UInt32}
    (hb : b ≠ s.ght.table.bucket key) : key ∉ (chains b).map s.ght.heap.key := by
  intro hmem
  obtain ⟨a, ha, rfl⟩ := List.mem_map.mp hmem
  exact hb ((h.contents.listed.bucket b a).mp ha).2.symm

/-- Fewer entries, and other data. -/
theorem of_sublist (h : Caches others s c ages chains) {t : Ght Addr Data} {m : KeyMap Data}
    {ages' : List Addr} {chains' : UInt32 → List Addr} (hsame : s.ght.SameSettings t)
    (hkey : t.heap.key = s.ght.heap.key) (hsub : ∀ b, (chains' b).Sublist (chains b))
    (ht : t.Contents others m ages' chains') :
    Caches others { s with ght := t } { c with map := m } ages' chains' where
  ordered := h.ordered.of_same hsame
  contents := ht
  recency b := by
    show ByRecency c.uses ((chains' b).map t.heap.key)
    rw [hkey]
    exact (h.recency b).sublist ((hsub b).map _)
  bounded b := (hsub b).length_le.trans (h.bounded b)

/-- A new key is in front of its chain, of which a part may be gone. -/
theorem recency_new (h : Caches others s c ages chains) (hnew : key ∉ c.map) {l : List Addr}
    (hsub : l.Sublist (chains (s.ght.table.bucket key))) {m : EntryHeap Addr Data}
    (hkeys : ∀ a ∈ ages, m.key a = s.ght.heap.key a) (hek : m.key e = key) :
    ∀ b, ByRecency (c.uses ++ [key])
      ((Function.update chains (s.ght.table.bucket key) (e :: l) b).map m.key) := by
  have hsame : ∀ b, (chains b).map m.key = (chains b).map s.ght.heap.key := fun b =>
    List.map_congr_left fun a ha => hkeys a (h.contents.listed.mem_ages ha)
  refine (Function.forall_update_iff chains fun _ l =>
    ByRecency (c.uses ++ [key]) (l.map m.key)).mpr ⟨?_, fun b hb => ?_⟩
  · have hl : l.map m.key = l.map s.ght.heap.key :=
      List.map_congr_left fun a ha => hkeys a (h.contents.listed.mem_ages (hsub.subset ha))
    rw [List.map_cons, hek, hl]
    refine ((h.recency _).sublist (hsub.map _)).use_new fun hmem => hnew ?_
    have hall : key ∈ ages.map s.ght.heap.key := by
      obtain ⟨a, ha, rfl⟩ := List.mem_map.mp hmem
      exact List.mem_map_of_mem (h.contents.listed.mem_ages (hsub.subset ha))
    rw [h.contents.map_key, List.mem_reverse] at hall
    exact hall
  · rw [hsame b]
    exact (h.recency b).use_other (h.key_notMem hb)

/-- A full bucket has a last entry, which was not used for longest. -/
theorem last_of_full (h : Caches others s c ages chains) {b : UInt32}
    (hfull : (c.keysIn s.settings b).length = s.bucket_limit.toNat) :
    ∃ l v, chains b = l ++ [v] ∧ s.ght.heap.key v ∈ c.keysIn s.settings b ∧
      ∀ other ∈ c.keysIn s.settings b, other ≠ s.ght.heap.key v →
        UsedSince c.uses (s.ght.heap.key v) other := by
  have hperm := h.keysIn_perm b
  have hrecency := h.recency b
  have hpos : s.bucket_limit.toNat ≠ 0 := fun hzero =>
    h.ordered.limited (UInt32.toNat_inj.mp hzero)
  rcases List.eq_nil_or_concat (chains b) with hnil | ⟨l, v, hc⟩
  · have hlength := hperm.length_eq
    rw [hnil, List.map_nil, List.length_nil] at hlength
    exact absurd (hfull.symm.trans hlength) hpos
  · rw [List.concat_eq_append] at hc
    rw [hc, List.map_append, List.map_singleton] at hperm hrecency
    refine ⟨l, v, hc, ?_, fun other hother hne => ?_⟩
    · exact hperm.mem_iff.mpr (List.mem_append_right _ List.mem_cons_self)
    · rcases List.mem_append.mp (hperm.mem_iff.mp hother) with hmem | hmem
      · exact hrecency.usedSince hmem
      · exact absurd (List.mem_singleton.mp hmem) hne

variable [DecidableEq Addr]

/-- The search of a lookup is a use of the entry, or nothing. -/
theorem search (h : Caches others s c ages chains) (key : List UInt8) :
    ∃ t chains', s.ght.search key = some (t, s.ght.entryOf ages key) ∧
      t.heap.view = s.ght.heap.view ∧ s.ght.SameSettings t ∧
      Caches others { s with ght := t } (c.found s.settings key) ages chains' := by
  have hmem : key ∈ c.map ↔ s.ght.entryOf ages key ≠ none :=
    (not_iff_comm.mp (Ght.entryOf_eq_none h.contents.view).symm).symm
  by_cases hstays : UInt8.ofInt s.ght.table.i_heuristics ≠ GHT_HEURISTICS_MOVE_TO_FRONT ∨
      s.ght.entryOf ages key = none
  -- without move to front, or without the key, a search is no use
  · have hsame : c.found s.settings key = c := by
      rw [Cache.found, if_neg]
      rintro ⟨hhits, hkey⟩
      rcases hstays with hmove | hnone
      · exact hmove (of_decide_eq_true hhits)
      · exact hmem.mp hkey hnone
    refine ⟨s.ght, chains, h.contents.listed.search_stays ?_, rfl, .refl _, hsame.symm ▸ h⟩
    exact hstays.imp_left fun hmove => ⟨hmove, h.ordered.heuristics⟩
  -- the entry found moves to the front of its chain: its key is used now
  · rw [not_or, not_ne_iff] at hstays
    obtain ⟨hmove, hsome⟩ := hstays
    obtain ⟨e, hkey⟩ := Option.ne_none_iff_exists'.mp hsome
    obtain ⟨l, r, next, prev, hc, hr, hsearch⟩ := h.contents.listed.search_moves hmove hkey
    have hused : c.found s.settings key = { c with uses := c.uses ++ [key] } := by
      rw [Cache.found, if_pos ⟨decide_eq_true hmove, hmem.mpr hsome⟩]
    have hekey := Ght.entryOf_key hkey
    have hrecency := h.recency (s.ght.table.bucket key)
    rw [hc, List.map_append, List.map_cons, hekey] at hrecency
    rw [hkey, hused]
    refine ⟨_, Function.update chains (s.ght.table.bucket key) (e :: (l ++ r)), hsearch, rfl,
      ⟨rfl, rfl, rfl⟩, ?_⟩
    constructor
    case ordered => exact h.ordered.of_same ⟨rfl, rfl, rfl⟩
    case contents => exact ⟨h.contents.listed.rechained hr, h.contents.view, h.contents.memory⟩
    case recency =>
      refine (Function.forall_update_iff chains fun _ l =>
        ByRecency (c.uses ++ [key]) (l.map s.ght.heap.key)).mpr ⟨?_, fun b hb => ?_⟩
      · rw [List.map_cons, List.map_append, hekey]
        exact hrecency.use_front
      · exact (h.recency b).use_other (h.key_notMem hb)
    case bounded =>
      refine (Function.forall_update_iff chains fun _ l =>
        l.length ≤ s.bucket_limit.toNat).mpr ⟨?_, fun b _ => h.bounded b⟩
      rw [hr.perm.length_eq]
      exact h.bounded _

/-- A lookup returns what the cache has, and is a use of the key if it moves entries to the front.
-/
theorem ghtGet (h : Caches others s c ages chains) (key : List UInt8) :
    ∃ t chains', s.ght.ghtGet key = some (t, c.map.lookup key) ∧ s.ght.SameSettings t ∧
      Caches others { s with ght := t } (c.found s.settings key) ages chains' := by
  obtain ⟨t, chains', hsearch, hsame, hsettings, h'⟩ := h.search key
  exact ⟨t, chains', h.contents.ghtGet_of hsearch hsame, hsettings, h'⟩

/-- A replacement returns what the cache has, and is a use of the key if it moves entries to the
front. -/
theorem ghtReplace (h : Caches others s c ages chains) (p_data : Data) (key : List UInt8) :
    ∃ t chains', s.ght.ghtReplace p_data key = some (t, c.map.lookup key) ∧
      s.ght.SameSettings t ∧
      Caches others { s with ght := t } ((c.found s.settings key).replace p_data key) ages
        chains' := by
  obtain ⟨t, chains', hsearch, hsame, hsettings, h'⟩ := h.search key
  have hmap : (c.found s.settings key).map = c.map := by
    rw [Cache.found]
    split_ifs <;> rfl
  have ht := h'.contents
  rw [hmap] at ht
  obtain ⟨t', hrun, hsettings', hk, ht'⟩ := h.contents.ghtReplace_of hsearch hsame ht p_data
  rw [← hmap] at ht'
  refine ⟨t', chains', hrun, hsettings.trans hsettings', ?_⟩
  exact h'.of_sublist hsettings' hk (fun b => List.Sublist.refl _) ht'

/-- A removal takes the key out of the cache. -/
theorem ghtRemove (h : Caches others s c ages chains) (key : List UInt8) :
    ∃ t ages' chains', s.ght.ghtRemove key = some (t, c.map.lookup key) ∧
      s.ght.SameSettings t ∧
      Caches others { s with ght := t } (c.erase key) ages' chains' := by
  obtain ⟨t, ages', chains', hrun, hsettings, hk, -, hsub, ht⟩ := h.contents.ghtRemove key
  exact ⟨t, ages', chains', hrun, hsettings, h.of_sublist hsettings hk hsub ht⟩

/-- The entry that was made for a new key is placed where there is room. -/
theorem placed (h : Caches others s c ages chains) (hnew : key ∉ c.map) {m : EntryHeap Addr Data}
    {p_data : Data} (hm : s.ght.heap.Created m e key p_data)
    (hroom : (c.keysIn s.settings (s.settings.bucket key)).length < s.bucket_limit.toNat) :
    ∃ s' : BoundedGht Addr Data, ∃ ages' chains',
      Ght.placeBounded ⟨m, s.ght.table⟩ s.bucket_limit (s.ght.table.bucket key) e =
        some (s'.ght, none) ∧
      s'.settings = s.settings ∧ Caches others s' (c.insert p_data key) ages' chains' := by
  obtain ⟨hsettings, hkeys, hplaced⟩ := h.contents.placeEntry hnew hm
  have hnr := h.nr (s.ght.table.bucket key)
  refine ⟨⟨Ght.placeEntry ⟨m, s.ght.table⟩ (s.ght.table.bucket key) e, s.bucket_limit⟩, _, _,
    Ght.placeBounded_room ?_ e, ?_, h.ordered.of_same hsettings, hplaced, ?_, ?_⟩
  -- the bucket is not full, so nothing is freed
  · rintro ⟨-, hfull⟩
    have hle := UInt32.le_iff_toNat_le.mp hfull
    rw [hnr] at hle
    exact absurd hle (Nat.not_le.mpr hroom)
  · exact BoundedGht.settings_eq hsettings
  · rw [hkeys]
    refine h.recency_new hnew (List.Sublist.refl _) (fun a ha => ?_) (congrArg Prod.fst hm.view)
    exact (hm.kept a (h.contents.listed.live a ha)).key
  · have hlength := (h.keysIn_perm (s.ght.table.bucket key)).length_eq
    rw [List.length_map] at hlength
    refine (Function.forall_update_iff chains fun _ l =>
      l.length ≤ s.bucket_limit.toNat).mpr ⟨?_, fun b _ => h.bounded b⟩
    rw [List.length_cons, ← hlength]
    exact hroom

/-- Where there is no room, the key of the bucket goes that was not used for longest. -/
theorem displaced (h : Caches others s c ages chains) (hnew : key ∉ c.map)
    {m : EntryHeap Addr Data} {p_data : Data} (hm : s.ght.heap.Created m e key p_data)
    (hfull : (c.keysIn s.settings (s.settings.bucket key)).length = s.bucket_limit.toNat) :
    ∃ s' : BoundedGht Addr Data, ∃ ages' chains' old data,
      Ght.placeBounded ⟨m, s.ght.table⟩ s.bucket_limit (s.ght.table.bucket key) e =
        some (s'.ght, some (some data, old)) ∧
      s'.settings = s.settings ∧
      old ∈ c.keysIn s.settings (s.settings.bucket key) ∧ c.map.lookup old = some data ∧
      (∀ other ∈ c.keysIn s.settings (s.settings.bucket key), other ≠ old →
        UsedSince c.uses old other) ∧
      Caches others s' ((c.erase old).insert p_data key) ages' chains' := by
  -- the last of the chain is the key that was used least recently
  obtain ⟨l, v, hc, hold, hused⟩ := h.last_of_full hfull
  have hc : chains (s.ght.table.bucket key) = l ++ [v] := hc
  have hv : v ∈ chains (s.ght.table.bucket key) := hc ▸ List.mem_append_right _ List.mem_cons_self
  have hvages := h.contents.listed.mem_ages hv
  obtain ⟨found⟩ := Ght.exists_found h.contents.view (h.contents.listed.entryOf_key hvages)
  -- making the entry leaves the others as they were
  have hkeep : ∀ a ∈ ages, s.ght.heap.Same m a := fun a ha =>
    hm.kept a (h.contents.listed.live a ha)
  have hlisted := h.contents.listed.congr hkeep
  have hviews : ages.map m.view = ages.map s.ght.heap.view :=
    List.map_congr_left fun a ha => (hkeep a ha).view
  have hkey : Ght.entryOf ⟨m, s.ght.table⟩ ages key = none := by
    rw [Ght.entryOf_eq_none_iff, hviews]
    exact Ght.entryOf_eq_none_iff.mp ((Ght.entryOf_eq_none h.contents.view).mpr hnew)
  have hmemory := h.contents.memory
  have heages : e ∉ ages := fun he => hm.fresh (h.contents.listed.live e he)
  rw [found.ages_eq] at hlisted hkey hmemory heages
  -- the count of the bucket has reached its limit
  have hfull' : s.bucket_limit ≠ 0 ∧
      (s.ght.table.p_nr (s.ght.table.bucket key)).toUInt32 ≥ s.bucket_limit := by
    refine ⟨h.ordered.limited, UInt32.le_iff_toNat_le.mpr ?_⟩
    rw [h.nr]
    exact Nat.le_of_eq hfull.symm
  have hplace := hlisted.placeBounded_eq hc hm.mem heages hfull'
  have hreplaced := hlisted.replaced hc
    hm.mem heages hm.newer hm.view hm.size hkey
  rw [show m.p_data v = some found.data from (hkeep v hvages).p_data.trans found.data_eq,
    show m.key v = s.ght.heap.key v from (hkeep v hvages).key] at hplace
  refine ⟨⟨_, s.bucket_limit⟩, _, _, _, _, hplace, rfl, hold, found.lookup, hused,
    ⟨h.ordered.limited, h.ordered.heuristics, h.ordered.no_rehash⟩, ⟨hreplaced, ?_, ?_⟩, ?_, ?_⟩
  -- the list by age: the freed key is out and the new one last
  · have holder : found.older.map m.view = found.older.map s.ght.heap.view :=
      List.map_congr_left fun a ha => (hkeep a (found.older_mem ha)).view
    have hnewer : found.newer.map m.view = found.newer.map s.ght.heap.view :=
      List.map_congr_left fun a ha => (hkeep a (found.newer_mem ha)).view
    have herased : key ∉ c.map.erase (s.ght.heap.key v) := fun hmem =>
      hnew (AList.mem_erase.mp hmem).2
    show (found.older ++ found.newer ++ [e]).map m.view =
      (((c.map.erase (s.ght.heap.key v)).insert key p_data).entries.map storedAs).reverse
    rw [AList.entries_insert_of_notMem herased, found.erase, List.map_append, List.map_append,
      holder, hnewer, found.older_view, found.newer_view, List.map_singleton, hm.view]
    simp [storedAs]
  -- the memory: the victim is freed, nothing else
  · show (m.live.erase v).Perm (found.older ++ found.newer ++ [e] ++ others)
    have hmiddle : (e :: (found.older ++ v :: found.newer)).Perm
        (v :: (found.older ++ found.newer ++ [e])) :=
      (List.perm_middle.cons e).trans
        ((List.Perm.swap v e _).trans ((List.perm_append_singleton e _).symm.cons v))
    have hall : m.live.Perm (v :: (found.older ++ found.newer ++ [e] ++ others)) := by
      rw [hm.live]
      exact (hmemory.cons e).trans (hmiddle.append_right others)
    have herase := hall.erase v
    rw [List.erase_cons_head] at herase
    exact herase
  -- the chain: the new entry in front, the last one gone
  · refine h.recency_new hnew ?_ (fun a ha => (hkeep a ha).key) (congrArg Prod.fst hm.view)
    rw [hc]
    exact List.sublist_append_left l [v]
  · have hbound := h.bounded (s.ght.table.bucket key)
    rw [hc, List.length_append] at hbound
    exact (Function.forall_update_iff chains fun _ l =>
      l.length ≤ s.bucket_limit.toNat).mpr ⟨hbound, fun b _ => h.bounded b⟩

/-- An insertion is a step of the cache. -/
theorem ghtInsert (h : Caches others s c ages chains) (alloc : Allocator Addr) (p_data : Data)
    (key : List UInt8) :
    ∃ s' rc freed c' ages' chains', s.ghtInsert alloc p_data key = some (s', rc, freed) ∧
      CacheStep s.settings c (.insert alloc p_data key) (.status rc freed) c' ∧
      s'.settings = s.settings ∧ Caches others s' c' ages' chains' := by
  -- a bounded table does not rehash
  have hrun : ∀ m : EntryHeap Addr Data,
      Ght.automaticRehash alloc ⟨m, s.ght.table⟩ = some ⟨m, s.ght.table⟩ := by
    intro m
    rw [Ght.automaticRehash, if_neg]
    rintro ⟨hrehash, -⟩
    cases h.ordered.no_rehash.symm.trans hrehash
  rw [BoundedGht.ghtInsert, BoundedGht.insertWith, h.contents.listed.searchInBucket_zero]
  simp only [Option.bind_eq_bind, Option.bind_some]
  cases hkey : s.ght.entryOf ages key with
  | some e =>
    obtain ⟨found⟩ := Ght.exists_found h.contents.view hkey
    exact ⟨s, _, _, c, ages, chains, rfl, .present found.mem, rfl, h⟩
  | none =>
    have hnew := (Ght.entryOf_eq_none h.contents.view).mp hkey
    cases halloc : alloc.entry s.ght.heap.live with
    | none =>
      have hcreate : s.ght.heap.heCreate alloc p_data key = none := by
        rw [EntryHeap.heCreate, halloc, Option.map_none]
      rw [hcreate]
      exact ⟨s, _, _, c, ages, chains, rfl, .noMemory hnew halloc, rfl, h⟩
    | some e =>
      obtain ⟨m, hcreate, hm⟩ := Ght.heCreate_of halloc p_data key
      simp only [hcreate, hrun, Option.bind_some]
      have hle : (c.keysIn s.settings (s.settings.bucket key)).length ≤ s.bucket_limit.toNat := by
        rw [(h.keysIn_perm _).length_eq, List.length_map]
        exact h.bounded _
      rcases Nat.lt_or_eq_of_le hle with hroom | hfull
      -- the bucket has room
      · obtain ⟨s', ages', chains', hplace, hsettings, h'⟩ :=
          h.placed hnew hm hroom
        refine ⟨s', _, _, _, ages', chains', ?_, .room hnew hroom, hsettings, h'⟩
        have hlimit : s.bucket_limit = s'.bucket_limit :=
          congrArg CacheSettings.limit hsettings.symm
        rw [hplace, hlimit]
        rfl
      -- the bucket is full: its least recently used key makes way
      · obtain ⟨s', ages', chains', old, data, hplace, hsettings, hold, hlookup, hused, h'⟩ :=
          h.displaced hnew hm hfull
        refine ⟨s', _, _, _, ages', chains', ?_, .full hnew hfull hold hlookup hused, hsettings,
          h'⟩
        have hlimit : s.bucket_limit = s'.bucket_limit :=
          congrArg CacheSettings.limit hsettings.symm
        rw [hplace, hlimit]
        rfl

/-- Every operation is a step of the cache. -/
theorem run (h : Caches others s c ages chains) (op : CacheOp Addr Data) :
    ∃ s' result c' ages' chains', op.run s = some (s', result) ∧
      CacheStep s.settings c op result c' ∧ s'.settings = s.settings ∧
      Caches others s' c' ages' chains' := by
  cases op with
  | insert alloc p_data key =>
    obtain ⟨s', rc, freed, c', ages', chains', hrun, hstep, hsettings, h'⟩ :=
      h.ghtInsert alloc p_data key
    exact ⟨s', _, c', ages', chains', by rw [CacheOp.run, hrun]; rfl, hstep, hsettings, h'⟩
  | get key =>
    obtain ⟨t, chains', hrun, hsettings, h'⟩ := h.ghtGet key
    exact ⟨_, _, _, _, chains', by rw [CacheOp.run, hrun]; rfl, .get,
      BoundedGht.settings_eq hsettings, h'⟩
  | replace p_data key =>
    obtain ⟨t, chains', hrun, hsettings, h'⟩ := h.ghtReplace p_data key
    exact ⟨_, _, _, _, chains', by rw [CacheOp.run, hrun]; rfl, .replace,
      BoundedGht.settings_eq hsettings, h'⟩
  | remove key =>
    obtain ⟨t, ages', chains', hrun, hsettings, h'⟩ := h.ghtRemove key
    exact ⟨_, _, _, ages', chains', by rw [CacheOp.run, hrun]; rfl, .remove,
      BoundedGht.settings_eq hsettings, h'⟩

/-- Every run of operations is a run of the cache. -/
theorem runAll (h : Caches others s c ages chains) (ops : List (CacheOp Addr Data)) :
    ∃ s' results c' ages' chains', CacheOp.runAll s ops = some (s', results) ∧
      CacheRun s.settings c ops results c' ∧ s'.settings = s.settings ∧
      Caches others s' c' ages' chains' := by
  induction ops generalizing s c ages chains with
  | nil => exact ⟨s, [], c, ages, chains, rfl, .nil, rfl, h⟩
  | cons op ops ih =>
    obtain ⟨s₁, result, c₁, ages₁, chains₁, hrun, hstep, hsettings₁, h₁⟩ := h.run op
    obtain ⟨s₂, results, c₂, ages₂, chains₂, hruns, hsteps, hsettings₂, h₂⟩ := ih h₁
    rw [hsettings₁] at hsteps hsettings₂
    refine ⟨s₂, result :: results, c₂, ages₂, chains₂, ?_, .cons hstep hsteps, hsettings₂, h₂⟩
    rw [CacheOp.runAll, hrun]
    simp only [Option.bind_eq_bind, Option.bind_some, hruns]
    rfl

end Caches

/-- In every run on a table with limited buckets, in whatever memory, an insertion into a full
bucket frees the entry of the bucket that was not used for longest; no other is lost, no
bucket gets more entries than the limit, and none is leaked (`Contents`). -/
theorem boundedTable_is_cache [DecidableEq Addr] (fn_hash : List UInt8 → UInt32)
    {i_size limit : UInt32} {i_heuristics : Int} (hsize : i_size ≤ sizeLimit) (hlimit : limit ≠ 0)
    (hheuristics : UInt8.ofInt i_heuristics ≠ GHT_HEURISTICS_TRANSPOSE)
    (heap : EntryHeap Addr Data) (ops : List (CacheOp Addr Data)) :
    ∃ t s s' results c, ghtCreate fn_hash i_size true = some t ∧
      ghtSetBoundedBuckets (Ght.ghtSetHeuristics ⟨heap, t⟩ i_heuristics) limit true = some s ∧
      CacheOp.runAll s ops = some (s', results) ∧
      CacheRun s.settings ⟨∅, []⟩ ops results c ∧
      (∀ b, (c.keysIn s.settings b).length ≤ limit.toNat) ∧
      ∃ ages chains, s'.ght.Contents heap.live c.map ages chains := by
  obtain ⟨t, hcreate, -, hempty⟩ := Ght.ghtCreate_listed fn_hash hsize heap
  have hno : t.i_automatic_rehash = false := by
    obtain ⟨r, -, hr⟩ := Option.bind_eq_some_iff.mp hcreate
    cases hr
    rfl
  have hset : ghtSetBoundedBuckets (Ght.ghtSetHeuristics ⟨heap, t⟩ i_heuristics) limit true =
      some ⟨Ght.ghtSetHeuristics ⟨heap, t⟩ i_heuristics, limit⟩ :=
    if_neg fun h => Bool.noConfusion h.2
  -- the table as it is made and set up is the empty cache
  have h : Caches heap.live ⟨Ght.ghtSetHeuristics ⟨heap, t⟩ i_heuristics, limit⟩ ⟨∅, []⟩ []
      fun _ => [] := by
    constructor
    case ordered => exact ⟨hlimit, hheuristics, hno⟩
    case contents =>
      exact Ght.Contents.settings (m := ∅) ⟨hempty, rfl, List.Perm.refl _⟩ i_heuristics
        t.i_automatic_rehash
    case recency => exact fun _ => byRecency_nil
    case bounded => exact fun _ => Nat.zero_le _
  obtain ⟨s', results, c, ages, chains, hrun, hsteps, hsettings, h'⟩ := h.runAll ops
  refine ⟨t, _, s', results, c, hcreate, hset, hrun, hsteps, fun b => ?_,
    ⟨ages, chains, h'.contents⟩⟩
  rw [← hsettings, (h'.keysIn_perm b).length_eq, List.length_map]
  have hbounded := h'.bounded b
  have hsame : s'.bucket_limit = limit := congrArg CacheSettings.limit hsettings
  exact hsame ▸ hbounded

/-- One bucket for two keys: the first is found, so that the second has to go. -/
theorem boundedTable_is_cache_twoKeys :
    ∃ t s s' c, ghtCreate (fun _ => 7) 1 true = some t ∧
      ghtSetBoundedBuckets (Ght.ghtSetHeuristics ⟨noEntries, t⟩ 2) 2 true = some s ∧
      CacheOp.runAll s [.insert nextAddress 10 [1], .insert nextAddress 20 [2], .get [1],
        .insert nextAddress 30 [3], .get [2]] =
        some (s', [.status .GHT_OK none, .status .GHT_OK none, .data (some 10),
          .status .GHT_OK (some (some 20, [2])), .data none]) ∧
      ∃ ages chains, s'.ght.Contents [] c ages chains := by
  obtain ⟨t, s, s', results, c, hcreate, hset, hrun, -, -, hend⟩ :=
    boundedTable_is_cache (fun _ => 7) (show (1 : UInt32) ≤ sizeLimit by decide)
      (show (2 : UInt32) ≠ 0 by decide)
      (show UInt8.ofInt 2 ≠ GHT_HEURISTICS_TRANSPOSE by decide) noEntries
      [.insert nextAddress 10 [1], .insert nextAddress 20 [2], .get [1],
        .insert nextAddress 30 [3], .get [2]]
  refine ⟨t, s, s', c.map, hcreate, hset, ?_, hend⟩
  cases hcreate
  cases hset
  cases hrun
  rfl

end VfsRedirector
