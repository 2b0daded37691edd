import VfsRedirector.HashTable.Map

/-!
# The contents of a hash table and the heap

`Contents` is what a table stands for, together with what else is in the heap: all that is
allocated is either an entry of the table or one of `others`. So an operation that keeps it
with the same `others` leaves no entry behind, and frees nothing but its own.

## Results

* `placeEntry` — a new entry, in whatever else is allocated.
* `ghtGet`, `ghtReplace`, `ghtRemove` — operations that need no memory.
-/

namespace VfsRedirector

open Library

variable {Addr Data : Type}

namespace Ght

/-- The table stands for the map, and the heap has `others` besides its entries. -/
structure Contents (others : List Addr) (s : Ght Addr Data) (m : KeyMap Data) (ages : List Addr)
    (chains : UInt32 → List Addr) : Prop where
  listed : s.Listed ages chains
  view : ages.map s.heap.view = (m.entries.map storedAs).reverse
  memory : s.heap.live.Perm (ages ++ others)

/-- The settings of a table. -/
structure SameSettings (s s' : Ght Addr Data) : Prop where
  bucket : s'.table.bucket = s.table.bucket
  heuristics : s'.table.i_heuristics = s.table.i_heuristics
  auto : s'.table.i_automatic_rehash = s.table.i_automatic_rehash

theorem SameSettings.refl (s : Ght Addr Data) : SameSettings s s := ⟨rfl, rfl, rfl⟩

theorem SameSettings.trans {s t u : Ght Addr Data} (h : SameSettings s t)
    (h' : SameSettings t u) : SameSettings s u where
  bucket := h'.bucket.trans h.bucket
  heuristics := h'.heuristics.trans h.heuristics
  auto := h'.auto.trans h.auto

variable {others ages : List Addr} {s t : Ght Addr Data} {m : KeyMap Data}
  {chains chains' : UInt32 → List Addr} {e : Addr} {key : List UInt8}

/-- An entry is found by its key. -/
theorem Listed.entryOf_key (h : s.Listed ages chains) (he : e ∈ ages) :
    s.entryOf ages (s.heap.key e) = some e := by
  cases hfound : s.entryOf ages (s.heap.key e) with
  | none =>
    rw [entryOf, List.find?_eq_none] at hfound
    exact absurd (decide_eq_true rfl) (hfound e he)
  | some a => rw [h.key_inj (entryOf_mem hfound) he (Ght.entryOf_key hfound)]

/-- The entries besides one are those of the table. -/
theorem Found.older_mem (f : Found s m ages key e) {a : Addr} (ha : a ∈ f.older) : a ∈ ages :=
  (congrArg (a ∈ ·) f.ages_eq).mpr (List.mem_append_left _ ha)

/-- The entries that are newer than one are those of the table. -/
theorem Found.newer_mem (f : Found s m ages key e) {a : Addr} (ha : a ∈ f.newer) : a ∈ ages :=
  (congrArg (a ∈ ·) f.ages_eq).mpr (List.mem_append_right _ (List.mem_cons_of_mem e ha))

/-- A map without the key is the same without it. -/
theorem erase_of_notMem (hkey : key ∉ m) : m.erase key = m :=
  AList.ext (List.kerase_of_notMem_keys hkey)

/-- A key that is not there is not replaced. -/
theorem replace_of_notMem (hkey : key ∉ m) (p_data : Data) : m.replace key p_data = m :=
  AList.ext (List.kreplace_of_forall_not _ _ fun _ hd => hkey (List.mem_keys_of_mem hd))

variable [DecidableEq Addr] in
/-- Without heuristics, and without an entry, nothing moves. -/
theorem Listed.search_stays (h : s.Listed ages chains)
    (hstays : UInt8.ofInt s.table.i_heuristics ≠ GHT_HEURISTICS_MOVE_TO_FRONT ∧
      UInt8.ofInt s.table.i_heuristics ≠ GHT_HEURISTICS_TRANSPOSE ∨ s.entryOf ages key = none) :
    s.search key = some (s, s.entryOf ages key) := by
  rw [search, Ght.searchInBucket, h.first,
    searchFrom_eq (h.chained _) (h.length_chain_le _), h.find_bucket]
  cases hkey : s.entryOf ages key with
  | none => rfl
  | some e =>
    rcases hstays with ⟨hmove, htranspose⟩ | hnone
    · simp only
      rw [Ght.applyHeuristics, if_neg hmove, if_neg htranspose]
      rfl
    · cases hnone.symm.trans hkey

namespace Contents

/-- The keys of the entries are those of the map. -/
theorem map_key (h : Contents others s m ages chains) :
    ages.map s.heap.key = m.keys.reverse := by
  have hfst := congrArg (List.map Prod.fst) h.view
  rw [List.map_map, List.map_reverse, List.map_map] at hfst
  exact hfst

/-- To set the heuristics changes no contents. -/
theorem settings (h : Contents others s m ages chains) (i_heuristics : Int)
    (i_automatic_rehash : Bool) :
    Contents others ⟨s.heap, { s.table with i_heuristics, i_automatic_rehash }⟩ m ages chains where
  listed := h.listed.settings i_heuristics i_automatic_rehash
  view := h.view
  memory := h.memory

variable [DecidableEq Addr]

-- ---------------------------------------------------------------------------
-- ght_insert
-- ---------------------------------------------------------------------------

/-- The entry that was made for a new key, where it is placed. -/
theorem placeEntry (h : Contents others s m ages chains) (hnew : key ∉ m) {p_data : Data}
    {heap : EntryHeap Addr Data} (hm : s.heap.Created heap e key p_data) :
    SameSettings s (Ght.placeEntry ⟨heap, s.table⟩ (s.table.bucket key) e) ∧
      (Ght.placeEntry ⟨heap, s.table⟩ (s.table.bucket key) e).heap.key = heap.key ∧
      Contents others (Ght.placeEntry ⟨heap, s.table⟩ (s.table.bucket key) e)
        (m.insert key p_data) (ages ++ [e])
        (Function.update chains (s.table.bucket key) (e :: chains (s.table.bucket key))) := by
  -- making the entry leaves the others as they were
  have hkeep : ∀ a ∈ ages, s.heap.Same heap a := fun a ha => hm.kept a (h.listed.live a ha)
  have hviews : ages.map heap.view = ages.map s.heap.view :=
    List.map_congr_left fun a ha => (hkeep a ha).view
  have hlisted := h.listed.congr hkeep
  have hkey : Ght.entryOf ⟨heap, s.table⟩ ages key = none := by
    rw [Ght.entryOf_eq_none_iff, hviews]
    exact Ght.entryOf_eq_none_iff.mp ((Ght.entryOf_eq_none h.view).mpr hnew)
  have hplaced := hlisted.placeEntry (e := e) hm.mem (fun he => hm.fresh (h.listed.live e he))
    hm.newer hm.view hm.size hkey
  refine ⟨?_, ?_, hplaced, ?_, ?_⟩
  · rw [hlisted.placeEntry_eq]
    exact ⟨rfl, rfl, rfl⟩
  · rw [hlisted.placeEntry_eq]
  · rw [hlisted.placeEntry_eq, List.map_append]
    show ages.map heap.view ++ [heap.view e] = ((m.insert key p_data).entries.map storedAs).reverse
    rw [hviews, h.view, hm.view, AList.entries_insert_of_notMem hnew, List.map_cons,
      List.reverse_cons]
    rfl
  · rw [hlisted.placeEntry_eq]
    show heap.live.Perm (ages ++ [e] ++ others)
    rw [hm.live, List.append_assoc]
    exact (h.memory.cons e).trans List.perm_middle.symm

-- ---------------------------------------------------------------------------
-- ght_get and ght_replace
-- ---------------------------------------------------------------------------

/-- A search finds the entry of the key, and leaves the contents. -/
theorem search (h : Contents others s m ages chains) (key : List UInt8) :
    ∃ t chains', s.search key = some (t, s.entryOf ages key) ∧ SameSettings s t ∧
      t.heap.view = s.heap.view ∧ Contents others t m ages chains' := by
  obtain ⟨next, prev, c, hr, hsearch⟩ :=
    h.listed.searchInBucket key (UInt8.ofInt s.table.i_heuristics)
  exact ⟨_, _, hsearch, ⟨rfl, rfl, rfl⟩, rfl, h.listed.rechained hr, h.view, h.memory⟩

/-- What a search found is what `ght_get` returns. -/
theorem ghtGet_of (h : Contents others s m ages chains)
    (hsearch : s.search key = some (t, s.entryOf ages key)) (hview : t.heap.view = s.heap.view) :
    s.ghtGet key = some (t, m.lookup key) := by
  have hdata : t.heap.p_data = s.heap.p_data :=
    funext fun a => congrArg Prod.snd (congrFun hview a)
  rw [Ght.ghtGet, hsearch, ← Ght.bind_entryOf h.view key, ← hdata]
  rfl

/-- `ght_get` returns what the map has. -/
theorem ghtGet (h : Contents others s m ages chains) (key : List UInt8) :
    ∃ t chains', s.ghtGet key = some (t, m.lookup key) ∧ SameSettings s t ∧
      Contents others t m ages chains' := by
  obtain ⟨t, chains', hsearch, hsettings, hview, h'⟩ := h.search key
  exact ⟨t, chains', h.ghtGet_of hsearch hview, hsettings, h'⟩

/-- Without heuristics a lookup writes nothing. -/
theorem ghtGet_still (h : Contents others s m ages chains) (hheuristics : s.table.i_heuristics = 0)
    (key : List UInt8) : s.ghtGet key = some (s, m.lookup key) := by
  refine h.ghtGet_of (h.listed.search_stays (.inl ?_)) rfl
  rw [hheuristics]
  decide

/-- Other data for the entry of a key. -/
theorem setData (h : Contents others s m ages chains) (hkey : s.entryOf ages key = some e)
    (p_data : Data) :
    Contents others (s.onHeap (·.setData e p_data)) (m.replace key p_data) ages chains where
  listed := h.listed.setData e p_data
  view := by
    obtain ⟨found⟩ := exists_found h.view hkey
    have hnodup := h.listed.ages_nodup
    rw [found.ages_eq] at hnodup
    obtain ⟨-, holder, hnewer, -, -⟩ := nodup_around hnodup
    have hkeep : ∀ l : List Addr, e ∉ l →
        l.map (s.heap.setData e p_data).view = l.map s.heap.view := by
      intro l hl
      refine List.map_congr_left fun a ha => Prod.ext rfl ?_
      exact Function.update_of_ne (ne_of_mem_of_not_mem ha hl) _ _
    have he : (s.heap.setData e p_data).view e = storedAs ⟨key, p_data⟩ :=
      Prod.ext (Ght.entryOf_key hkey) (Function.update_self ..)
    show ages.map (s.heap.setData e p_data).view = _
    rw [found.ages_eq, found.replace, List.map_append, List.map_cons, hkeep _ holder,
      hkeep _ hnewer, he, found.older_view, found.newer_view]
    simp
  memory := h.memory

/-- After the search `ght_replace` changes the data of the entry that was found. -/
theorem ghtReplace_of (h : Contents others s m ages chains)
    (hsearch : s.search key = some (t, s.entryOf ages key)) (hview : t.heap.view = s.heap.view)
    (ht : Contents others t m ages chains') (p_data : Data) :
    ∃ t', s.ghtReplace p_data key = some (t', m.lookup key) ∧ SameSettings t t' ∧
      t'.heap.key = t.heap.key ∧ Contents others t' (m.replace key p_data) ages chains' := by
  have hentry : t.entryOf ages key = s.entryOf ages key := by
    have hk : t.heap.key = s.heap.key := funext fun a => congrArg Prod.fst (congrFun hview a)
    rw [entryOf, hk, entryOf]
  have hdata := bind_entryOf ht.view key
  rw [hentry] at hdata
  rw [Ght.ghtReplace, hsearch, ← hdata]
  cases hkey : s.entryOf ages key with
  | none =>
    rw [replace_of_notMem ((entryOf_eq_none h.view).mp hkey)]
    exact ⟨t, rfl, .refl t, rfl, ht⟩
  | some e => exact ⟨_, rfl, ⟨rfl, rfl, rfl⟩, rfl, ht.setData (hentry.trans hkey) p_data⟩

/-- `ght_replace` returns what the map has and replaces it there. -/
theorem ghtReplace (h : Contents others s m ages chains) (p_data : Data) (key : List UInt8) :
    ∃ t chains', s.ghtReplace p_data key = some (t, m.lookup key) ∧ SameSettings s t ∧
      Contents others t (m.replace key p_data) ages chains' := by
  obtain ⟨t, chains', hsearch, hsettings, hview, h'⟩ := h.search key
  obtain ⟨t', hrun, hsettings', -, h''⟩ := h.ghtReplace_of hsearch hview h' p_data
  exact ⟨t', chains', hrun, hsettings.trans hsettings', h''⟩

-- ---------------------------------------------------------------------------
-- ght_remove
-- ---------------------------------------------------------------------------

/-- The entry of the key goes, and the chains are otherwise what they were. -/
theorem ghtRemove (h : Contents others s m ages chains) (key : List UInt8) :
    ∃ t ages' chains', s.ghtRemove key = some (t, m.lookup key) ∧ SameSettings s t ∧
      t.heap.key = s.heap.key ∧ ages'.Sublist ages ∧ (∀ b, (chains' b).Sublist (chains b)) ∧
      Contents others t (m.erase key) ages' chains' := by
  have hdata := bind_entryOf h.view key
  cases hkey : s.entryOf ages key with
  | none =>
    rw [hkey, Option.bind_none] at hdata
    rw [← hdata, erase_of_notMem ((entryOf_eq_none h.view).mp hkey)]
    exact ⟨s, ages, chains, h.listed.ghtRemove_none hkey, .refl s, rfl, List.Sublist.refl ages,
      fun b => List.Sublist.refl _, h⟩
  | some e =>
    obtain ⟨found⟩ := exists_found h.view hkey
    have hekey := Ght.entryOf_key hkey
    have he : e ∈ chains (s.table.bucket key) :=
      (h.listed.bucket _ e).mpr ⟨entryOf_mem hkey, by rw [hekey]⟩
    -- the entry divides its chain and the list by age
    obtain ⟨l, r, hc⟩ := List.append_of_mem he
    have hlisted := h.listed
    have hmemory := h.memory
    rw [found.ages_eq] at hlisted hmemory
    have hunlinked := hlisted.unlinkEntry hekey hc
    refine ⟨_, _, _, ?_, ?_, ?_, ?_, ?_, hunlinked, ?_, ?_⟩
    · rw [Ght.ghtRemove]
      simp only [h.listed.searchInBucket_zero, Option.bind_eq_bind, Option.bind_some, hkey]
      rw [hkey, Option.bind_some] at hdata
      rw [hlisted.unlinkEntry_eq hc, ← hdata]
      rfl
    · rw [hlisted.unlinkEntry_eq hc]
      exact ⟨rfl, rfl, rfl⟩
    · rw [hlisted.unlinkEntry_eq hc]
      rfl
    · refine (congrArg (List.Sublist (found.older ++ found.newer)) found.ages_eq).mpr ?_
      exact List.Sublist.append_left (List.sublist_cons_self e found.newer) found.older
    · refine (Function.forall_update_iff chains fun b l => l.Sublist (chains b)).mpr
        ⟨?_, fun b _ => List.Sublist.refl _⟩
      exact hc ▸ List.Sublist.append_left (List.sublist_cons_self e r) l
    · rw [hlisted.unlinkEntry_eq hc, List.map_append]
      rw [found.erase, List.map_append, List.reverse_append, ← found.older_view,
        ← found.newer_view]
      rfl
    · rw [hlisted.unlinkEntry_eq hc]
      have herase := (hmemory.trans (List.perm_middle.append_right others)).erase e
      rw [List.cons_append, List.erase_cons_head] at herase
      exact herase

end Contents

end Ght

end VfsRedirector
