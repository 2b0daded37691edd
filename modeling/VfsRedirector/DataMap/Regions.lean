import VfsRedirector.Library.Shares
import VfsRedirector.DataMap.Threads
import VfsRedirector.DataMap.Refinement

/-!
# What a thread does while it has the lock

`LockRegion.Good` says for each place in the code under the lock what the list is and what the
thread knows of it. Between the two writes of `InsertHeadList` and of `RemoveEntryList` the
list is not in order; what is said there is that it will be, after the write that is still
to come.

Each call takes effect at one step: a removal when the entry before is linked to the one
behind, an insertion when the head is linked to the new entry, a search when it ends. Up to
it a thread has called (`LockRegion.phase`), from it on it has a result. `LockRegion.step_spec` says
that the contents of the list change at this step and no other, and how.

## Results

* `LockRegion.step_spec` — one step with the lock, wherever in the list it is.
-/

namespace VfsRedirector

open Library EntryMemory

variable {Thread Addr K D : Type}

-- ---------------------------------------------------------------------------
-- Calls
-- ---------------------------------------------------------------------------

/-- A call of a map that is alone. -/
def MapRequest.apply [DecidableEq K] (x : DataMap K D) (call : MapRequest K D) (alloc : Bool) :
    DataMap K D × DataMapResult K D :=
  x.call (call.withMemory alloc)

def Finder.call (key : K) : Finder Addr D → MapRequest K D
  | add data _ => .addDataByKey key data
  | remove => .removeKey key
  | get => .getDataByKey key

def Removal.call : Removal K → MapRequest K D
  | key k => .removeKey k
  | first => .removeFirstEntryAndReturnItsData

/-- The entry to be removed is `a`, behind those of `before`. -/
def Removal.Picks (m : EntryMemory Addr K D) (before : List Addr) (a : Addr) : Removal K → Prop
  | key k => m.key a = k ∧ ∀ b ∈ before, m.key b ≠ k
  | first => before = []

-- ---------------------------------------------------------------------------
-- Places
-- ---------------------------------------------------------------------------

/-- What a caller can tell of a thread under the lock. -/
def LockRegion.phase (m : EntryMemory Addr K D) :
    LockRegion Addr K D → Phase (MapRequest K D) (DataMapResult K D)
  | find finder key _ => .called (finder.call key)
  | replace key data _ _ | insertHeadList key data _ | insertBlink key data _ _
  | insertFlink key data _ => .called (.addDataByKey key data)
  | first => .called .removeFirstEntryAndReturnItsData
  | removeEntryList removal _ | removeFlink removal _ _ _ => .called removal.call
  | removeBlink removal entry _ _ => .done ((Rest.remove removal (some entry)).result m)
  | read key _ => .called (.getDataByKey key)

/-- The entry that is to be added. -/
def LockRegion.given : LockRegion Addr K D → Option (Addr × K × D)
  | find (.add data entry) key _ | replace key data entry _ | insertHeadList key data entry
  | insertBlink key data entry _ | insertFlink key data entry => some (entry, key, data)
  | _ => none

/-- The entry that is the thread's alone: one that is not yet in the list, or not any more. -/
def LockRegion.own : LockRegion Addr K D → Option Addr
  | find (.add _ entry) _ _ | replace _ _ entry _ | insertHeadList _ _ entry
  | insertBlink _ _ entry _ | insertFlink _ _ entry | removeBlink _ entry _ _ => some entry
  | _ => none

/-- The new entry has what it was given. -/
def LockRegion.Filled (m : EntryMemory Addr K D) (r : LockRegion Addr K D) : Prop :=
  ∀ entry key data, r.given = some (entry, key, data) → m.entryAt entry = (key, data)

/-- Where the code under the lock begins. -/
def LockRegion.Starts (head : Addr) : LockRegion Addr K D → Prop
  | find _ _ prev => prev = head
  | first => True
  | _ => False

/-- No entry of `l` has the key. -/
def Absent (m : EntryMemory Addr K D) (l : List Addr) (key : K) : Prop := ∀ b ∈ l, m.key b ≠ key

/-- The entry is in the list, and is the one to be removed. -/
def Picked (head : Addr) (m : EntryMemory Addr K D) (l : List Addr) (removal : Removal K)
    (entry : Addr) : Prop :=
  Circular m.flink m.blink head l ∧
    ∃ before after, l = before ++ entry :: after ∧ removal.Picks m before entry

variable [DecidableEq Addr]

/-- What a thread under the lock can rely on. -/
def LockRegion.Good (head : Addr) (m : EntryMemory Addr K D) (l : List Addr) :
    LockRegion Addr K D → Prop
  | find _ key prev => Circular m.flink m.blink head l ∧
      ∃ before after, l = before ++ after ∧ Span m.flink m.blink prev after head ∧
        prev ∈ head :: before ∧ Absent m before key
  | replace key _ _ existingEntry => Picked head m l (.key key) existingEntry
  | insertHeadList key _ _ => Circular m.flink m.blink head l ∧ Absent m l key
  | insertBlink key _ entry flink => Circular m.flink m.blink head l ∧ Absent m l key ∧
      flink = m.flink head ∧ m.flink entry = flink ∧ m.blink entry = head
  | insertFlink key _ entry => Absent m l key ∧ (m.flink head = head ↔ l = []) ∧
      Circular (Function.update m.flink head entry) m.blink head (entry :: l)
  | first => Circular m.flink m.blink head l
  | removeEntryList removal entry => Picked head m l removal entry
  | removeFlink removal entry flink blink => Picked head m l removal entry ∧
      flink = m.flink entry ∧ blink = m.blink entry
  | removeBlink _ _ flink blink => flink ∈ head :: l ∧
      Circular m.flink (Function.update m.blink flink blink) head l
  | read key entry => Picked head m l (.key key) entry

namespace MapThreadPc

/-- What the caller can tell of a thread. -/
def phase (m : EntryMemory Addr K D) :
    MapThreadPc Addr K D → Phase (MapRequest K D) (DataMapResult K D)
  | idle => .idle
  | malloc key data => .called (.addDataByKey key data)
  | lock r | locked r => r.phase m
  | unlock rest | unlocked rest => .done (rest.result m)
  | isEmpty => .called .isEmpty
  | ret result => .done result

def own : MapThreadPc Addr K D → Option Addr
  | lock r | locked r => r.own
  | unlock rest | unlocked rest => rest.own
  | _ => none

def HasLock : MapThreadPc Addr K D → Prop
  | locked _ | unlock _ => True
  | _ => False

/-- What the thread with the lock can rely on. -/
def Inside (head : Addr) (m : EntryMemory Addr K D) (l : List Addr) : MapThreadPc Addr K D → Prop
  | locked r => r.Good head m l
  | _ => Circular m.flink m.blink head l

/-- What a thread can rely on whoever has the lock. -/
def Local (head : Addr) (m : EntryMemory Addr K D) : MapThreadPc Addr K D → Prop
  | lock r => r.Starts head ∧ r.Filled m
  | locked r => r.Filled m
  | _ => True

end MapThreadPc

-- ---------------------------------------------------------------------------
-- The contents
-- ---------------------------------------------------------------------------

section Contents

variable [DecidableEq K] {m : EntryMemory Addr K D} {l before after : List Addr} {a : Addr}
  {x : DataMap K D} {key : K}

omit [DecidableEq Addr] [DecidableEq K] in
/-- No entry of this part of the list has the key. -/
theorem Absent.entries (h : Absent m l key) : ∀ e ∈ l.map m.entryAt, e.1 ≠ key := by
  intro e he
  obtain ⟨b, hb, rfl⟩ := List.mem_map.mp he
  exact h b hb

omit [DecidableEq Addr] in
/-- If it is the whole list the map does not have it. -/
theorem Absent.find_eq (h : Absent m l key) (hx : x.entries = l.map m.entryAt) :
    x.getDataByKey key = none := by
  unfold DataMap.getDataByKey
  rw [hx, DataMap.find_eq_none_iff]
  intro hmem
  obtain ⟨e, he, hkey⟩ := List.mem_map.mp hmem
  exact h.entries e he hkey

omit [DecidableEq Addr] in
/-- What a removal does to the contents, and what it returns. -/
theorem Removal.Picks.apply_eq {removal : Removal K} (h : removal.Picks m before a)
    (hx : x.entries = (before ++ a :: after).map m.entryAt) (alloc : Bool) :
    (removal.call.apply x alloc).1.entries = (before ++ after).map m.entryAt ∧
      (removal.call.apply x alloc).2 = (Rest.remove removal (some a)).result m := by
  rw [List.map_append, List.map_cons] at hx
  cases removal with
  | key k =>
    obtain ⟨rfl, habsent⟩ := h
    refine ⟨?_, rfl⟩
    show DataMap.erase (m.key a) x.entries = _
    rw [hx, List.map_append]
    exact DataMap.erase_append (Absent.entries habsent)
  | first =>
    obtain rfl : before = [] := h
    constructor
    · show x.entries.tail = _
      rw [hx]
      rfl
    · show DataMapResult.first x.entries.head? = _
      rw [hx]
      rfl

end Contents

-- ---------------------------------------------------------------------------
-- One step
-- ---------------------------------------------------------------------------

section Step

variable [DecidableEq K]

/-- A step from `r` in `m` and with the contents `x` of the list `l`: a thread is at `p` after
it, and the list `l'` has the contents `x'`. -/
structure Stepped (head : Addr) (m : EntryMemory Addr K D) (l : List Addr) (x : DataMap K D)
    (r : LockRegion Addr K D) (m' : EntryMemory Addr K D) (p : MapThreadPc Addr K D)
    (l' : List Addr) (x' : DataMap K D) : Prop where
  inside : p.Inside head m' l'
  known : p.Local head m'
  keeps : p.HasLock
  shares : (l' ++ p.own.toList).Perm (l ++ r.own.toList)
  allocations : m'.entries = m.entries
  outside : ∀ a, a ∉ l → m'.entryAt a = m.entryAt a
  contents : x'.entries = l'.map m'.entryAt
  effect : (x' = x ∧ p.phase m' = r.phase m) ∨ ∃ call, r.phase m = .called call ∧
    x' = (call.apply x true).1 ∧ p.phase m' = .done (call.apply x true).2

variable {head : Addr} {m m' : EntryMemory Addr K D} {l : List Addr} {x : DataMap K D}
  {r : LockRegion Addr K D} {p : MapThreadPc Addr K D} {key : K} {data : D} {entry : Addr}

/-- A step that leaves the contents as they are. -/
theorem Stepped.quiet (hx : x.entries = l.map m.entryAt) (hinside : p.Inside head m' l)
    (hknown : p.Local head m') (hkeeps : p.HasLock) (hentry : p.own = r.own)
    (hallocations : m'.entries = m.entries) (hentries : m'.entryAt = m.entryAt)
    (hphase : p.phase m' = r.phase m) : Stepped head m l x r m' p l x where
  inside := hinside
  known := hknown
  keeps := hkeeps
  shares := by rw [hentry]
  allocations := hallocations
  outside := fun a _ => by rw [hentries]
  contents := by rw [hx, hentries]
  effect := .inl ⟨rfl, hphase⟩

/-- The step at which a call takes effect that leaves the list as it is. -/
theorem Stepped.atomic {c : MapRequest K D} {rest : Rest Addr K D} (hinside : Circular m'.flink
    m'.blink head l) (hentry : rest.own = r.own) (hallocations : m'.entries = m.entries)
    (houtside : ∀ a, a ∉ l → m'.entryAt a = m.entryAt a) (hcall : r.phase m = .called c)
    (hcontents : (c.apply x true).1.entries = l.map m'.entryAt)
    (hresult : rest.result m' = (c.apply x true).2) :
    Stepped head m l x r m' (.unlock rest) l (c.apply x true).1 where
  inside := hinside
  known := trivial
  keeps := trivial
  shares := by
    show (l ++ rest.own.toList).Perm _
    rw [hentry]
  allocations := hallocations
  outside := houtside
  contents := hcontents
  effect := .inr ⟨c, hcall, rfl, congrArg Phase.done hresult⟩

omit [DecidableEq Addr] [DecidableEq K] in
/-- The search goes on over an entry of another key. -/
theorem Absent.append {before : List Addr} {a : Addr} (h : Absent m before key)
    (ha : m.key a ≠ key) : Absent m (before ++ [a]) key := by
  intro b hb
  rcases List.mem_append.mp hb with hb | hb
  · exact h b hb
  · exact List.mem_singleton.mp hb ▸ ha

omit [DecidableEq Addr] [DecidableEq K] in
/-- The head points to itself where there is no entry. -/
theorem flink_head_iff (hring : Circular m.flink m.blink head l) (hhead : head ∉ l) :
    m.flink head = head ↔ l = [] := by
  cases l with
  | nil => exact iff_of_true (span_nil.mp hring).1 rfl
  | cons a l =>
    refine iff_of_false (fun heq => hhead ?_) (List.cons_ne_nil a l)
    rw [(span_cons.mp hring).1.1] at heq
    exact heq ▸ List.mem_cons_self

/-- One step of the search: the entry is looked at, or the head is reached. -/
theorem stepped_find {finder : Finder Addr D} {prev : Addr} (hx : x.entries = l.map m.entryAt)
    (hgood : (LockRegion.find finder key prev).Good head m l)
    (hfilled : (LockRegion.find finder key prev).Filled m) (hhead : head ∉ l) :
    ∃ x', Stepped head m l x (.find finder key prev)
      ((LockRegion.find finder key prev).step head m).1
      ((LockRegion.find finder key prev).step head m).2 l x' := by
  obtain ⟨hring, before, after, rfl, hspan, -, habsent⟩ := hgood
  -- the search is at the end of the ring, or at the next entry
  cases after with
  | nil =>
    have hstep : (LockRegion.find finder key prev).step head m = (m, finder.absent key) :=
      if_pos (span_nil.mp hspan).1
    rw [hstep]
    rw [List.append_nil] at hring hx ⊢
    have herase := DataMap.erase_of_absent habsent.entries
    cases finder with
    | add data entry =>
      exact ⟨x, .quiet hx ⟨hring, habsent⟩ hfilled trivial rfl rfl rfl rfl⟩
    | remove =>
      refine ⟨_, .atomic hring rfl rfl (fun _ _ => rfl) rfl ?_ rfl⟩
      show DataMap.erase key x.entries = _
      rw [hx, herase]
    | get =>
      refine ⟨_, .atomic hring rfl rfl (fun _ _ => rfl) rfl hx ?_⟩
      show DataMapResult.found none = .found (x.getDataByKey key)
      rw [habsent.find_eq hx]
  | cons a after =>
    obtain ⟨⟨hflink, -⟩, hrest⟩ := span_cons.mp hspan
    have ha : a ≠ head := by
      rintro rfl
      exact hhead (by simp)
    -- the entry has the key, or the search goes on with it among those without
    by_cases hkey : m.key a = key
    · have hstep : (LockRegion.find finder key prev).step head m = (m, finder.found key a) := by
        rw [LockRegion.step, hflink, if_neg ha, if_pos hkey]
      rw [hstep]
      have hpicked : Picked head m (before ++ a :: after) (.key key) a :=
        ⟨hring, before, after, rfl, hkey, habsent⟩
      cases finder with
      | add data entry => exact ⟨x, .quiet hx hpicked hfilled trivial rfl rfl rfl rfl⟩
      | remove => exact ⟨x, .quiet hx hpicked nofun trivial rfl rfl rfl rfl⟩
      | get => exact ⟨x, .quiet hx hpicked nofun trivial rfl rfl rfl rfl⟩
    · have hstep : (LockRegion.find finder key prev).step head m =
          (m, .locked (.find finder key a)) := by
        rw [LockRegion.step, hflink, if_neg ha, if_neg hkey]
      rw [hstep]
      have hgood : (LockRegion.find finder key a).Good head m (before ++ a :: after) :=
        ⟨hring, before ++ [a], after, by simp, hrest, by simp, habsent.append hkey⟩
      cases finder <;> exact ⟨x, .quiet hx hgood hfilled trivial rfl rfl rfl rfl⟩

/-- The data of an entry that is there is replaced, and the call takes effect. -/
theorem stepped_replace {existingEntry : Addr} (hx : x.entries = l.map m.entryAt)
    (hgood : (LockRegion.replace key data entry existingEntry).Good head m l) (hnodup : l.Nodup) :
    ∃ x', Stepped head m l x (.replace key data entry existingEntry)
      (m.setData existingEntry data) (.unlock (.add (some entry))) l x' := by
  obtain ⟨hring, before, after, rfl, hkey, habsent⟩ := hgood
  rw [List.map_append, List.map_cons] at hx
  have hfind : DataMap.findEntryByKey key x.entries = some (m.data existingEntry) := by
    rw [hx, ← hkey]
    refine DataMap.find_append ?_
    rw [hkey]
    exact Absent.entries habsent
  refine ⟨_, .atomic (c := .addDataByKey key data) hring rfl rfl (fun a ha => ?_) rfl ?_ ?_⟩
  · have hne : a ≠ existingEntry := by
      rintro rfl
      exact ha (by simp)
    exact congrArg (Prod.mk (m.key a)) (Function.update_of_ne hne _ _)
  · show (x.addDataByKey key data true).1.entries = _
    rw [DataMap.entries_add_present (by rw [hfind]; simp), hx, map_entryAt_setData hnodup, hkey]
    show DataMap.replace key data (_ ++ (m.key existingEntry, m.data existingEntry) :: _) = _
    rw [hkey]
    exact DataMap.replace_append (Absent.entries habsent) data
  · exact congrArg DataMapResult.added (DataMap.addDataByKey_result x key data true).symm

/-- The new entry is linked to its neighbours, which do not lead to it yet. -/
theorem stepped_insertHeadList (hx : x.entries = l.map m.entryAt)
    (hgood : (LockRegion.insertHeadList key data entry).Good head m l)
    (hfilled : (LockRegion.insertHeadList key data entry).Filled m) (hentry : entry ∉ head :: l) :
    Stepped head m l x (.insertHeadList key data entry)
      ((m.setFlink entry (m.flink head)).setBlink entry head)
      (.locked (.insertBlink key data entry (m.flink head))) l x := by
  obtain ⟨hring, habsent⟩ := hgood
  have hne : ∀ b ∈ head :: l, b ≠ entry := fun b hb => ne_of_mem_of_not_mem hb hentry
  refine .quiet hx ⟨?_, habsent, ?_, Function.update_self .., Function.update_self ..⟩ hfilled
    trivial rfl rfl rfl rfl
  · refine (span_congr (fun b hb => ?_) fun b hb => ?_).mpr hring
    · exact Function.update_of_ne (hne b hb) _ _
    · refine Function.update_of_ne (hne b ?_) _ _
      rcases List.mem_append.mp hb with hb | hb
      · exact List.mem_cons_of_mem _ hb
      · exact List.mem_singleton.mp hb ▸ List.mem_cons_self
  · exact (Function.update_of_ne (hne head List.mem_cons_self) _ _).symm

/-- The first entry is linked back to the new one, which the search does not follow. -/
theorem stepped_insertBlink {flink : Addr} (hx : x.entries = l.map m.entryAt)
    (hgood : (LockRegion.insertBlink key data entry flink).Good head m l)
    (hfilled : (LockRegion.insertBlink key data entry flink).Filled m) (hnodup : (head :: l).Nodup)
    (hentry : entry ∉ head :: l) :
    Stepped head m l x (.insertBlink key data entry flink) (m.setBlink flink entry)
      (.locked (.insertFlink key data entry)) l x := by
  obtain ⟨hring, habsent, rfl, hflink, hblink⟩ := hgood
  have hempty : m.flink head = head ↔ l = [] :=
    flink_head_iff hring (List.nodup_cons.mp hnodup).1
  have hflinkSame : Function.update m.flink entry (m.flink head) = m.flink :=
    Function.update_eq_self_iff.mpr hflink.symm
  have hblinkSame : Function.update m.blink entry head = m.blink :=
    Function.update_eq_self_iff.mpr hblink.symm
  have hinsert := hring.insert hnodup hentry
  rw [hflinkSame, hblinkSame] at hinsert
  exact .quiet hx ⟨habsent, hempty, hinsert⟩ hfilled trivial rfl rfl rfl rfl

/-- With the head linked to it, it is in the list and the call takes effect. -/
theorem stepped_insertFlink (hx : x.entries = l.map m.entryAt)
    (hgood : (LockRegion.insertFlink key data entry).Good head m l)
    (hfilled : (LockRegion.insertFlink key data entry).Filled m) :
    ∃ x', Stepped head m l x (.insertFlink key data entry) (m.setFlink head entry)
      (.unlock (.add none)) (entry :: l) x' := by
  obtain ⟨habsent, -, hring⟩ := hgood
  refine ⟨(x.addDataByKey key data true).1, ?_⟩
  constructor
  case inside => exact hring
  case known => trivial
  case keeps => trivial
  case shares =>
    show (entry :: l ++ []).Perm (l ++ [entry])
    rw [List.append_nil]
    exact (List.perm_append_singleton entry l).symm
  case allocations => rfl
  case outside => exact fun _ _ => rfl
  case contents =>
    rw [DataMap.entries_add_absent (habsent.find_eq hx), hx]
    show _ = m.entryAt entry :: l.map m.entryAt
    rw [hfilled entry key data rfl]
  case effect =>
    refine .inr ⟨.addDataByKey key data, rfl, rfl, ?_⟩
    exact congrArg (Phase.done ∘ DataMapResult.added)
      (DataMap.addDataByKey_result x key data true).symm

/-- The first entry is picked, or there is none. -/
theorem stepped_first (hx : x.entries = l.map m.entryAt)
    (hgood : (LockRegion.first : LockRegion Addr K D).Good head m l) (hhead : head ∉ l) :
    ∃ x', Stepped head m l x .first ((LockRegion.first : LockRegion Addr K D).step head m).1
      ((LockRegion.first : LockRegion Addr K D).step head m).2 l x' := by
  have hring : Circular m.flink m.blink head l := hgood
  have hempty := flink_head_iff hring hhead
  -- an empty list gives nothing, and the call takes effect here
  by_cases hl : l = []
  · have hstep : (LockRegion.first : LockRegion Addr K D).step head m =
        (m, .unlock (.remove .first none)) :=
      if_pos (decide_eq_true (hempty.mpr hl))
    subst hl
    rw [hstep]
    refine ⟨_, .atomic (c := .removeFirstEntryAndReturnItsData) hring rfl rfl (fun _ _ => rfl)
      rfl ?_ ?_⟩
    · show x.entries.tail = _
      rw [hx]
      rfl
    · show DataMapResult.first none = .first x.entries.head?
      rw [hx]
      rfl
  · have hstep : (LockRegion.first : LockRegion Addr K D).step head m =
        (m, .locked (.removeEntryList .first (m.flink head))) :=
      if_neg (by rw [isListEmpty, decide_eq_true_iff, hempty]; exact hl)
    rw [hstep]
    obtain ⟨a, after, rfl⟩ := List.exists_cons_of_ne_nil hl
    have hflink := (span_cons.mp hring).1.1
    refine ⟨x, .quiet hx ⟨hring, [], after, ?_, rfl⟩ nofun trivial rfl rfl rfl rfl⟩
    rw [hflink]
    rfl

/-- With the first of the two writes of a removal the entry is out of the list. -/
theorem stepped_removeFlink {removal : Removal K} {flink blink : Addr}
    (hx : x.entries = l.map m.entryAt)
    (hgood : (LockRegion.removeFlink removal entry flink blink : LockRegion Addr K D).Good head m l)
    (hnodup : (head :: l).Nodup) :
    ∃ l' x', Stepped head m l x (.removeFlink removal entry flink blink) (m.setFlink blink flink)
      (.locked (.removeBlink removal entry flink blink)) l' x' := by
  obtain ⟨⟨hring, before, after, rfl, hpicks⟩, rfl, rfl⟩ := hgood
  obtain ⟨hcontents, hresult⟩ := hpicks.apply_eq hx true
  refine ⟨before ++ after, (removal.call.apply x true).1, ?_⟩
  constructor
  case inside =>
    refine ⟨?_, hring.remove hnodup⟩
    have hnext := (span_append.mp hring).2.flink_mem
    rw [List.mem_append, List.mem_singleton] at hnext
    rw [List.mem_cons, List.mem_append]
    exact hnext.symm.imp_right .inr
  case known => nofun
  case keeps => trivial
  case shares =>
    show (before ++ after ++ [entry]).Perm (before ++ entry :: after ++ [])
    rw [List.append_nil, List.append_assoc]
    exact (List.perm_append_singleton entry after).append_left before
  case allocations => rfl
  case outside => exact fun _ _ => rfl
  case contents => exact hcontents
  case effect => exact .inr ⟨removal.call, rfl, rfl, congrArg Phase.done hresult.symm⟩

/-- The data of an entry is read under the lock. -/
theorem stepped_read (hx : x.entries = l.map m.entryAt)
    (hgood : (LockRegion.read key entry : LockRegion Addr K D).Good head m l) :
    ∃ x', Stepped head m l x (.read key entry) m (.unlock (.get (some (m.data entry)))) l x' := by
  obtain ⟨hring, before, after, rfl, rfl, habsent⟩ := hgood
  refine ⟨_, .atomic (c := .getDataByKey (m.key entry)) hring rfl rfl (fun _ _ => rfl) rfl hx
    ?_⟩
  show DataMapResult.found _ = .found (DataMap.findEntryByKey _ x.entries)
  rw [hx, List.map_append, List.map_cons]
  exact congrArg DataMapResult.found (DataMap.find_append (Absent.entries habsent)).symm

/-- **One step with the lock.** The list stays as good as the place that the thread comes to
says, what it has of its own and the list are shared in another way, and the contents change
as the call says if this is the step at which it takes effect. -/
theorem LockRegion.step_spec (hx : x.entries = l.map m.entryAt) (hgood : r.Good head m l)
    (hfilled : r.Filled m) (hnodup : (head :: l).Nodup)
    (hentry : ∀ a, r.own = some a → a ∉ head :: l) :
    ∃ l' x', Stepped head m l x r (r.step head m).1 (r.step head m).2 l' x' := by
  obtain ⟨hhead, hl⟩ := List.nodup_cons.mp hnodup
  cases r with
  | find finder key prev => exact ⟨l, stepped_find hx hgood hfilled hhead⟩
  | replace key data entry existingEntry => exact ⟨l, stepped_replace hx hgood hl⟩
  | insertHeadList key data entry =>
    exact ⟨l, x, stepped_insertHeadList hx hgood hfilled (hentry entry rfl)⟩
  | insertBlink key data entry flink =>
    exact ⟨l, x, stepped_insertBlink hx hgood hfilled hnodup (hentry entry rfl)⟩
  | insertFlink key data entry => exact ⟨entry :: l, stepped_insertFlink hx hgood hfilled⟩
  | first => exact ⟨l, stepped_first hx hgood hhead⟩
  | removeEntryList removal entry =>
    exact ⟨l, x, .quiet hx ⟨hgood, rfl, rfl⟩ nofun trivial rfl rfl rfl rfl⟩
  | removeFlink removal entry flink blink => exact stepped_removeFlink hx hgood hnodup
  | removeBlink removal entry flink blink =>
    exact ⟨l, x, .quiet hx hgood.2 trivial trivial rfl rfl rfl rfl⟩
  | read key entry => exact ⟨l, stepped_read hx hgood⟩

end Step

end VfsRedirector
