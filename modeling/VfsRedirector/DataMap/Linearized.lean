import VfsRedirector.DataMap.Regions

/-!
# A DataMap that threads share is one object

The models of the hooks take an operation of a map as one step. `dataMap_linearizable` is
why they may: whatever the threads do and however their steps are interleaved, what the
callers see is a history of the map as an atomic object. `isEmpty` is in it, although it
does not take the lock and may read the head between two writes of another thread.

In every state of such a run no thread is about to access memory that is not allocated,
nothing was freed twice, a thread that is in a call can go on unless another has the lock,
and then that one can; and when no call is being served the list in memory is the map, and
nothing else is allocated.

## Results

* `touches` — a step reads and writes what is allocated.
* `progress` — somebody can go on.
* `followed_step` — each step is one of the atomic map, or none.
* `dataMap_linearizable` — the callers see a history of the map.
-/

namespace VfsRedirector

open Library EntryMemory

variable {Thread Addr K D : Type}

-- ---------------------------------------------------------------------------
-- What other threads do not change
-- ---------------------------------------------------------------------------

/-- The memory at `a` is as it was. -/
def SameMemory (m m' : EntryMemory Addr K D) (a : Addr) : Prop :=
  m'.flink a = m.flink a ∧ m'.blink a = m.blink a ∧ m'.entryAt a = m.entryAt a

section Same

variable {m m' : EntryMemory Addr K D} {l : List Addr} {head : Addr} {p : MapThreadPc Addr K D}
  {r : LockRegion Addr K D} {rest : Rest Addr K D}

/-- The entry that a thread has been given is its own. -/
theorem LockRegion.entry_of_newEntry {entry : Addr} {key : K} {data : D}
    (h : r.given = some (entry, key, data)) : r.own = some entry := by
  cases r with
  | find finder key' prev =>
    cases finder with
    | add data' entry' =>
      cases h
      rfl
    | remove => cases h
    | get => cases h
  | replace | insertHeadList | insertBlink | insertFlink =>
    cases h
    rfl
  | first | removeEntryList | removeFlink | removeBlink | read => cases h

theorem LockRegion.Filled.congr (h : r.Filled m)
    (hsame : ∀ a, r.own = some a → m'.entryAt a = m.entryAt a) : r.Filled m' := by
  intro entry key data hnew
  rw [hsame entry (entry_of_newEntry hnew)]
  exact h entry key data hnew

/-- What a call is still to return depends on the thread's own entry only. -/
theorem Rest.result_congr (hsame : ∀ a, rest.own = some a → m'.entryAt a = m.entryAt a) :
    rest.result m' = rest.result m := by
  cases rest with
  | add freeEntry => rfl
  | get data => rfl
  | remove removal entryToRemove =>
    cases removal with
    | key k => rfl
    | first =>
      cases entryToRemove with
      | none => rfl
      | some a => exact congrArg (DataMapResult.first ∘ some) (hsame a rfl)

/-- How far a call has come depends on the thread's own entry only. -/
theorem MapThreadPc.phase_congr (hsame : ∀ a, p.own = some a → m'.entryAt a = m.entryAt a) :
    p.phase m' = p.phase m := by
  have hregion : ∀ r : LockRegion Addr K D,
      (∀ a, r.own = some a → m'.entryAt a = m.entryAt a) → r.phase m' = r.phase m := by
    intro r hsame
    cases r with
    | removeBlink removal entry flink blink =>
      have hresult : (Rest.remove removal (some entry)).result m' =
          (Rest.remove removal (some entry)).result m := Rest.result_congr hsame
      exact congrArg Phase.done hresult
    | _ => rfl
  cases p with
  | lock r => exact hregion r hsame
  | locked r => exact hregion r hsame
  | unlock rest => exact congrArg Phase.done (Rest.result_congr hsame)
  | unlocked rest => exact congrArg Phase.done (Rest.result_congr hsame)
  | _ => rfl

theorem MapThreadPc.Local.congr (h : p.Local head m)
    (hsame : ∀ a, p.own = some a → m'.entryAt a = m.entryAt a) : p.Local head m' := by
  cases p with
  | lock r => exact ⟨h.1, h.2.congr hsame⟩
  | locked r => exact LockRegion.Filled.congr h hsame
  | _ => trivial

/-- That a part of the list does not have a key depends on the entries of this part. -/
theorem Absent.congr {key : K} (h : Absent m l key) (hsame : ∀ a ∈ l, SameMemory m m' a) :
    Absent m' l key := by
  intro b hb
  have hkey : m'.key b = m.key b := congrArg Prod.fst (hsame b hb).2.2
  rw [hkey]
  exact h b hb

/-- A part of the list is linked as before if its entries are untouched. -/
theorem span_same {a c : Addr} {l : List Addr}
    (h : Span m.flink m.blink a l c) (hsame : ∀ x ∈ a :: l ++ [c], SameMemory m m' x) :
    Span m'.flink m'.blink a l c :=
  (span_congr (fun x hx => (hsame x (List.mem_append_left _ hx)).1) fun x hx =>
    (hsame x (List.mem_cons_of_mem a hx)).2.1).mpr h

/-- The list is linked as before if its entries are untouched. -/
theorem circular_same (h : Circular m.flink m.blink head l)
    (hsame : ∀ a ∈ head :: l, SameMemory m m' a) : Circular m'.flink m'.blink head l := by
  refine span_same h fun x hx => hsame x ?_
  rcases List.mem_append.mp hx with hx | hx
  · exact hx
  · exact List.mem_singleton.mp hx ▸ List.mem_cons_self

theorem Picked.congr {removal : Removal K} {entry : Addr} (h : Picked head m l removal entry)
    (hsame : ∀ a ∈ head :: l, SameMemory m m' a) : Picked head m' l removal entry := by
  obtain ⟨hring, before, after, rfl, hpicks⟩ := h
  refine ⟨circular_same hring hsame, before, after, rfl, ?_⟩
  cases removal with
  | first => exact hpicks
  | key k =>
    obtain ⟨hkey, habsent⟩ := hpicks
    have hentry : m'.key entry = m.key entry :=
      congrArg Prod.fst (hsame entry (by simp)).2.2
    exact ⟨hentry.trans hkey, Absent.congr habsent fun a ha => hsame a (by simp [ha])⟩

variable [DecidableEq Addr]

theorem MapThreadPc.Inside.congr (h : p.Inside head m l)
    (hsame : ∀ a ∈ head :: l, SameMemory m m' a)
    (hentry : ∀ a, p.own = some a → SameMemory m m' a) : p.Inside head m' l := by
  -- what the thread knows is about the ring and its own entry, and both are the same
  have hlist : ∀ a ∈ l, SameMemory m m' a := fun a ha => hsame a (List.mem_cons_of_mem _ ha)
  cases p with
  | locked r =>
    cases r with
    | find finder key prev =>
      obtain ⟨hring, before, after, rfl, hspan, hprev, habsent⟩ := h
      refine ⟨circular_same hring hsame, before, after, rfl, span_same hspan fun x hx => ?_,
        hprev, habsent.congr fun a ha => hlist a (List.mem_append_left _ ha)⟩
      have hprev' : prev ∈ head :: (before ++ after) := List.mem_cons.mpr
        ((List.mem_cons.mp hprev).imp_right (List.mem_append_left _))
      simp only [List.cons_append, List.mem_cons, List.mem_append, List.not_mem_nil, or_false]
        at hx
      rcases hx with rfl | hx | rfl
      · exact hsame x hprev'
      · exact hlist x (List.mem_append_right _ hx)
      · exact hsame x List.mem_cons_self
    | replace key data entry existingEntry => exact Picked.congr h hsame
    | insertHeadList key data entry => exact ⟨circular_same h.1 hsame, h.2.congr hlist⟩
    | insertBlink key data entry flink =>
      obtain ⟨hring, habsent, hflink, hentryFlink, hentryBlink⟩ := h
      obtain ⟨hsameFlink, hsameBlink, -⟩ := hentry entry rfl
      refine ⟨circular_same hring hsame, habsent.congr hlist, ?_, ?_, ?_⟩
      · exact hflink.trans (hsame head List.mem_cons_self).1.symm
      · exact hsameFlink.trans hentryFlink
      · exact hsameBlink.trans hentryBlink
    -- only head.Flink is still to be written; the ring is that of the list with it written
    | insertFlink key data entry =>
      obtain ⟨habsent, hempty, hring⟩ := h
      have hhead := (hsame head List.mem_cons_self).1
      refine ⟨habsent.congr hlist, by rw [hhead]; exact hempty, ?_⟩
      refine (span_congr (fun x hx => ?_) fun x hx => ?_).mpr hring
      · by_cases hx' : x = head
        · rw [hx', Function.update_self, Function.update_self]
        · rw [Function.update_of_ne hx', Function.update_of_ne hx']
          rcases List.mem_cons.mp hx with rfl | hx
          · exact absurd rfl hx'
          rcases List.mem_cons.mp hx with rfl | hx
          · exact (hentry x rfl).1
          · exact (hlist x hx).1
      · simp only [List.cons_append, List.mem_cons, List.mem_append, List.not_mem_nil, or_false]
          at hx
        rcases hx with rfl | hx | rfl
        · exact (hentry x rfl).2.1
        · exact (hlist x hx).2.1
        · exact (hsame x List.mem_cons_self).2.1
    | first => exact circular_same h hsame
    | removeEntryList removal entry => exact Picked.congr h hsame
    | removeFlink removal entry flink blink =>
      obtain ⟨hpicked, hflink, hblink⟩ := h
      obtain ⟨hsameFlink, hsameBlink, -⟩ := hlist entry (by
        obtain ⟨-, before, after, rfl, -⟩ := hpicked
        simp)
      exact ⟨hpicked.congr hsame, hflink.trans hsameFlink.symm, hblink.trans hsameBlink.symm⟩
    -- one link around the removed entry is closed, the other is about to be
    | removeBlink removal entry flink blink =>
      obtain ⟨hflink, hring⟩ := h
      refine ⟨hflink, (span_congr (fun x hx => (hsame x hx).1) fun x hx => ?_).mpr hring⟩
      by_cases hx' : x = flink
      · rw [hx', Function.update_self, Function.update_self]
      · rw [Function.update_of_ne hx', Function.update_of_ne hx']
        rcases List.mem_append.mp hx with hx | hx
        · exact (hlist x hx).2.1
        · exact (hsame x (List.mem_singleton.mp hx ▸ List.mem_cons_self)).2.1
    | read key entry => exact Picked.congr h hsame
  | _ => exact circular_same h hsame

end Same

-- ---------------------------------------------------------------------------
-- The invariant
-- ---------------------------------------------------------------------------

/-- The threads `s`, with the entries `l` in the list, stand for the object `x`. -/
structure MapInv [DecidableEq Addr] (head : Addr) (s : MapThreads Thread Addr K D) (l : List Addr)
    (x : Atomic Thread (DataMap K D) (MapRequest K D) (DataMapResult K D)) : Prop where
  lock : ∀ t, (s.pc t).HasLock ↔ s.lock = some t
  free : s.lock = none → Circular s.memory.flink s.memory.blink head l
  held : ∀ t, (s.pc t).HasLock → (s.pc t).Inside head s.memory l
  known : ∀ t, (s.pc t).Local head s.memory
  shares : Shares s.memory.entries l fun t => (s.pc t).own
  head_notMem : head ∉ s.memory.entries.live
  contents : x.object.entries = l.map s.memory.entryAt
  phases : ∀ t, x.phase t = (s.pc t).phase s.memory

namespace MapInv

variable [DecidableEq Addr] {head a : Addr} {s : MapThreads Thread Addr K D} {l l' : List Addr}
  {x : Atomic Thread (DataMap K D) (MapRequest K D) (DataMapResult K D)} {t : Thread}
  {p : MapThreadPc Addr K D} {m' : EntryMemory Addr K D} {lock' : Option Thread}
  {o : DataMap K D}

/-- The list has no entry twice. -/
theorem nodup (h : MapInv head s l x) : (head :: l).Nodup :=
  List.nodup_cons.mpr
    ⟨fun hl => h.head_notMem ((h.shares.live head).mpr (.inl hl)), h.shares.nodup⟩

/-- The head is not an entry, and neither is the entry of a thread in the list. -/
theorem apart (h : MapInv head s l x) (ha : (s.pc t).own = some a) : a ∉ head :: l := by
  rw [List.mem_cons, not_or]
  refine ⟨?_, h.shares.apart t a ha⟩
  rintro rfl
  exact h.head_notMem ((h.shares.live a).mpr (.inr ⟨t, ha⟩))

/-- Whoever has the lock, the flink of the head says whether there are entries. -/
theorem flink_head (h : MapInv head s l x) : s.memory.flink head = head ↔ l = [] := by
  have hhead := (List.nodup_cons.mp h.nodup).1
  cases hlock : s.lock with
  | none => exact flink_head_iff (h.free hlock) hhead
  | some t =>
    have ht := (h.lock t).mpr hlock
    have hinside := h.held t ht
    cases hp : s.pc t <;> rw [hp] at ht hinside <;> try exact ht.elim
    case locked r =>
      cases r with
      | find | replace | insertHeadList | insertBlink | removeEntryList | read =>
        exact flink_head_iff hinside.1 hhead
      | insertFlink => exact hinside.2.1
      | first => exact flink_head_iff hinside hhead
      | removeFlink => exact flink_head_iff hinside.1.1 hhead
      | removeBlink =>
        have hring := hinside.2
        cases l with
        | nil => exact iff_of_true (span_nil.mp hring).1 rfl
        | cons a l =>
          refine iff_of_false (fun heq => hhead ?_) (List.cons_ne_nil a l)
          rw [(span_cons.mp hring).1.1] at heq
          exact heq ▸ List.mem_cons_self
    case unlock rest => exact flink_head_iff hinside hhead

variable [DecidableEq Thread]

/-- A thread goes to `p`. What has to be shown is about this thread, and that the others can
still rely on what they relied on. -/
theorem next (h : MapInv head s l x)
    (hlock : (lock' = s.lock ∧ (p.HasLock ↔ (s.pc t).HasLock)) ∨
      (s.lock = none ∧ lock' = some t ∧ p.HasLock) ∨
      ((s.pc t).HasLock ∧ lock' = none ∧ ¬ p.HasLock))
    (hfree : lock' = none → Circular m'.flink m'.blink head l')
    (hheld : p.HasLock → p.Inside head m' l')
    (hothers : ∀ u, u ≠ t → (s.pc u).HasLock → (s.pc u).Inside head m' l')
    (hknown : p.Local head m')
    (hframe : ∀ u a, u ≠ t → (s.pc u).own = some a → m'.entryAt a = s.memory.entryAt a)
    (hshares : Shares m'.entries l' (Function.update (fun u => (s.pc u).own) t p.own))
    (hhead : head ∉ m'.entries.live) (hcontents : o.entries = l'.map m'.entryAt) :
    MapInv head ⟨m', lock', Function.update s.pc t p⟩ l'
      ⟨o, Function.update x.phase t (p.phase m')⟩ := by
  have hself : Function.update s.pc t p t = p := Function.update_self ..
  -- the step is of one thread, and the others are where they were
  have hother : ∀ u, u ≠ t → Function.update s.pc t p u = s.pc u :=
    fun u hut => Function.update_of_ne hut ..
  constructor
  case lock =>
    intro u
    refine lock_iff_step (t := t) (P := fun u => (s.pc u).HasLock)
      (Q := fun u => (Function.update s.pc t p u).HasLock) h.lock (fun u hut => ?_) ?_ u
    · rw [hother u hut]
    · rw [hself]
      exact hlock
  case free => exact hfree
  case held =>
    intro u hu
    dsimp only at hu ⊢
    by_cases hut : u = t
    · subst hut
      rw [hself] at hu ⊢
      exact hheld hu
    · rw [hother u hut] at hu ⊢
      exact hothers u hut hu
  case known =>
    intro u
    dsimp only
    by_cases hut : u = t
    · subst hut
      rw [hself]
      exact hknown
    · rw [hother u hut]
      exact (h.known u).congr fun a ha => hframe u a hut ha
  -- the thread may have taken or given an entry; the others keep theirs
  case shares =>
    have hown : (fun u => (Function.update s.pc t p u).own) =
        Function.update (fun u => (s.pc u).own) t p.own :=
      funext fun u => Function.apply_update (fun _ p => MapThreadPc.own p) s.pc t p u
    show Shares m'.entries l' fun u => (Function.update s.pc t p u).own
    rw [hown]
    exact hshares
  case head_notMem => exact hhead
  case contents => exact hcontents
  case phases =>
    intro u
    dsimp only
    by_cases hut : u = t
    · subst hut
      rw [hself, Function.update_self]
    · rw [hother u hut, Function.update_of_ne hut, h.phases u]
      exact (MapThreadPc.phase_congr fun a ha => hframe u a hut ha).symm

/-- A step outside of the lock: the list stays as it is, whoever works on it. -/
theorem outside (h : MapInv head s l x) (ht : ¬ (s.pc t).HasLock) (hp : ¬ p.HasLock)
    (hsame : ∀ a, a = head ∨ a ∈ s.memory.entries.live → SameMemory s.memory m' a)
    (hknown : p.Local head m')
    (hshares : Shares m'.entries l (Function.update (fun u => (s.pc u).own) t p.own))
    (hhead : head ∉ m'.entries.live) (hobject : o.entries = x.object.entries) :
    MapInv head ⟨m', s.lock, Function.update s.pc t p⟩ l
      ⟨o, Function.update x.phase t (p.phase m')⟩ := by
  have hlist : ∀ a ∈ l, SameMemory s.memory m' a :=
    fun a ha => hsame a (.inr ((h.shares.live a).mpr (.inl ha)))
  have hown : ∀ u a, (s.pc u).own = some a → SameMemory s.memory m' a :=
    fun u a ha => hsame a (.inr ((h.shares.live a).mpr (.inr ⟨u, ha⟩)))
  have hring : ∀ a ∈ head :: l, SameMemory s.memory m' a := by
    intro a ha
    rcases List.mem_cons.mp ha with rfl | ha
    · exact hsame a (.inl rfl)
    · exact hlist a ha
  refine h.next (.inl ⟨rfl, iff_of_false hp ht⟩) (fun hnone => circular_same (h.free hnone) hring)
    (fun hlock => absurd hlock hp) (fun u _ hu => ?_) hknown (fun u a _ ha => (hown u a ha).2.2)
    hshares hhead ?_
  · exact (h.held u hu).congr hring fun a ha => hown u a ha
  · rw [hobject, h.contents]
    exact List.map_congr_left fun a ha => (hlist a ha).2.2.symm

variable [DecidableEq K]

/-- A step with the lock. -/
theorem locked (h : MapInv head s l x) {r : LockRegion Addr K D} (hp : s.pc t = .locked r) :
    ∃ l' x', Stepped head s.memory l x.object r (r.step head s.memory).1
        (r.step head s.memory).2 l' x' ∧
      MapInv head ⟨(r.step head s.memory).1, s.lock,
        Function.update s.pc t (r.step head s.memory).2⟩ l'
        ⟨x', Function.update x.phase t ((r.step head s.memory).2.phase
          (r.step head s.memory).1)⟩ := by
  have hentry : (s.pc t).own = r.own := congrArg MapThreadPc.own hp
  have hlock : (s.pc t).HasLock := by
    rw [hp]
    trivial
  have hgood : r.Good head s.memory l := by
    have hinside := h.held t hlock
    rwa [hp] at hinside
  have hfilled : r.Filled s.memory := by
    have hknown := h.known t
    rwa [hp] at hknown
  obtain ⟨l', x', hstepped⟩ := r.step_spec h.contents hgood hfilled h.nodup
    fun a ha => h.apart (hentry.trans ha)
  generalize (r.step head s.memory).1 = m' at *
  generalize (r.step head s.memory).2 = p at *
  -- one thread at a time is under the lock
  have hholder : ∀ u, u ≠ t → ¬ (s.pc u).HasLock := by
    intro u hut hu
    rw [h.lock] at hu hlock
    exact hut (Option.some.inj (hu.symm.trans hlock))
  refine ⟨l', x', hstepped, h.next (.inl ⟨rfl, iff_of_true hstepped.keeps hlock⟩) ?_
    (fun _ => hstepped.inside) (fun u hut hu => absurd hu (hholder u hut)) hstepped.known ?_ ?_ ?_
    hstepped.contents⟩
  · intro hnone
    rw [(h.lock t).mp hlock] at hnone
    cases hnone
  · intro u a _ ha
    exact hstepped.outside a (h.shares.apart u a ha)
  · rw [hstepped.allocations]
    refine h.shares.move ?_
    rw [hentry]
    exact hstepped.shares
  · rw [hstepped.allocations]
    exact h.head_notMem

end MapInv

-- ---------------------------------------------------------------------------
-- The simulation
-- ---------------------------------------------------------------------------

section Simulation

variable [DecidableEq Thread] [DecidableEq Addr] [DecidableEq K] {null head : Addr}
  {s s' : MapThreads Thread Addr K D} {l : List Addr}
  {x x' : Atomic Thread (DataMap K D) (MapRequest K D) (DataMapResult K D)} {t : Thread}
  {action : MapAction Thread Addr K D}

/-- What the object does when a thread does a step. -/
def Followed (head : Addr) (s : MapThreads Thread Addr K D) (action : MapAction Thread Addr K D)
    (s' : MapThreads Thread Addr K D)
    (x : Atomic Thread (DataMap K D) (MapRequest K D) (DataMapResult K D)) : Prop :=
  (s.event action = [] ∧ ∃ l', MapInv head s' l' x) ∨
    ∃ b x', Atomic.step MapRequest.apply x b = some x' ∧ x.event b = s.event action ∧
      ∃ l', MapInv head s' l' x'

variable {p : MapThreadPc Addr K D} {m' : EntryMemory Addr K D} {lock' : Option Thread}
  {o : DataMap K D} {memory : Option Addr}

/-- The object does nothing, or the call of the thread takes effect. -/
theorem Followed.silent (h : MapInv head s l x) (hevent : s.event (.advance t memory) = [])
    {l' : List Addr}
    (hinv : MapInv head ⟨m', lock', Function.update s.pc t p⟩ l'
      ⟨o, Function.update x.phase t (p.phase m')⟩)
    (heffect : (o = x.object ∧ p.phase m' = (s.pc t).phase s.memory) ∨
      ∃ call alloc, (s.pc t).phase s.memory = .called call ∧
        o = (MapRequest.apply x.object call alloc).1 ∧
        p.phase m' = .done (MapRequest.apply x.object call alloc).2) :
    Followed head s (.advance t memory) ⟨m', lock', Function.update s.pc t p⟩ x := by
  obtain ⟨rfl, hphase⟩ | ⟨call, alloc, hcall, rfl, hphase⟩ := heffect
  · refine .inl ⟨hevent, l', ?_⟩
    rw [hphase, ← h.phases t, Function.update_eq_self] at hinv
    exact hinv
  · rw [hphase] at hinv
    rw [← h.phases t] at hcall
    refine .inr ⟨.effect t alloc, _, ?_, hevent.symm, l', hinv⟩
    rw [Atomic.step, hcall]
    rfl

/-- To start a call does nothing to the object. -/
theorem followed_call {call : MapRequest K D} (h : MapInv head s l x) (hp : s.pc t = .idle) :
    Followed head s (.call t call) (s.goto t (call.start head)) x := by
  have hphase : (call.start head : MapThreadPc Addr K D).phase s.memory = .called call := by
    cases call <;> rfl
  have hentry : (call.start head : MapThreadPc Addr K D).own = none := by
    cases call <;> rfl
  have hlock : ¬ (call.start head : MapThreadPc Addr K D).HasLock := by
    cases call <;> exact id
  have hknown : (call.start head : MapThreadPc Addr K D).Local head s.memory := by
    cases call with
    | removeKey key => exact ⟨rfl, nofun⟩
    | removeFirstEntryAndReturnItsData => exact ⟨trivial, nofun⟩
    | getDataByKey key => exact ⟨rfl, nofun⟩
    | _ => trivial
  have hinv := h.outside (t := t) (o := x.object) (by rw [hp]; exact id) hlock
    (fun _ _ => ⟨rfl, rfl, rfl⟩) hknown ?_ h.head_notMem rfl
  · rw [hphase] at hinv
    refine .inr ⟨.call t call, x.set t (.called call), ?_, rfl, l, hinv⟩
    have hidle : x.phase t = .idle := by rw [h.phases, hp, MapThreadPc.phase]
    rw [Atomic.step, hidle]
  · refine h.shares.move ?_
    rw [hentry, hp]
    exact List.Perm.refl _

omit [DecidableEq K] in
/-- Where the lock is taken. -/
theorem LockRegion.Starts.good {m : EntryMemory Addr K D} {r : LockRegion Addr K D}
    (h : r.Starts head) (hring : Circular m.flink m.blink head l) : r.Good head m l := by
  cases r with
  | find finder key prev =>
    obtain rfl : prev = head := h
    exact ⟨hring, [], l, rfl, hring, List.mem_cons_self, nofun⟩
  | first => exact hring
  | _ => exact h.elim

/-- `IOMalloc` has returned memory, which nobody else has. -/
theorem followed_malloc {key : K} {data : D} {entry : Addr} (h : MapInv head s l x)
    (hp : s.pc t = .malloc key data) (hfresh : entry ≠ head ∧ entry ∉ s.memory.entries.live) :
    Followed head s (.advance t memory)
      ⟨s.memory.newEntry null entry key data, s.lock,
        Function.update s.pc t (.lock (.find (.add data entry) key head))⟩ x := by
  have hentry : (s.pc t).own = none := congrArg MapThreadPc.own hp
  -- a new entry is apart from all that is live
  have hsame : ∀ a, a = head ∨ a ∈ s.memory.entries.live →
      SameMemory s.memory (s.memory.newEntry null entry key data) a := by
    intro a ha
    have hne : a ≠ entry := by
      rintro rfl
      exact ha.elim hfresh.1 hfresh.2
    refine ⟨Function.update_of_ne hne _ _, Function.update_of_ne hne _ _, ?_⟩
    exact Prod.ext (Function.update_of_ne hne _ _) (Function.update_of_ne hne _ _)
  refine .silent (o := x.object) h (by rw [MapThreads.event, hp])
    (h.outside (by rw [hp]; exact id) id hsame ⟨rfl, ?_⟩ ?_ ?_ rfl) (.inl ⟨rfl, ?_⟩)
  · rintro _ _ _ ⟨⟩
    exact Prod.ext (Function.update_self ..) (Function.update_self ..)
  · exact h.shares.alloc hentry hfresh.2
  · intro hhead
    rcases List.mem_cons.mp hhead with heq | hhead
    · exact hfresh.1 heq.symm
    · exact h.head_notMem hhead
  · rw [hp]
    rfl

/-- The lock is taken when it is free. -/
theorem followed_lock {r : LockRegion Addr K D} (h : MapInv head s l x) (hp : s.pc t = .lock r)
    (hfree : s.lock = none) :
    Followed head s (.advance t memory)
      ⟨s.memory, some t, Function.update s.pc t (.locked r)⟩ x := by
  obtain ⟨hstarts, hfilled⟩ : r.Starts head ∧ r.Filled s.memory := by
    have hknown := h.known t
    rwa [hp] at hknown
  have hnobody : ∀ u, ¬ (s.pc u).HasLock := by
    intro u hu
    rw [h.lock, hfree] at hu
    cases hu
  refine .silent (o := x.object) h (by rw [MapThreads.event, hp])
    (h.next (.inr (.inl ⟨hfree, rfl, trivial⟩)) nofun (fun _ => hstarts.good (h.free hfree))
      (fun u _ hu => absurd hu (hnobody u)) hfilled (fun _ _ _ _ => rfl) ?_ h.head_notMem
      h.contents) (.inl ⟨rfl, ?_⟩)
  · refine h.shares.move ?_
    rw [hp]
    exact List.Perm.refl _
  · rw [hp]
    rfl

/-- The lock is given back with the list in good order. -/
theorem followed_unlock {rest : Rest Addr K D} (h : MapInv head s l x)
    (hp : s.pc t = .unlock rest) :
    Followed head s (.advance t memory)
      ⟨s.memory, none, Function.update s.pc t (.unlocked rest)⟩ x := by
  have hlock : (s.pc t).HasLock := by
    rw [hp]
    trivial
  have hring : Circular s.memory.flink s.memory.blink head l := by
    have hinside := h.held t hlock
    rwa [hp] at hinside
  have hholder : ∀ u, u ≠ t → ¬ (s.pc u).HasLock := by
    intro u hut hu
    rw [h.lock] at hu hlock
    exact hut (Option.some.inj (hu.symm.trans hlock))
  refine .silent (o := x.object) h (by rw [MapThreads.event, hp])
    (h.next (.inr (.inr ⟨hlock, rfl, id⟩)) (fun _ => hring) (fun hlock => hlock.elim)
      (fun u hut hu => absurd hu (hholder u hut)) trivial (fun _ _ _ _ => rfl) ?_ h.head_notMem
      h.contents) (.inl ⟨rfl, ?_⟩)
  · refine h.shares.move ?_
    rw [hp]
    exact List.Perm.refl _
  · rw [hp]
    rfl

/-- `IOFree` of an entry that is the thread's alone, if there is one. -/
theorem followed_unlocked {rest : Rest Addr K D} (h : MapInv head s l x)
    (hp : s.pc t = .unlocked rest) :
    ∃ s', s.advance null head t memory = some s' ∧ Followed head s (.advance t memory) s' x := by
  have hentry : (s.pc t).own = rest.own := congrArg MapThreadPc.own hp
  have hnot : ¬ (s.pc t).HasLock := by
    rw [hp]
    exact id
  have hevent : s.event (.advance t memory) = [] := by rw [MapThreads.event, hp]
  have hphase : (s.pc t).phase s.memory = .done (rest.result s.memory) := by
    rw [hp, MapThreadPc.phase]
  cases hrest : rest.own with
  -- no entry is to be freed
  | none =>
    refine ⟨⟨s.memory, s.lock, Function.update s.pc t (.ret (rest.result s.memory))⟩, ?_,
      .silent (o := x.object) h hevent
        (h.outside hnot id (fun _ _ => ⟨rfl, rfl, rfl⟩) trivial ?_ h.head_notMem rfl)
        (.inl ⟨rfl, hphase.symm⟩)⟩
    · simp only [MapThreads.advance, hp, hrest]
      rfl
    · refine h.shares.move ?_
      rw [hentry, hrest]
      exact List.Perm.refl _
  | some entry =>
    obtain ⟨entries, hfree, hshares⟩ := h.shares.free (t := t) (hentry.trans hrest)
    -- the entry was the thread's alone, so freeing it leaves the list
    have hhead : head ∉ entries.live := by
      intro hhead
      have howned := (hshares.live head).mp hhead
      rw [Shares.exists_update_iff] at howned
      apply h.head_notMem
      rw [h.shares.live]
      rcases howned with hl | hnone | ⟨u, -, hu⟩
      · exact .inl hl
      · cases hnone
      · exact .inr ⟨u, hu⟩
    refine ⟨⟨{ s.memory with entries }, s.lock,
      Function.update s.pc t (.ret (rest.result s.memory))⟩, ?_,
      .silent (o := x.object) h hevent
        (h.outside hnot id (fun _ _ => ⟨rfl, rfl, rfl⟩) trivial hshares hhead rfl)
        (.inl ⟨rfl, hphase.symm⟩)⟩
    simp only [MapThreads.advance, hp, hrest, ioFree, hfree]
    rfl

/-- `isEmpty` looks at the head without the lock, and takes effect at this. -/
theorem followed_isEmpty (h : MapInv head s l x) (hp : s.pc t = .isEmpty) :
    Followed head s (.advance t memory)
      ⟨s.memory, s.lock, Function.update s.pc t (.ret (.empty (s.memory.isEmpty head)))⟩ x := by
  have hempty : s.memory.isEmpty head = x.object.isEmpty := by
    unfold EntryMemory.isEmpty isListEmpty DataMap.isEmpty
    rw [h.contents, Bool.eq_iff_iff, decide_eq_true_iff, h.flink_head]
    simp
  refine .silent (o := x.object) h (by rw [MapThreads.event, hp])
    (h.outside (by rw [hp]; exact id) id (fun _ _ => ⟨rfl, rfl, rfl⟩) trivial ?_ h.head_notMem rfl)
    (.inr ⟨.isEmpty, true, by rw [hp, MapThreadPc.phase], rfl, ?_⟩)
  · refine h.shares.move ?_
    rw [hp]
    exact List.Perm.refl _
  · rw [hempty]
    rfl

/-- The return of a call is that of the object. -/
theorem followed_ret {result : DataMapResult K D} (h : MapInv head s l x)
    (hp : s.pc t = .ret result) : Followed head s (.advance t memory) (s.goto t .idle) x := by
  have hdone : x.phase t = .done result := by rw [h.phases, hp, MapThreadPc.phase]
  have hinv := h.outside (t := t) (p := .idle) (o := x.object) (by rw [hp]; exact id) id
    (fun _ _ => ⟨rfl, rfl, rfl⟩) trivial ?_ h.head_notMem rfl
  · refine .inr ⟨.ret t, x.set t .idle, ?_, ?_, l, hinv⟩
    · rw [Atomic.step, hdone]
    · rw [Atomic.event, hdone, MapThreads.event, hp]
  · refine h.shares.move ?_
    rw [hp]
    exact List.Perm.refl _

/-- Every step is followed by the object. -/
theorem followed_step (h : MapInv head s l x) (hstep : s.step null head action = some s') :
    Followed head s action s' x := by
  cases action with
  | call t call =>
    rw [MapThreads.step] at hstep
    cases hp : s.pc t <;> rw [hp] at hstep <;> cases hstep
    exact followed_call h hp
  | advance t memory =>
    have hadvance : s.advance null head t memory = some s' := hstep
    rw [MapThreads.step, MapThreads.advance] at hstep
    cases hp : s.pc t <;> simp only [hp] at hstep
    case idle => cases hstep
    -- addDataByKey allocates before it takes the lock, and fails without memory
    case malloc key data =>
      cases memory with
      | none =>
        cases hstep
        refine .silent (o := x.object) h (by rw [MapThreads.event, hp])
          (h.outside (by rw [hp]; exact id) id (fun _ _ => ⟨rfl, rfl, rfl⟩) trivial ?_
            h.head_notMem rfl) (.inr ⟨.addDataByKey key data, false, by rw [hp]; rfl, rfl, rfl⟩)
        refine h.shares.move ?_
        rw [hp]
        exact List.Perm.refl _
      | some entry =>
        simp only [Option.ite_none_right_eq_some, Option.some.injEq] at hstep
        obtain ⟨hfresh, rfl⟩ := hstep
        exact followed_malloc h hp hfresh
    case lock r =>
      simp only [Option.ite_none_right_eq_some, Option.some.injEq] at hstep
      obtain ⟨hfree, rfl⟩ := hstep
      exact followed_lock h hp hfree
    -- what is done under the lock, one access at a time
    case locked r =>
      cases hstep
      obtain ⟨l', x', hstepped, hinv⟩ := h.locked hp
      have hphase : (s.pc t).phase s.memory = r.phase s.memory := by rw [hp, MapThreadPc.phase]
      refine .silent h (by rw [MapThreads.event, hp]) hinv ?_
      rw [hphase]
      exact hstepped.effect.imp_right fun ⟨call, hcall⟩ => ⟨call, true, hcall⟩
    case unlock rest =>
      cases hstep
      exact followed_unlock h hp
    -- the entry that is not needed is freed after the lock is released
    case unlocked rest =>
      obtain ⟨s'', hs'', hfollowed⟩ : ∃ s'', s.advance null head t memory = some s'' ∧
          Followed head s (.advance t memory) s'' x := followed_unlocked h hp
      rw [hadvance, Option.some.injEq] at hs''
      exact hs'' ▸ hfollowed
    case isEmpty =>
      cases hstep
      exact followed_isEmpty h hp
    case ret result =>
      cases hstep
      exact followed_ret h hp

-- ---------------------------------------------------------------------------
-- Memory and progress
-- ---------------------------------------------------------------------------

omit [DecidableEq Thread] [DecidableEq Addr] [DecidableEq K] in
/-- What the next step of a thread reads or writes. -/
def MapThreadPc.touches (head : Addr) (m : EntryMemory Addr K D) : MapThreadPc Addr K D → List Addr
  | locked (.find _ _ prev) => [prev, m.flink prev]
  | locked (.replace _ _ _ existingEntry) => [existingEntry]
  | locked (.insertHeadList _ _ entry) => [head, entry]
  | locked (.insertBlink _ _ _ flink) => [flink]
  | locked (.insertFlink _ _ _) | locked .first | isEmpty => [head]
  | locked (.removeEntryList _ entry) => [entry]
  | locked (.removeFlink _ _ _ blink) => [blink]
  | locked (.removeBlink _ _ flink _) => [flink]
  | locked (.read _ entry) => [entry]
  | unlocked rest => rest.own.toList
  | _ => []

namespace MapInv

omit [DecidableEq Thread] [DecidableEq K] in
/-- What the next step of a thread reads or writes is the head, or is allocated. -/
theorem touches (h : MapInv head s l x) (t : Thread) :
    ∀ a ∈ (s.pc t).touches head s.memory, a = head ∨ a ∈ s.memory.entries.live := by
  -- the ring, the thread's own entry and the head are all there is to touch
  have hlist : ∀ a ∈ head :: l, a = head ∨ a ∈ s.memory.entries.live := fun a ha =>
    (List.mem_cons.mp ha).imp_right fun ha => (h.shares.live a).mpr (.inl ha)
  have hring : ∀ a ∈ l ++ [head], a ∈ head :: l := fun a ha => by simpa [or_comm] using ha
  have hown : ∀ a, (s.pc t).own = some a → a = head ∨ a ∈ s.memory.entries.live :=
    fun a ha => .inr ((h.shares.live a).mpr (.inr ⟨t, ha⟩))
  have hpicked : ∀ removal a, Picked head s.memory l removal a → a ∈ head :: l := by
    rintro removal a ⟨-, before, after, rfl, -⟩
    simp
  have hheld := h.held t
  cases hp : s.pc t with
  | locked r =>
    rw [hp] at hheld hown
    have hgood : r.Good head s.memory l := hheld trivial
    cases r with
    -- the search reads the link of one entry and the key of the next
    | find finder key prev =>
      obtain ⟨-, before, after, rfl, hspan, hprev, -⟩ := hgood
      refine List.forall_mem_cons.mpr ⟨hlist prev ?_, List.forall_mem_singleton.mpr ?_⟩
      · exact List.mem_cons.mpr ((List.mem_cons.mp hprev).imp_right (List.mem_append_left _))
      · refine hlist _ (hring _ ?_)
        rw [List.append_assoc]
        exact List.mem_append_right _ hspan.flink_mem
    | replace key data entry existingEntry =>
      exact List.forall_mem_singleton.mpr (hlist _ (hpicked _ _ hgood))
    | insertHeadList key data entry =>
      exact List.forall_mem_cons.mpr ⟨.inl rfl, List.forall_mem_singleton.mpr (hown entry rfl)⟩
    | insertBlink key data entry flink =>
      obtain ⟨hcircular, -, rfl, -⟩ := hgood
      exact List.forall_mem_singleton.mpr (hlist _ (hring _ hcircular.flink_mem))
    | insertFlink key data entry => exact List.forall_mem_singleton.mpr (.inl rfl)
    | first => exact List.forall_mem_singleton.mpr (.inl rfl)
    | removeEntryList removal entry =>
      exact List.forall_mem_singleton.mpr (hlist _ (hpicked _ _ hgood))
    -- the neighbours of the entry are in the ring
    | removeFlink removal entry flink blink =>
      obtain ⟨⟨hcircular, before, after, rfl, -⟩, -, rfl⟩ := hgood
      have hblink := (span_append.mp hcircular).1.blink_mem
      refine List.forall_mem_singleton.mpr (hlist _ ?_)
      exact List.mem_cons.mpr ((List.mem_cons.mp hblink).imp_right (List.mem_append_left _))
    | removeBlink removal entry flink blink =>
      exact List.forall_mem_singleton.mpr (hlist _ hgood.1)
    | read key entry => exact List.forall_mem_singleton.mpr (hlist _ (hpicked _ _ hgood))
  | unlocked rest =>
    intro a ha
    rw [hp] at hown
    exact hown a (Option.mem_toList.mp ha)
  | isEmpty => exact List.forall_mem_singleton.mpr (.inl rfl)
  | _ => nofun

/-- A thread in a call can go on, or another has the lock. -/
theorem progress (h : MapInv head s l x) (null : Addr) (hbusy : s.pc t ≠ .idle)
    (hlock : (s.pc t).HasLock ∨ s.lock = none ∨ ∀ r, s.pc t ≠ .lock r) :
    ∃ s', s.advance null head t none = some s' := by
  cases hp : s.pc t with
  | idle => exact absurd hp hbusy
  | lock r =>
    rw [hp] at hlock
    have hfree : s.lock = none := by
      obtain h | h | h := hlock
      · exact h.elim
      · exact h
      · exact absurd rfl (h r)
    exact ⟨_, by rw [MapThreads.advance, hp]; exact if_pos hfree⟩
  | unlocked rest =>
    obtain ⟨s', hs', -⟩ : ∃ s', s.advance null head t none = some s' ∧
        Followed head s (.advance t none) s' x := followed_unlocked h hp
    exact ⟨s', hs'⟩
  | _ => exact ⟨_, by rw [MapThreads.advance, hp]⟩

end MapInv

omit [DecidableEq Thread] [DecidableEq K] in
/-- The beginning. -/
theorem mapInv_init (memory : EntryMemory Addr K D) :
    MapInv head (⟨memory.dataMap head, none, fun _ => .idle⟩ : MapThreads Thread Addr K D) []
      ⟨DataMap.empty, fun _ => .idle⟩ where
  lock := fun _ => iff_of_false id nofun
  free := fun _ => circular_self
  held := fun _ ht => ht.elim
  known := fun _ => trivial
  shares := Shares.start _
  head_notMem := List.not_mem_nil
  contents := rfl
  phases := fun _ => rfl

/-- **A `DataMap` is linearizable.** In every run, whatever the threads call and in whatever
order their steps come, the callers see a history of the map as an atomic object; no thread
is about to read, write or free memory that is not allocated, and none was freed twice;
while any call is being served some thread can go on; and when none is, what is allocated
are the entries of a list in good order that holds the contents of the object. -/
theorem dataMap_linearizable {memory : EntryMemory Addr K D}
    {history : List (CallEvent Thread (MapRequest K D) (DataMapResult K D))}
    (h : History (dataMapThreads Thread null head memory) MapThreads.event history s) :
    ∃ x, History (atomicObject DataMap.empty MapRequest.apply) Atomic.event history x ∧
      (∀ t, ∀ a ∈ (s.pc t).touches head s.memory, a = head ∨ a ∈ s.memory.entries.live) ∧
      (∀ i, s.memory.entries.freed i ≤ 1) ∧
      (∀ t, s.pc t ≠ .idle → ∃ u s', (u = t ∨ s.lock = some u) ∧
        s.advance null head u none = some s') ∧
      ((∀ t, s.pc t = .idle) → ∃ l, WellFormed head s.memory l ∧
        s.memory.content l = x.object.getDataByKey) := by
  -- each step is silent, or is the call or return it shows, or takes effect on the object
  have hsim := h.simulation (T := atomicObject DataMap.empty MapRequest.apply)
    (R := fun s x => ∃ l, MapInv head s l x) (fun s hs => ⟨_, rfl, [], hs ▸ mapInv_init memory⟩)
    fun s a s' x hR hstep => by
      obtain ⟨l, hinv⟩ := hR
      obtain ⟨hevent, hnext⟩ | ⟨b, x', hb, hevent, hnext⟩ := followed_step hinv hstep
      · exact .inl ⟨hevent, hnext⟩
      · exact .inr ⟨b, x', hb, hevent, hnext⟩
  obtain ⟨x, hx, l, hinv⟩ := hsim
  refine ⟨x, hx, hinv.touches, fun i => ?_, fun t hbusy => ?_, fun hidle => ?_⟩
  · have haccount := hinv.shares.once.account i
    split at haccount <;> omega
  · by_cases hlock : (s.pc t).HasLock ∨ s.lock = none ∨ ∀ r, s.pc t ≠ .lock r
    · obtain ⟨s', hs'⟩ := hinv.progress null hbusy hlock
      exact ⟨t, s', .inl rfl, hs'⟩
    · simp only [not_or] at hlock
      obtain ⟨u, hu⟩ := Option.ne_none_iff_exists'.mp hlock.2.1
      have hheld := (hinv.lock u).mpr hu
      obtain ⟨s', hs'⟩ := hinv.progress null (t := u) (by rintro hp; rw [hp] at hheld; exact hheld)
        (.inl hheld)
      exact ⟨u, s', .inr hu, hs'⟩
  -- all threads idle: nobody has the lock or an entry of its own
  · have hfree : s.lock = none := by
      cases hlock : s.lock with
      | none => rfl
      | some t =>
        have hheld := (hinv.lock t).mpr hlock
        rw [hidle t] at hheld
        exact hheld.elim
    have howns := hinv.shares.owns_of_idle fun t => congrArg MapThreadPc.own (hidle t)
    have hholds : Holds head s.memory l x.object :=
      ⟨⟨hinv.free hfree, (List.nodup_cons.mp hinv.nodup).1, howns⟩, hinv.contents.symm⟩
    exact ⟨l, hholds.wellFormed, hholds.content_eq⟩

end Simulation

/-- One thread adds a key, and has linked the first entry to the new one but not the head;
another asks now whether the map is empty. -/
theorem dataMap_linearizable_between :
    let memory : EntryMemory Nat Nat Nat :=
      ⟨fun _ => 0, fun _ => 0, fun _ => 0, fun _ => 0, Allocations.start fun _ => 0⟩
    ∃ history s x, History (dataMapThreads Nat 0 1 memory) MapThreads.event history s ∧
      s.pc 0 = .locked (.insertFlink 10 100 2) ∧ s.pc 1 = .ret (.empty true) ∧
      History (atomicObject DataMap.empty MapRequest.apply) Atomic.event history x ∧
      ∀ t, ∀ a ∈ (s.pc t).touches 1 s.memory, a = 1 ∨ a ∈ s.memory.entries.live := by
  intro memory
  have hrun : ((exec (dataMapThreads Nat 0 1 memory) ⟨memory.dataMap 1, none, fun _ => .idle⟩
      [.call 0 (.addDataByKey 10 100), .advance 0 (some 2), .advance 0 none, .advance 0 none,
        .advance 0 none, .advance 0 none, .call 1 .isEmpty, .advance 1 none]).any fun s =>
      s.pc 0 = .locked (.insertFlink 10 100 2) ∧ s.pc 1 = .ret (.empty true)) = true := by
    decide +kernel
  rw [Option.any_eq_true] at hrun
  obtain ⟨s, hexec, hfacts⟩ := hrun
  obtain ⟨hadds, hempty⟩ := of_decide_eq_true hfacts
  have hinit : History (dataMapThreads Nat 0 1 memory) MapThreads.event [] _ := .init rfl
  obtain ⟨history, hhistory⟩ := hinit.exec _ hexec
  obtain ⟨x, hx, htouches, -⟩ := dataMap_linearizable hhistory
  exact ⟨_, s, x, hhistory, hadds, hempty, hx, htouches⟩

end VfsRedirector
