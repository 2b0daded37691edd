import VfsRedirector.Client.RequestSteps

/-!
# VFSFilter0UserClient: what every interleaving preserves

`RequestInv` holds in every run, whatever the client does. Its two parts:

* who has what: the lock of the waiting list, the ids, the numbers of the
  requests and the entries of `gPreOperationDataMap` each belong to one thread;
* the waiting list: an entry that no `signal` is removing is the entry of a
  request that is still on its way into its wait or asleep there
  (`entry_held`), and a thread asleep on an id has its entry, which nobody is
  removing (`blocked_entered`, `blocked_kept`).

What does *not* hold in every run is that a request on its way into its wait
has its entry: a `signal` that has woken the thread's previous request, and is
about to remove the entry of the id, removes the entry of the next one.

## Results

* `RequestInv.request_advance` — a request stays that of its thread.
* `RequestInv.blocked_advance` — who waits has asserted its wait.
* `RequestInv.step` — every step keeps the invariant.
-/

namespace VfsRedirector.Client

open Library RequestPc

variable {Thread Id : Type} [DecidableEq Id]

structure RequestInv (owner : Id → Thread) (s : Requests Thread Id) : Prop where
  lock_iff : ∀ t, (s.pc t).Critical ↔ s.lock = some t
  owned : ∀ t r, (s.pc t).request? = some r → owner r.id = t
  numbered : ∀ t r, (s.pc t).request? = some r →
    r.inData < s.nextRequest ∧ s.returned r.inData = none
  distinct : ∀ t u r r', (s.pc t).request? = some r → (s.pc u).request? = some r' →
    r.inData = r'.inData → t = u
  future : ∀ f, s.nextRequest ≤ f → s.returned f = none
  registered : ∀ id f, s.gPreOperationDataMap.getDataByKey id = some f →
    ∃ r, (s.pc (owner id)).registered? = some r ∧ r.id = id ∧ r.inData = f
  entry_held : ∀ id, s.gFileOpenWaitingList.getDataByKey id ≠ none →
    (∀ v, ¬ (s.pc v).Removing id) → (s.pc (owner id)).Held (s.waitEvent (owner id)) id
  blocked : ∀ t id, s.waitEvent t = some id → (s.pc t).Blocking id
  blocked_entered : ∀ t id, s.waitEvent t = some id →
    s.gFileOpenWaitingList.getDataByKey id ≠ none
  blocked_kept : ∀ t id, s.waitEvent t = some id → ∀ v, ¬ (s.pc v).Removing id
  found_entered : ∀ t id, (s.pc t).Found id → s.gFileOpenWaitingList.getDataByKey id ≠ none

variable {owner : Id → Thread} {hasRoom : List (Message Id) → Nat → Bool}
variable {s s' : Requests Thread Id} {a : RequestAction Thread Id} {t u : Thread} {alloc : Bool}

/-- The invariant holds before the first request. -/
theorem RequestInv.initial : RequestInv owner (Requests.initial : Requests Thread Id) := by
  constructor <;>
    simp [Requests.initial, Critical, request?, Found]

/-- A step that touches the data queue only. -/
theorem RequestInv.same (hs : RequestInv owner s) (hpc : s'.pc = s.pc)
    (hnext : s'.nextRequest = s.nextRequest) (hsame : SameShared s s') : RequestInv owner s' := by
  obtain ⟨hlock, hevent, hlist, hpre, hreturned⟩ := hsame
  constructor <;> simp only [hpc, hnext, hlock, hevent, hlist, hpre, hreturned]
  exacts [hs.lock_iff, hs.owned, hs.numbered, hs.distinct, hs.future, hs.registered,
    hs.entry_held, hs.blocked, hs.blocked_entered, hs.blocked_kept, hs.found_entered]

variable [DecidableEq Thread]

omit [DecidableEq Id] [DecidableEq Thread] in
/-- A thread that starts has no lock and has found no entry. -/
theorem Start.quiet {p : RequestPc Id} (h : Start owner s s' t p) :
    ¬ p.Critical ∧ (∀ id, ¬ p.Removing id) ∧ ∀ id, ¬ p.Found id := by
  cases h <;> simp [Critical, Removing, Found]

/-- An idle thread starts on a request or a reply: the number of the request
is a new one. -/
theorem RequestInv.start {p : RequestPc Id} (hs : RequestInv owner s) (hidle : s.pc t = .idle)
    (hstart : Start owner s s' t p) (hpc : s'.pc = Function.update s.pc t p)
    (hsame : SameShared s s') : RequestInv owner s' := by
  obtain ⟨hlock, hevent, hlist, hpre, hreturned⟩ := hsame
  obtain ⟨hcritical, hremoving, hfound⟩ := hstart.quiet
  have hother : ∀ u, u ≠ t → s'.pc u = s.pc u := fun u hu => by
    rw [hpc, Function.update_of_ne hu]
  have hmoved : s'.pc t = p := by rw [hpc, Function.update_self]
  -- the new request, if it is one, has the number nextRequest
  have hrequest : ∀ u r, (s'.pc u).request? = some r →
      (s.pc u).request? = some r ∨ (u = t ∧ owner r.id = t ∧ r.inData = s.nextRequest ∧
        s'.nextRequest = s.nextRequest + 1) := by
    intro u r hr
    rcases eq_or_ne u t with rfl | hu
    · rw [hmoved] at hr
      cases hstart with
      | request op id length hid hnext =>
        cases hr
        exact .inr ⟨rfl, hid, rfl, hnext⟩
      | reply => cases hr
    · exact .inl (hother u hu ▸ hr)
  have hnext : s.nextRequest ≤ s'.nextRequest := by
    cases hstart <;> omega
  constructor
  case lock_iff =>
    intro u
    rw [hlock, ← hs.lock_iff u]
    rcases eq_or_ne u t with rfl | hu
    · rw [hmoved, hidle]
      exact iff_of_false hcritical id
    · rw [hother u hu]
  case owned =>
    intro u r hr
    rcases hrequest u r hr with hold | ⟨rfl, hid, -, -⟩
    · exact hs.owned u r hold
    · exact hid
  case numbered =>
    intro u r hr
    rw [hreturned]
    rcases hrequest u r hr with hold | ⟨-, -, hnew, hlt⟩
    · obtain ⟨hnum, hret⟩ := hs.numbered u r hold
      exact ⟨by omega, hret⟩
    · exact ⟨by omega, hs.future _ (by omega)⟩
  case distinct =>
    intro u v r r' hr hr' hrr
    rcases hrequest u r hr with hold | ⟨rfl, -, hnew, -⟩
    · rcases hrequest v r' hr' with hold' | ⟨rfl, -, hnew', -⟩
      · exact hs.distinct u v r r' hold hold' hrr
      · have hnum := (hs.numbered u r hold).1
        omega
    · rcases hrequest v r' hr' with hold' | ⟨rfl, -, -, -⟩
      · have hnum := (hs.numbered v r' hold').1
        omega
      · rfl
  case future =>
    intro f hf
    rw [hreturned]
    exact hs.future f (by omega)
  case registered =>
    intro id f hf
    rw [hpre] at hf
    obtain ⟨r, hr, hid, hrf⟩ := hs.registered id f hf
    refine ⟨r, ?_, hid, hrf⟩
    rcases eq_or_ne (owner id) t with hu | hu
    · rw [hu, hidle] at hr
      cases hr
    · rwa [hother _ hu]
  case entry_held =>
    intro id hid hno
    rw [hlist] at hid
    rw [hevent]
    have hheld := hs.entry_held id hid fun v hv => by
      rcases eq_or_ne v t with rfl | hv'
      · rw [hidle] at hv
        exact hv
      · exact hno v (by rwa [hother v hv'])
    rcases eq_or_ne (owner id) t with hu | hu
    · rw [hu, hidle] at hheld
      exact hheld.elim
    · rwa [hother _ hu]
  case blocked =>
    intro u id hu
    rw [hevent] at hu
    have hold := hs.blocked u id hu
    rcases eq_or_ne u t with rfl | hut
    · rw [hidle] at hold
      exact hold.elim
    · rwa [hother u hut]
  case blocked_entered =>
    rw [hevent, hlist]
    exact hs.blocked_entered
  case blocked_kept =>
    intro u id hu v hv
    rw [hevent] at hu
    rcases eq_or_ne v t with rfl | hvt
    · exact hremoving id (hmoved ▸ hv)
    · exact hs.blocked_kept u id hu v (hother v hvt ▸ hv)
  case found_entered =>
    intro u id hu
    rw [hlist]
    rcases eq_or_ne u t with rfl | hut
    · exact absurd (hmoved ▸ hu) (hfound id)
    · exact hs.found_entered u id (hother u hut ▸ hu)

/-! ### The operations of a thread -/

section Advance

variable (hs : RequestInv owner s) (h : s.advance hasRoom t alloc = some s')

include hs h

/-- The lock is with the thread that is in the critical section. -/
theorem RequestInv.lock_iff_advance (u : Thread) : (s'.pc u).Critical ↔ s'.lock = some u := by
  refine lock_iff_step (Q := fun u => (s'.pc u).Critical) hs.lock_iff (fun u hu => ?_)
    (advance_lock h) u
  rw [advance_pc h hu]

/-- The request of a thread is the one it had, and has not returned yet. -/
theorem RequestInv.request_advance {r : Request Id} (hr : (s'.pc u).request? = some r) :
    (s.pc u).request? = some r ∧ s'.returned r.inData = s.returned r.inData := by
  obtain ⟨-, ⟨hret, hreq⟩ | ⟨r₀, hp, hp', hret⟩⟩ := advance_request h
  · rw [hret]
    rcases eq_or_ne u t with rfl | hut
    · exact ⟨hreq ▸ hr, rfl⟩
    · exact ⟨advance_pc h hut ▸ hr, rfl⟩
  · rcases eq_or_ne u t with rfl | hut
    · rw [hp'] at hr
      cases hr
    · rw [advance_pc h hut] at hr
      -- the numbers of two requests under way differ
      have hne : r.inData ≠ r₀.inData := fun heq =>
        hut (hs.distinct u t r r₀ hr (by rw [hp]; rfl) heq)
      exact ⟨hr, by rw [hret, Function.update_of_ne hne]⟩

/-- What is registered is the request of the thread that owns the id. -/
theorem RequestInv.registered_advance {id : Id} {f : Nat}
    (hf : s'.gPreOperationDataMap.getDataByKey id = some f) :
    ∃ r, (s'.pc (owner id)).registered? = some r ∧ r.id = id ∧ r.inData = f := by
  -- an entry that was there before is that of a request whose thread did not move, or stays
  have hkept : s.gPreOperationDataMap.getDataByKey id = some f →
      ((s.pc t).registered? = none ∨ (s'.pc t).registered? = (s.pc t).registered?) →
      ∃ r, (s'.pc (owner id)).registered? = some r ∧ r.id = id ∧ r.inData = f := by
    intro hold hmove
    obtain ⟨r, hr, hid, hrf⟩ := hs.registered id f hold
    refine ⟨r, ?_, hid, hrf⟩
    rcases eq_or_ne (owner id) t with hu | hu
    · rw [hu] at hr ⊢
      rcases hmove with hnone | hsame
      · rw [hnone] at hr
        cases hr
      · rw [hsame, hr]
    · rw [advance_pc h hu, hr]
  rcases advance_preOperation h with ⟨hmap, hreg⟩ | ⟨r, hp, hp', hmap⟩ | ⟨r, hp, hp', hmap⟩
  · exact hkept (hmap ▸ hf) (.inr hreg)
  · rw [hmap, DataMap.getDataByKey_addDataByKey] at hf
    by_cases hid : id = r.id
    · rw [if_pos hid] at hf
      have hown : owner id = t := hid ▸ hs.owned t r (by rw [hp]; rfl)
      exact ⟨r, by rw [hown, hp']; rfl, hid.symm, Option.some.inj hf⟩
    · rw [if_neg hid] at hf
      exact hkept hf (.inl (by rw [hp]; rfl))
  · rw [hmap, DataMap.getDataByKey_removeKey] at hf
    by_cases hid : id = r.id
    · rw [if_pos hid] at hf
      cases hf
    · rw [if_neg hid] at hf
      obtain ⟨r₀, hr₀, hid₀, hf₀⟩ := hs.registered id f hf
      refine ⟨r₀, ?_, hid₀, hf₀⟩
      rcases eq_or_ne (owner id) t with hu | hu
      · rw [hu, hp] at hr₀
        cases hr₀
        exact absurd hid₀.symm hid
      · rw [advance_pc h hu, hr₀]

omit hs in
/-- What happens to the event of a thread that another thread does not wake. -/
theorem waitEvent_advance_other {id : Id} (hut : u ≠ t) (hno : ¬ (s'.pc t).Removing id)
    (hu : s.waitEvent u = some id) : s'.waitEvent u = some id := by
  rcases advance_waitEvent h with ⟨hevent, -⟩ | ⟨r, inserted, -, -, hevent⟩ |
    ⟨id₀, caller, -, hp', hevent⟩
  · rw [hevent, hu]
  · rw [hevent, Function.update_of_ne hut, hu]
  · have hne : id ≠ id₀ := fun heq => hno (by rw [hp', heq]; rfl)
    rw [hevent]
    simp [hu, hne]

/-- The owner of an entry that nobody removes is on its way into its wait. -/
theorem RequestInv.entry_held_advance {id : Id}
    (hid : s'.gFileOpenWaitingList.getDataByKey id ≠ none)
    (hno : ∀ v, ¬ (s'.pc v).Removing id) :
    (s'.pc (owner id)).Held (s'.waitEvent (owner id)) id := by
  -- an entry that was there before, and that nobody was removing
  have hkept : s.gFileOpenWaitingList.getDataByKey id ≠ none → ¬ (s.pc t).Removing id →
      (s'.pc (owner id)).Held (s'.waitEvent (owner id)) id := by
    intro hold hnot
    have hheld := hs.entry_held id hold fun v hv => by
      rcases eq_or_ne v t with rfl | hvt
      · exact hnot hv
      · exact hno v (by rwa [advance_pc h hvt])
    rcases eq_or_ne (owner id) t with hu | hu
    · rw [hu] at hheld ⊢
      exact (advance_held h hheld).resolve_right hold
    · rw [advance_pc h hu]
      exact hheld.event (waitEvent_advance_other h hu (hno t))
  rcases advance_waitingList h with ⟨hlist, hnot⟩ | ⟨r, inserted, hp, hp', hlist⟩ |
    ⟨id₀, caller, hp, hp', hlist⟩
  · exact hkept (hlist ▸ hid) (hnot id)
  · by_cases heq : id = r.id
    · have hown : owner id = t := heq ▸ hs.owned t r (by rw [hp]; rfl)
      rw [hown, hp', heq]
      rfl
    · rw [hlist, DataMap.getDataByKey_addDataByKey, if_neg heq] at hid
      exact hkept hid (by rw [hp]; exact not_false)
  · rw [hlist, DataMap.getDataByKey_removeKey] at hid
    by_cases heq : id = id₀
    · exact absurd (if_pos heq) hid
    · rw [if_neg heq] at hid
      exact hkept hid (by rw [hp]; exact fun hrem => heq hrem.symm)

/-- Who waits for an event has asserted its wait, before or in this step. -/
theorem RequestInv.blocked_advance {id : Id} (hu : s'.waitEvent u = some id) :
    (s'.pc u).Blocking id ∧
    ((s.waitEvent u = some id) ∨
      (u = t ∧ ∃ r inserted, s.pc t = .waitAssert r inserted ∧ r.id = id)) := by
  rcases advance_waitEvent h with ⟨hevent, -, hblocking⟩ | ⟨r, inserted, hp, hp', hevent⟩ |
    ⟨id₀, caller, hp, hp', hevent⟩
  · rw [hevent] at hu
    have hold := hs.blocked u id hu
    rcases eq_or_ne u t with rfl | hut
    · refine ⟨(hblocking id hold).resolve_right ?_, .inl hu⟩
      rw [hu]
      exact Option.some_ne_none id
    · exact ⟨by rwa [advance_pc h hut], .inl hu⟩
  · rw [hevent] at hu
    rcases eq_or_ne u t with rfl | hut
    · rw [Function.update_self] at hu
      have hid := Option.some.inj hu
      exact ⟨by rw [hp']; exact hid, .inr ⟨rfl, r, inserted, hp, hid⟩⟩
    · rw [Function.update_of_ne hut] at hu
      exact ⟨by rw [advance_pc h hut]; exact hs.blocked u id hu, .inl hu⟩
  -- a wakeup clears the event of those it wakes, and this one still waits
  · have hold : s.waitEvent u = some id := by
      rw [hevent] at hu
      by_cases hcleared : s.waitEvent u = some id₀
      · simp [hcleared] at hu
      · simpa [hcleared] using hu
    have hblocked := hs.blocked u id hold
    rcases eq_or_ne u t with rfl | hut
    · rw [hp] at hblocked
      exact hblocked.elim
    · exact ⟨by rwa [advance_pc h hut], .inl hold⟩

/-- For the event of a waiting thread there is an entry. -/
theorem RequestInv.blocked_entered_advance {id : Id} (hu : s'.waitEvent u = some id) :
    s'.gFileOpenWaitingList.getDataByKey id ≠ none := by
  obtain ⟨-, hold⟩ := hs.blocked_advance h hu
  have hentered : s.gFileOpenWaitingList.getDataByKey id ≠ none := by
    rcases hold with hwait | ⟨-, r, inserted, hp, hid⟩
    · exact hs.blocked_entered u id hwait
    · exact hs.found_entered t id (by rw [hp]; exact hid)
  rcases advance_waitingList h with ⟨hlist, -⟩ | ⟨r, inserted, hp, hp', hlist⟩ |
    ⟨id₀, caller, hp, hp', hlist⟩
  · rwa [hlist]
  · rw [hlist, DataMap.getDataByKey_addDataByKey]
    split
    · exact Option.some_ne_none _
    · exact hentered
  · rcases hold with hwait | ⟨-, r, inserted, hp₀, -⟩
    · have hne : id ≠ id₀ := fun heq =>
        hs.blocked_kept u id hwait t (by rw [hp, heq]; rfl)
      rwa [hlist, DataMap.getDataByKey_removeKey, if_neg hne]
    · rw [hp] at hp₀
      cases hp₀

/-- Nobody is about to remove the entry of a waiting thread. -/
theorem RequestInv.blocked_kept_advance {id : Id} (hu : s'.waitEvent u = some id) (v : Thread) :
    ¬ (s'.pc v).Removing id := by
  intro hv
  obtain ⟨-, hold⟩ := hs.blocked_advance h hu
  rcases eq_or_ne v t with rfl | hvt
  · rcases advance_waitEvent h with ⟨-, hnot, -⟩ | ⟨r, inserted, -, hp', -⟩ |
      ⟨id₀, caller, -, hp', hevent⟩
    · exact hnot id hv
    · rw [hp'] at hv
      exact hv
    · rw [hp'] at hv
      -- the wakeup has just cleared the events of this id
      rw [hevent, show id₀ = id from hv] at hu
      by_cases hcleared : s.waitEvent u = some id
      · simp [hcleared] at hu
      · simp [hcleared] at hu
  · rw [advance_pc h hvt] at hv
    rcases hold with hwait | ⟨-, r, inserted, hp, -⟩
    · exact hs.blocked_kept u id hwait v hv
    · have hlockv := (hs.lock_iff v).mp hv.found.critical
      have hlockt := (hs.lock_iff t).mp (by rw [hp]; trivial)
      exact hvt (Option.some.inj (hlockv.symm.trans hlockt))

/-- Who has found an entry finds it there until it removes it. -/
theorem RequestInv.found_entered_advance {id : Id} (hu : (s'.pc u).Found id) :
    s'.gFileOpenWaitingList.getDataByKey id ≠ none := by
  have hentered : s.gFileOpenWaitingList.getDataByKey id ≠ none := by
    rcases eq_or_ne u t with rfl | hut
    · rcases advance_found h hu with hold | hold
      · exact hold
      · exact hs.found_entered u id hold
    · exact hs.found_entered u id (advance_pc h hut ▸ hu)
  rcases advance_waitingList h with ⟨hlist, -⟩ | ⟨r, inserted, hp, hp', hlist⟩ |
    ⟨id₀, caller, hp, hp', hlist⟩
  · rwa [hlist]
  · rw [hlist, DataMap.getDataByKey_addDataByKey]
    split
    · exact Option.some_ne_none _
    · exact hentered
  · -- the remover has the lock, so it is not another thread that has found the entry
    rcases eq_or_ne u t with rfl | hut
    · rw [hp'] at hu
      exact hu.elim
    · have hlocku := (hs.lock_iff u).mp (advance_pc h hut ▸ hu).critical
      have hlockt := (hs.lock_iff t).mp (by rw [hp]; trivial)
      exact absurd (Option.some.inj (hlocku.symm.trans hlockt)) hut

/-- The next operation of a thread keeps the invariant. -/
theorem RequestInv.advance : RequestInv owner s' where
  lock_iff := hs.lock_iff_advance h
  owned u r hr := hs.owned u r (hs.request_advance h hr).1
  numbered u r hr := by
    obtain ⟨hold, hret⟩ := hs.request_advance h hr
    obtain ⟨hnum, hnone⟩ := hs.numbered u r hold
    rw [(advance_request h).1, hret]
    exact ⟨hnum, hnone⟩
  distinct u v r r' hr hr' :=
    hs.distinct u v r r' (hs.request_advance h hr).1 (hs.request_advance h hr').1
  future f hf := by
    obtain ⟨hnext, ⟨hret, -⟩ | ⟨r, hp, -, hret⟩⟩ := advance_request h
    · rw [hret]
      exact hs.future f (hnext ▸ hf)
    · have hnum := (hs.numbered t r (by rw [hp]; rfl)).1
      rw [hret, Function.update_of_ne (by omega)]
      exact hs.future f (hnext ▸ hf)
  registered id f hf := hs.registered_advance h hf
  entry_held id hid hno := hs.entry_held_advance h hid hno
  blocked u id hu := (hs.blocked_advance h hu).1
  blocked_entered u id hu := hs.blocked_entered_advance h hu
  blocked_kept u id hu := hs.blocked_kept_advance h hu
  found_entered u id hu := hs.found_entered_advance h hu

end Advance

/-- Every step keeps the invariant. -/
theorem RequestInv.step (hs : RequestInv owner s) (h : s.step owner hasRoom a = some s') :
    RequestInv owner s' := by
  rcases step_cases h with ⟨t, alloc, -, hadvance⟩ | ⟨t, p, hidle, hstart, hpc, hsame⟩ |
    ⟨hpc, hnext, hsame⟩
  · exact hs.advance hadvance
  · exact hs.start hidle hstart hpc hsame
  · exact hs.same hpc hnext hsame

/-- The invariant holds in every state that can be reached. -/
theorem RequestInv.reachable (h : Reachable (requestSystem owner hasRoom) s) :
    RequestInv owner s := by
  refine h.invariant ?_ fun s a s' hs _ hstep => hs.step hstep
  rintro s rfl
  exact .initial

end VfsRedirector.Client
