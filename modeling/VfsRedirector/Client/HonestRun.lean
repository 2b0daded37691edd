import VfsRedirector.Client.HonestClient

/-!
# VFSFilter0UserClient: the invariant of an honest client's runs

`HonestInv` is preserved by each operation of a thread (`HonestInv.advance`,
proved field by field), by the start of a request or a reply, and by what
happens to the data queue. What carries it: only a `reply` that has the token
of a request can wake the request (`wakes_own`), so every other pending
request stays pending (`HonestInv.pending_advance`).

## Results

* `HonestInv.advance` — the next operation of a thread.
* `HonestInv.call`, `HonestInv.replyTo` — a new request, and a `reply` that starts.
* `HonestInv.reachable` — the invariant holds in every state of an honest run.
-/

namespace VfsRedirector.Client

open Library RequestPc

variable {Thread Id : Type} [DecidableEq Thread] [DecidableEq Id]
variable {owner : Id → Thread} {hasRoom : List (Message Id) → Nat → Bool}
variable {s s' : Requests Thread Id} {a : RequestAction Thread Id} {t u : Thread}

omit [DecidableEq Thread] [DecidableEq Id] in
@[simp] theorem writeAnswer_op (s : Requests Thread Id) (inData : Option Nat) (flag : Bool)
    (f : Nat) : (s.writeAnswer inData flag f).op = (s.inData f).op := by
  cases inData with
  | none => rfl
  | some g =>
    by_cases hf : f = g
    · subst hf
      cases hop : (s.inData f).op <;> simp [Requests.writeAnswer, hop]
    · cases hop : (s.inData g).op <;> simp [Requests.writeAnswer, hop, hf]

omit [DecidableEq Thread] [DecidableEq Id] in
/-- The write of an answer does not reach other requests. -/
theorem writeAnswer_other (s : Requests Thread Id) {inData : Option Nat} {flag : Bool} {f : Nat}
    (hf : inData ≠ some f) : s.writeAnswer inData flag f = s.inData f := by
  cases inData with
  | none => rfl
  | some g =>
    have hfg : f ≠ g := fun heq => hf (by rw [heq])
    cases hop : (s.inData g).op <;> simp [Requests.writeAnswer, hop, hfg]

omit [DecidableEq Thread] [DecidableEq Id] in
/-- The write of an answer leaves it in the filter request. -/
theorem writeAnswer_self (s : Requests Thread Id) {flag : Bool} {f : Nat}
    (hop : (s.inData f).op = .filter) :
    (s.writeAnswer (some f) flag f).isControlledFile = flag := by
  simp [Requests.writeAnswer, hop]

omit [DecidableEq Thread] [DecidableEq Id] in
/-- An answer is recorded for no other request. -/
theorem recordAnswer_other (s : Requests Thread Id) {origin : Option Nat} {flag : Bool} {f : Nat}
    (hf : origin ≠ some f) : s.recordAnswer origin flag f = s.answer f := by
  cases origin with
  | none => rfl
  | some g => exact Function.update_of_ne (fun heq => hf (by rw [heq])) _ _

omit [DecidableEq Thread] [DecidableEq Id] in
/-- An answer is recorded for its request as it was given. -/
theorem recordAnswer_self (s : Requests Thread Id) (flag : Bool) (f : Nat) :
    s.recordAnswer (some f) flag f = some flag :=
  Function.update_self _ _ _

section Advance

variable (hs : RequestInv owner s) (hi : HonestInv owner s)
variable (h : s.advance hasRoom t true = some s')

include h in
/-- An answer that was given is not forgotten. -/
theorem answer_advance {f : Nat} (hf : s.answer f ≠ none) : s'.answer f ≠ none := by
  rcases advance_answer h with ⟨hanswer, -, -⟩ | ⟨id, flag, origin, inData, -, -, -, hanswer⟩
  · rwa [hanswer]
  · rw [hanswer]
    by_cases hfo : origin = some f
    · rw [hfo, recordAnswer_self]
      exact Option.some_ne_none flag
    · rwa [recordAnswer_other s hfo]

include h in
/-- No step changes what a request is for. -/
theorem op_advance (f : Nat) : (s'.inData f).op = (s.inData f).op := by
  rcases advance_answer h with ⟨-, hinData, -⟩ | ⟨id, flag, origin, inData, -, -, hinData, -⟩
  · rw [hinData]
  · rw [hinData, writeAnswer_op]

include h in
/-- A message comes to the queue when its request sends it. -/
theorem outstanding_advance :
    s'.outstanding = s.outstanding ∨
      ∃ r inserted, s.pc t = .send r inserted ∧ s'.pc t = .waitLock r inserted ∧
        (s'.outstanding = s.outstanding ∨ s'.outstanding.Perm (r :: s.outstanding)) := by
  obtain ⟨hheld, ⟨hqueue, -⟩ | ⟨r, inserted, hp, hp', hqueue⟩⟩ := advance_queue h
  · exact .inl (by rw [Requests.outstanding, hheld, hqueue, Requests.outstanding])
  · refine .inr ⟨r, inserted, hp, hp', ?_⟩
    rw [Requests.outstanding, hheld, hqueue, enqueue]
    split
    · refine .inr ?_
      rw [Requests.outstanding, List.filterMap_append, List.filterMap_append, List.filterMap_append]
      simp only [List.filterMap_cons, Message.request?, List.filterMap_nil]
      rw [List.append_assoc]
      exact List.perm_middle
    · exact .inl rfl

include h in
/-- A message that is in the queue or with the client stays there when a thread moves on. -/
theorem outstanding_mono {r : Request Id} (hr : r ∈ s.outstanding) : r ∈ s'.outstanding := by
  rcases outstanding_advance h with heq | ⟨r₀, inserted, -, -, heq | hperm⟩
  · rwa [heq]
  · rwa [heq]
  · exact hperm.mem_iff.mpr (List.mem_cons_of_mem _ hr)

include hs h in
/-- An entry is kept if nobody enters a request and the moving thread removes none. -/
theorem Kept.advance {r : Request Id} (hkept : Kept s r)
    (hentered : ∀ r₀ inserted, s.pc (owner r.id) ≠ .enter r₀ inserted)
    (hno : ¬ (s'.pc t).Removing r.id) : Kept s' r := by
  obtain ⟨hentry, hkeep⟩ := hkept
  refine ⟨?_, fun v hv => ?_⟩
  · rcases advance_waitingList h with ⟨hlist, -⟩ | ⟨r₀, inserted, hp, -, hlist⟩ |
      ⟨id₀, caller, hp, -, hlist⟩
    · rw [hlist, hentry]
    · have hne : r.id ≠ r₀.id := by
        intro heq
        have hown : owner r.id = t := heq ▸ hs.owned t r₀ (by rw [hp]; rfl)
        exact hentered r₀ inserted (by rw [hown, hp])
      rw [hlist, DataMap.getDataByKey_addDataByKey, if_neg hne, hentry]
    · have hne : r.id ≠ id₀ := fun heq => hkeep t (by rw [hp, heq]; rfl)
      rw [hlist, DataMap.getDataByKey_removeKey, if_neg hne, hentry]
  · rcases eq_or_ne v t with rfl | hvt
    · exact hno hv
    · exact hkeep v (advance_pc h hvt ▸ hv)

include hi h in
/-- The thread that has just woken an id is the `reply` that has the token of
the request asleep there. -/
theorem wakes_own {id : Id} (hremoving : (s'.pc t).Removing id) :
    ∃ r, r.id = id ∧ (s.pc t).Answering id r.inData ∧ Pending owner s r := by
  rcases advance_waitEvent h with ⟨-, hnot, -⟩ | ⟨r, inserted, -, hp', -⟩ |
    ⟨id₀, caller, hp, hp', -⟩
  · exact absurd hremoving (hnot id)
  · rw [hp'] at hremoving
    exact hremoving.elim
  · rw [hp'] at hremoving
    obtain rfl : id₀ = id := hremoving
    have hhonest := hi.honest t
    rw [hp] at hhonest
    obtain ⟨f, hf⟩ := Option.ne_none_iff_exists'.mp hhonest
    have hanswering : (s.pc t).Answering id₀ f := by
      rw [hp]
      exact ⟨rfl, hf⟩
    obtain ⟨r, hid, hrf, hpending⟩ := hi.answering t id₀ f hanswering
    exact ⟨r, hid, hrf ▸ hanswering, hpending⟩

include hs hi h in
/-- A pending request stays pending unless the moving thread has its token. -/
theorem HonestInv.pending_advance {r : Request Id} (hr : Pending owner s r)
    (hnot : (s'.pc t).Removing r.id → ¬ (s.pc t).Answering r.id r.inData) :
    Pending owner s' r := by
  have hno : ¬ (s'.pc t).Removing r.id := by
    intro hremoving
    obtain ⟨r', hid, hanswering, hr'⟩ := wakes_own hi h hremoving
    have heq := hr'.unique hr hid
    exact hnot hremoving (heq ▸ hanswering)
  have hentry : s.gFileOpenWaitingList.getDataByKey r.id ≠ none := by
    rw [hr.2.1]
    exact Option.some_ne_none _
  constructor
  · rcases eq_or_ne (owner r.id) t with hown | hown
    · rw [hown]
      exact advance_asleep h (hr.at_owner hown) hentry
    · rw [advance_pc h hown]
      exact hr.1.event (waitEvent_advance_other h hown hno)
  · refine hr.2.advance hs h (fun r₀ inserted hp => ?_) hno
    have hasleep := hr.1
    rw [hp] at hasleep
    exact hasleep

include h in
/-- Past the step, whoever answers answered before. -/
theorem answering_before {id : Id} {f : Nat} (hu : (s'.pc u).Answering id f) :
    (s.pc u).Answering id f := by
  rcases eq_or_ne u t with rfl | hut
  · exact advance_answering h hu
  · exact advance_pc h hut ▸ hu

include hs hi h in
/-- Whoever answers after a step answers a request that is still pending. -/
theorem HonestInv.answering_advance {id : Id} {f : Nat} (hu : (s'.pc u).Answering id f) :
    ∃ r, r.id = id ∧ r.inData = f ∧ Pending owner s' r := by
  obtain ⟨r, rfl, rfl, hr⟩ := hi.answering u _ _ (answering_before h hu)
  refine ⟨r, rfl, rfl, hi.pending_advance hs h hr fun hremoving hanswering => ?_⟩
  -- a request has one reply, and the one that has just woken it is past answering
  have hut := hi.single u t _ _ (answering_before h hu) hanswering
  subst hut
  cases hp' : s'.pc u <;> rw [hp'] at hu hremoving <;>
    first | exact hremoving.elim | exact hu.elim

include hs hi h in
/-- A request whose message was outstanding is pending after the step. -/
theorem HonestInv.queued_advance {r : Request Id} (hr : r ∈ s.outstanding) :
    Pending owner s' r :=
  hi.pending_advance hs h (hi.queued r hr) fun _ hanswering => hi.apart r hr t hanswering

include hs hi h in
/-- A request that has just sent its message goes to sleep with its entry kept. -/
theorem HonestInv.sent_pending {r : Request Id} {inserted : Bool}
    (hp : s.pc t = .send r inserted) (hp' : s'.pc t = .waitLock r inserted) :
    Pending owner s' r := by
  have hown := hs.owned t r (by rw [hp]; rfl)
  constructor
  · rw [hown, hp']
    rfl
  · refine (hi.sending t r inserted hp).advance hs h (fun r₀ inserted₀ hp₀ => ?_) ?_
    · rw [hown, hp] at hp₀
      cases hp₀
    · rw [hp']
      exact not_false

omit [DecidableEq Thread] in
include hs hi in
/-- A request that is about to send its message has no token yet. -/
theorem HonestInv.send_untokened {r : Request Id} {inserted : Bool}
    (hp : s.pc t = .send r inserted) :
    r ∉ s.outstanding ∧ ∀ u, ¬ (s.pc u).Answering r.id r.inData := by
  have hown := hs.owned t r (by rw [hp]; rfl)
  have hnot : ∀ r', r'.id = r.id → ¬ Pending owner s r' := by
    intro r' hid hr'
    have hasleep := hr'.at_owner (hid ▸ hown)
    rw [hp] at hasleep
    exact hasleep
  constructor
  · exact fun hr => hnot r rfl (hi.queued r hr)
  · intro u hu
    obtain ⟨r', hid, -, hr'⟩ := hi.answering u _ _ hu
    exact hnot r' hid hr'

include hs hi h in
/-- A request that is about to send has its entry, which nobody removes. -/
theorem HonestInv.sending_advance {r : Request Id} {inserted : Bool}
    (hp' : s'.pc u = .send r inserted) : Kept s' r := by
  rcases eq_or_ne u t with rfl | hut
  · obtain ⟨hp, hentry⟩ := advance_sending h hp'
    refine ⟨hentry, fun v hv => ?_⟩
    -- the id had no entry before, so nobody can be removing it
    have hown := hs.owned u r (by rw [hp]; rfl)
    rcases eq_or_ne v u with rfl | hvu
    · rw [hp'] at hv
      exact hv
    · rw [advance_pc h hvu] at hv
      obtain ⟨f, hf⟩ := Option.ne_none_iff_exists'.mp (hs.found_entered v r.id hv.found)
      obtain ⟨r₀, -, -, hentered⟩ := hi.entries r.id f hf
      rw [hown, hp] at hentered
      exact hentered
  · rw [advance_pc h hut] at hp'
    have hown := hs.owned u r (by rw [hp']; rfl)
    refine (hi.sending u r inserted hp').advance hs h (fun r₀ inserted₀ hp₀ => ?_) ?_
    · rw [hown, hp'] at hp₀
      cases hp₀
    · intro hremoving
      obtain ⟨r₀, hid, -, hr₀⟩ := wakes_own hi h hremoving
      have hasleep := hr₀.at_owner (hid ▸ hown)
      rw [hp'] at hasleep
      exact hasleep

include hs hi h in
/-- A filter request stays registered until it has its answer. -/
theorem HonestInv.registered_kept_advance {r : Request Id} (hr : (s'.pc u).request? = some r)
    (hop : r.op = .filter) :
    s'.pc u = .register r ∨ s'.pc u = .finish r ∨
      s'.gPreOperationDataMap.getDataByKey r.id = some r.inData := by
  have hold := (hs.request_advance h hr).1
  have hown := hs.owned u r hold
  -- the request is being registered, is done with, or has its entry
  rcases hi.registered u r hold hop with hp | hp | hget
  · rcases eq_or_ne u t with rfl | hut
    · exact .inr (.inr (advance_register h hp hop))
    · exact .inl (by rw [advance_pc h hut, hp])
  · rcases eq_or_ne u t with rfl | hut
    · obtain ⟨-, ⟨-, -⟩ | ⟨r₀, -, hp', -⟩⟩ := advance_request h
      · simp only [Requests.advance, hp, Option.some.injEq] at h
        subst h
        simp [Requests.goto, request?] at hr
      · rw [hp'] at hr
        cases hr
    · exact .inr (.inl (by rw [advance_pc h hut, hp]))
  · rcases advance_preOperation h with ⟨hmap, -⟩ | ⟨r₀, hp, -, hmap⟩ | ⟨r₀, hp, hp', hmap⟩
    · exact .inr (.inr (by rw [hmap, hget]))
    -- an id is of one thread, so the entry added or removed is this request's or another's
    · by_cases hid : r.id = r₀.id
      · have hut : u = t := by
          rw [← hown, hid]
          exact hs.owned t r₀ (by rw [hp]; rfl)
        subst hut
        rw [hp] at hold
        cases hold
        exact .inr (.inr (by rw [hmap, DataMap.getDataByKey_addDataByKey, if_pos rfl]))
      · exact .inr (.inr (by rw [hmap, DataMap.getDataByKey_addDataByKey, if_neg hid, hget]))
    · by_cases hid : r.id = r₀.id
      · have hut : u = t := by
          rw [← hown, hid]
          exact hs.owned t r₀ (by rw [hp]; rfl)
        subst hut
        rw [hp] at hold
        cases hold
        exact .inr (.inl hp')
      · exact .inr (.inr (by rw [hmap, DataMap.getDataByKey_removeKey, if_neg hid, hget]))

include hs hi h in
/-- Every entry of the waiting list is that of a request that has entered it. -/
theorem HonestInv.entries_advance (hok : ReturnsAfterRemoval s (.advance t true)) {id : Id}
    {f : Nat} (hf : s'.gFileOpenWaitingList.getDataByKey id = some f) :
    ∃ r, r.id = id ∧ r.inData = f ∧ (s'.pc (owner id)).Entered r := by
  -- an entry that was there before is that of a request which has not returned
  have hkept : s.gFileOpenWaitingList.getDataByKey id = some f →
      ∃ r, r.id = id ∧ r.inData = f ∧ (s'.pc (owner id)).Entered r := by
    intro hold
    obtain ⟨r, hid, hrf, hentered⟩ := hi.entries id f hold
    refine ⟨r, hid, hrf, ?_⟩
    rcases eq_or_ne (owner id) t with hown | hown
    · rw [hown] at hentered ⊢
      rcases advance_entered h hentered with hentered' | hp
      · exact hentered'
      · have hno := hok r hp
        rw [hid] at hno
        have hheld := hs.entry_held id (by rw [hold]; exact Option.some_ne_none f) hno
        rw [hown, hp] at hheld
        exact hheld.elim
    · rwa [advance_pc h hown]
  rcases advance_waitingList h with ⟨hlist, -⟩ | ⟨r₀, inserted, hp, hp', hlist⟩ |
    ⟨id₀, caller, hp, hp', hlist⟩
  · exact hkept (hlist ▸ hf)
  · rw [hlist, DataMap.getDataByKey_addDataByKey] at hf
    by_cases hid : id = r₀.id
    · rw [if_pos hid] at hf
      have hown : owner id = t := hid ▸ hs.owned t r₀ (by rw [hp]; rfl)
      refine ⟨r₀, hid.symm, Option.some.inj hf, ?_⟩
      rw [hown, hp']
      rfl
    · rw [if_neg hid] at hf
      exact hkept hf
  · rw [hlist, DataMap.getDataByKey_removeKey] at hf
    by_cases hid : id = id₀
    · rw [if_pos hid] at hf
      cases hf
    · rw [if_neg hid] at hf
      exact hkept hf

/-! ### The answers -/

include hs hi h in
/-- The pointer that a `reply` has fetched is that of the request it answers. -/
theorem HonestInv.fetched_advance {id : Id} {flag : Bool} {f : Nat} {inData : Option Nat}
    (hu : s'.pc u = .replyWrite id flag (some f) inData) :
    (∀ g, inData = some g → g = f) ∧ ((s'.inData f).op = .filter → inData = some f) := by
  rcases eq_or_ne u t with rfl | hut
  · obtain ⟨hp, hget, hinData⟩ := advance_fetch h hu
    -- the pointer registered under the id is that of the request asleep there
    obtain ⟨r, rfl, rfl, hr⟩ := hi.answering u id f (by rw [hp]; exact ⟨rfl, rfl⟩)
    have hrequest := hr.1.request
    constructor
    · intro g hg
      obtain ⟨r', hr', -, hg'⟩ := hs.registered r.id g (hget ▸ hg)
      have hrr : some r = some r' := hrequest.symm.trans (registered?_request hr')
      rw [Option.some.inj hrr, hg']
    · intro hop
      rw [hinData, hi.op_kept _ r hrequest] at hop
      have hasleep := hr.1
      rcases hi.registered _ r hrequest hop with hp₀ | hp₀ | hreg
      · rw [hp₀] at hasleep
        exact hasleep.elim
      · rw [hp₀] at hasleep
        exact hasleep.elim
      · rw [hget, hreg]
  · rw [op_advance h]
    exact hi.fetched u id flag f inData (advance_pc h hut ▸ hu)

include hs hi h in
/-- The answer that a step records is that of a request under way. -/
theorem HonestInv.recorded {f : Nat} (hne : s'.answer f ≠ s.answer f) :
    f < s.nextRequest ∧ s.returned f = none := by
  rcases advance_answer h with ⟨hanswer, -, -⟩ | ⟨id, flag, origin, inData, hp, -, -, hanswer⟩
  · exact absurd (congrFun hanswer f) hne
  · have horigin : origin = some f := by
      by_contra hno
      rw [hanswer, recordAnswer_other s hno] at hne
      exact hne rfl
    obtain ⟨r, -, rfl, hr⟩ := hi.answering t id f (by rw [hp]; exact ⟨rfl, horigin⟩)
    exact hs.numbered _ r hr.1.request

include hi h in
/-- Who signals has recorded its answer. -/
theorem HonestInv.answered_advance {f : Nat} (hu : (s'.pc u).Signalling f) :
    s'.answer f ≠ none := by
  rcases eq_or_ne u t with rfl | hut
  · rcases advance_signalling h hu with hold | ⟨id, flag, inData, hp⟩
    · exact answer_advance h (hi.answered u f hold)
    · rcases advance_answer h with ⟨-, -, hnot⟩ |
        ⟨id₀, flag₀, origin₀, inData₀, hp₀, -, -, hanswer⟩
      · exact absurd hp (hnot id flag (some f) inData)
      · rw [hp] at hp₀
        cases hp₀
        rw [hanswer, recordAnswer_self]
        exact Option.some_ne_none flag
  · exact answer_advance h (hi.answered u f (advance_pc h hut ▸ hu))

include hi h in
/-- What is in a filter request is the answer that was recorded for it. -/
theorem HonestInv.value_advance {f : Nat} {b : Bool} (hf : s'.answer f = some b)
    (hop : (s'.inData f).op = .filter) : (s'.inData f).isControlledFile = b := by
  rcases advance_answer h with ⟨hanswer, hinData, -⟩ |
    ⟨id, flag, origin, inData, hp, -, hinData, hanswer⟩
  · rw [hanswer] at hf
    rw [hinData] at hop ⊢
    exact hi.value f b hf hop
  · rw [hanswer] at hf
    rw [hinData, writeAnswer_op] at hop
    have hhonest := hi.honest t
    rw [hp] at hhonest
    obtain ⟨f₀, rfl⟩ := Option.ne_none_iff_exists'.mp hhonest
    obtain ⟨honly, hwrite⟩ := hi.fetched t id flag f₀ inData hp
    by_cases hff : f = f₀
    · subst hff
      rw [recordAnswer_self] at hf
      rw [hinData, hwrite hop, writeAnswer_self s hop]
      exact Option.some.inj hf
    · rw [recordAnswer_other s fun heq => hff (Option.some.inj heq).symm] at hf
      rw [hinData, writeAnswer_other s fun heq => hff (honly f heq)]
      exact hi.value f b hf hop

include hi h in
/-- A request that has sent its message is answered, or its message is outstanding, or a `reply` is
answering it. -/
theorem HonestInv.sent_advance (hok : HonestRun hasRoom s (.advance t true)) {r : Request Id}
    (hr : (s'.pc u).Sent r) :
    s'.answer r.inData ≠ none ∨ r ∈ s'.outstanding ∨ ∃ v, (s'.pc v).Answering r.id r.inData := by
  have hkept : (s.pc u).Sent r →
      s'.answer r.inData ≠ none ∨ r ∈ s'.outstanding ∨
        ∃ v, (s'.pc v).Answering r.id r.inData := by
    intro hold
    rcases hi.sent u r hold with hanswer | hout | ⟨v, hv⟩
    · exact .inl (answer_advance h hanswer)
    · exact .inr (.inl (outstanding_mono h hout))
    · rcases eq_or_ne v t with rfl | hvt
      · rcases advance_answered h hv with hv' | hsignalling
        · exact .inr (.inr ⟨v, hv'⟩)
        · exact .inl (answer_advance h (hi.answered v _ hsignalling))
      · exact .inr (.inr ⟨v, by rwa [advance_pc h hvt]⟩)
  rcases eq_or_ne u t with rfl | hut
  · rcases advance_sent h (hi.honest u) hr with hold | ⟨inserted, hp⟩
    · exact hkept hold
    · -- the message has found room
      refine .inr (.inl ?_)
      obtain ⟨hheld, ⟨-, hnot⟩ | ⟨r₀, inserted₀, hp₀, -, hqueue⟩⟩ := advance_queue h
      · exact absurd hp (hnot r inserted)
      · rw [hp] at hp₀
        cases hp₀
        have hroom := hok.2 r inserted hp
        simp [Requests.outstanding, hqueue, enqueue, Message.size, hroom, Message.request?]
  · exact hkept (advance_pc h hut ▸ hr)

include hs hi h in
/-- What a request returned is the answer that was recorded. -/
theorem HonestInv.returned_advance {f : Nat} {b : Bool} (hf : s'.returned f = some b) :
    ∃ answer, s'.answer f = some answer ∧ ((s'.inData f).op = .filter → b = answer) := by
  have hkept : s.returned f = some b →
      ∃ answer, s'.answer f = some answer ∧ ((s'.inData f).op = .filter → b = answer) := by
    intro hold
    obtain ⟨answer, hanswer, hb⟩ := hi.returned f b hold
    have hsame : s'.answer f = s.answer f := by
      by_contra hne
      have hnone := (hi.recorded hs h hne).2
      rw [hold] at hnone
      cases hnone
    exact ⟨answer, by rw [hsame, hanswer], by rwa [op_advance h]⟩
  obtain ⟨-, ⟨hret, -⟩ | ⟨r, hp, -, hret⟩⟩ := advance_request h
  · exact hkept (hret ▸ hf)
  · rw [hret] at hf
    by_cases hfr : f = r.inData
    · subst hfr
      rw [Function.update_self] at hf
      have hown := hs.owned t r (by rw [hp]; rfl)
      -- a request that returns is not asleep, so its token has been used
      have hawake : ¬ Pending owner s r := fun hr => by
        have hasleep := hr.at_owner hown
        rw [hp] at hasleep
        exact hasleep
      have hanswer : s.answer r.inData ≠ none := by
        rcases hi.sent t r (by rw [hp]; rfl) with hanswer | hout | ⟨v, hv⟩
        · exact hanswer
        · exact absurd (hi.queued r hout) hawake
        · obtain ⟨r', hid, hrf, hr'⟩ := hi.answering v _ _ hv
          have hasleep := hr'.at_owner (hid ▸ hown)
          rw [hp] at hasleep
          exact hasleep.elim
      obtain ⟨answer, hsome⟩ := Option.ne_none_iff_exists'.mp hanswer
      rcases advance_answer h with ⟨hsame, -, -⟩ | ⟨id, flag, origin, inData, hp₀, -⟩
      · refine ⟨answer, by rw [hsame, hsome], fun hop => ?_⟩
        rw [op_advance h] at hop
        rw [← Option.some.inj hf]
        exact hi.value r.inData answer hsome hop
      · rw [hp] at hp₀
        cases hp₀
    · rw [Function.update_of_ne hfr] at hf
      exact hkept hf

include hs hi h in
/-- The next operation of a thread keeps the invariant. -/
theorem HonestInv.advance (hok : HonestRun hasRoom s (.advance t true))
    (hret : ReturnsAfterRemoval s (.advance t true)) : HonestInv owner s' where
  honest u := by
    rcases eq_or_ne u t with rfl | hut
    · exact advance_honest h (hi.honest u)
    · rw [advance_pc h hut]
      exact hi.honest u
  -- a request goes to the queue when it is sent; the others stay there
  queued r hr := by
    rcases outstanding_advance h with heq | ⟨r₀, inserted, hp, hp', heq | hperm⟩
    · exact hi.queued_advance hs h (heq ▸ hr)
    · exact hi.queued_advance hs h (heq ▸ hr)
    · rcases List.mem_cons.mp (hperm.mem_iff.mp hr) with rfl | hold
      · exact hi.sent_pending hs h hp hp'
      · exact hi.queued_advance hs h hold
  answering u id f hu := hi.answering_advance hs h hu
  sending u r inserted hp' := hi.sending_advance hs h hp'
  nodup := by
    rcases outstanding_advance h with heq | ⟨r₀, inserted, hp, -, heq | hperm⟩
    · rw [heq]
      exact hi.nodup
    · rw [heq]
      exact hi.nodup
    · rw [hperm.nodup_iff, List.nodup_cons]
      exact ⟨(hi.send_untokened hs hp).1, hi.nodup⟩
  -- the request that is sent was not answered before
  apart r hr u hu := by
    have hold := answering_before h hu
    rcases outstanding_advance h with heq | ⟨r₀, inserted, hp, -, heq | hperm⟩
    · exact hi.apart r (heq ▸ hr) u hold
    · exact hi.apart r (heq ▸ hr) u hold
    · rcases List.mem_cons.mp (hperm.mem_iff.mp hr) with rfl | hin
      · exact (hi.send_untokened hs hp).2 u hold
      · exact hi.apart r hin u hold
  single u v id f hu hv := hi.single u v id f (answering_before h hu) (answering_before h hv)
  op_kept u r hr := by
    rw [op_advance h]
    exact hi.op_kept u r (hs.request_advance h hr).1
  registered u r hr hop := hi.registered_kept_advance hs h hr hop
  entries id f hf := hi.entries_advance hs h hret hf
  fetched u id flag f inData hu := hi.fetched_advance hs h hu
  -- an answer is of a request that was made
  fresh f hf := by
    rw [(advance_request h).1] at hf
    by_contra hne
    have hold := hi.fresh f hf
    have hlt := (hi.recorded hs h (f := f) (by rw [hold]; exact hne)).1
    omega
  answered u f hu := hi.answered_advance h hu
  value f b hf hop := hi.value_advance h hf hop
  sent u r hr := hi.sent_advance h hok hr
  returned f b hf := hi.returned_advance hs h hf

end Advance

/-! ### The other steps -/

omit [DecidableEq Thread] in
/-- A request stays pending in a step that touches neither its thread nor its entry. -/
theorem Pending.same {r : Request Id} (hr : Pending owner s r)
    (hpc : s'.pc (owner r.id) = s.pc (owner r.id)) (hevent : s'.waitEvent = s.waitEvent)
    (hlist : s'.gFileOpenWaitingList = s.gFileOpenWaitingList)
    (hremoving : ∀ v, (s'.pc v).Removing r.id → (s.pc v).Removing r.id) : Pending owner s' r := by
  obtain ⟨hasleep, hentry, hkeep⟩ := hr
  exact ⟨by rwa [hpc, hevent], by rwa [hlist], fun v hv => hkeep v (hremoving v hv)⟩

omit [DecidableEq Thread] in
/-- A step that only moves messages towards the client. -/
theorem HonestInv.requeue (hi : HonestInv owner s) (hpc : s'.pc = s.pc)
    (hnext : s'.nextRequest = s.nextRequest) (hsame : SameShared s s')
    (hinData : s'.inData = s.inData) (hanswer : s'.answer = s.answer)
    (hperm : s'.outstanding.Perm s.outstanding) : HonestInv owner s' := by
  obtain ⟨hlock, hevent, hlist, hpre, hreturned⟩ := hsame
  -- only the order of the requests in the queue changes
  have hpending : ∀ r, Pending owner s r → Pending owner s' r := fun r hr =>
    hr.same (by rw [hpc]) hevent hlist fun v hv => by rwa [hpc] at hv
  constructor
  case honest => simpa only [hpc] using hi.honest
  case queued => exact fun r hr => hpending r (hi.queued r (hperm.mem_iff.mp hr))
  case answering =>
    intro u id f hu
    rw [hpc] at hu
    obtain ⟨r, hid, hrf, hr⟩ := hi.answering u id f hu
    exact ⟨r, hid, hrf, hpending r hr⟩
  case sending => simpa only [hpc, hlist, Kept] using hi.sending
  case nodup => exact hperm.nodup_iff.mpr hi.nodup
  case apart =>
    intro r hr u hu
    exact hi.apart r (hperm.mem_iff.mp hr) u (hpc ▸ hu)
  case single => simpa only [hpc] using hi.single
  case op_kept => simpa only [hpc, hinData] using hi.op_kept
  case registered => simpa only [hpc, hpre] using hi.registered
  case entries => simpa only [hpc, hlist] using hi.entries
  case fetched => simpa only [hpc, hinData] using hi.fetched
  case fresh => simpa only [hnext, hanswer] using hi.fresh
  case answered => simpa only [hpc, hanswer] using hi.answered
  case value => simpa only [hanswer, hinData] using hi.value
  case sent =>
    intro t r hr
    rw [hpc] at hr
    rw [hanswer, hperm.mem_iff, hpc]
    exact hi.sent t r hr
  case returned => simpa only [hreturned, hanswer, hinData] using hi.returned

/-- The start of a request, or of the reply that takes a message from those
outstanding. -/
theorem HonestInv.start {p : RequestPc Id} (hs : RequestInv owner s) (hi : HonestInv owner s)
    (hidle : s.pc t = .idle) (hstart : Start owner s s' t p)
    (hpc : s'.pc = Function.update s.pc t p) (hsame : SameShared s s')
    (hanswer : s'.answer = s.answer) (hhonest : p.Honest)
    (hinData : ∀ f, f < s.nextRequest → s'.inData f = s.inData f)
    (hop : ∀ r, p.request? = some r → p = .register r ∧ (s'.inData r.inData).op = r.op)
    (hnodup : s'.outstanding.Nodup) (hout : ∀ r ∈ s'.outstanding, r ∈ s.outstanding)
    (htaken : ∀ r ∈ s.outstanding, r ∈ s'.outstanding ∨ p.Answering r.id r.inData)
    (hanswering : ∀ id f, p.Answering id f →
      ∃ r ∈ s.outstanding, r.id = id ∧ r.inData = f ∧ r ∉ s'.outstanding) :
    HonestInv owner s' := by
  obtain ⟨hlock, hevent, hlist, hpre, hreturned⟩ := hsame
  have hmoved : s'.pc t = p := by rw [hpc, Function.update_self]
  have hother : ∀ u, u ≠ t → s'.pc u = s.pc u := fun u hu => by
    rw [hpc, Function.update_of_ne hu]
  have hnext : s.nextRequest ≤ s'.nextRequest := by
    cases hstart <;> omega
  -- what a thread is in the middle of, it was in the middle of before
  have hbefore : ∀ {P : RequestPc Id → Prop} {u : Thread}, P (s'.pc u) → ¬ P p → P (s.pc u) := by
    intro P u hu hp
    rw [hpc] at hu
    exact of_update hu fun hp' => absurd hp' hp
  have hpending : ∀ r, Pending owner s r → Pending owner s' r := by
    intro r hr
    have hown : owner r.id ≠ t := fun heq => by
      have hasleep := hr.at_owner heq
      rw [hidle] at hasleep
      exact hasleep
    exact hr.same (hother _ hown) hevent hlist fun v hv =>
      hbefore (P := fun p => p.Removing r.id) hv (hstart.quiet.2.1 r.id)
  have hnumbered : ∀ r, Pending owner s r → s'.inData r.inData = s.inData r.inData := fun r hr =>
    hinData _ (hs.numbered _ r hr.1.request).1
  -- a reply under way is an old one, or the one that starts
  have hreply : ∀ u id f, (s'.pc u).Answering id f →
      (s.pc u).Answering id f ∨
        (u = t ∧ ∃ r ∈ s.outstanding, r.id = id ∧ r.inData = f ∧ r ∉ s'.outstanding) := by
    intro u id f hu
    rcases eq_or_ne u t with rfl | hut
    · exact .inr ⟨rfl, hanswering id f (hmoved ▸ hu)⟩
    · exact .inl (hother u hut ▸ hu)
  constructor
  case honest =>
    intro u
    rcases eq_or_ne u t with rfl | hut
    · rwa [hmoved]
    · rw [hother u hut]
      exact hi.honest u
  case queued => exact fun r hr => hpending r (hi.queued r (hout r hr))
  case answering =>
    intro u id f hu
    rcases hreply u id f hu with hold | ⟨-, r, hr, hid, hrf, -⟩
    · obtain ⟨r, hid, hrf, hr⟩ := hi.answering u id f hold
      exact ⟨r, hid, hrf, hpending r hr⟩
    · exact ⟨r, hid, hrf, hpending r (hi.queued r hr)⟩
  case sending =>
    intro u r inserted hu
    have hold := hbefore (P := fun p => p = .send r inserted) hu (by cases hstart <;> simp)
    obtain ⟨hentry, hkeep⟩ := hi.sending u r inserted hold
    exact ⟨by rwa [hlist], fun v hv => hkeep v
      (hbefore (P := fun p => p.Removing r.id) hv (hstart.quiet.2.1 r.id))⟩
  case nodup => exact hnodup
  case apart =>
    intro r hr u hu
    rcases hreply u _ _ hu with hold | ⟨-, r', hr', hid, hrf, hnot⟩
    · exact hi.apart r (hout r hr) u hold
    · have heq := (hi.queued r' hr').unique (hi.queued r (hout r hr)) hid
      exact hnot (heq ▸ hr)
  case single =>
    intro u v id f hu hv
    rcases hreply u id f hu with hold | ⟨rfl, r, hr, rfl, rfl, -⟩
    · rcases hreply v id f hv with hold' | ⟨rfl, r, hr, rfl, rfl, -⟩
      · exact hi.single u v id f hold hold'
      · exact absurd hold (hi.apart r hr u)
    · rcases hreply v _ _ hv with hold' | ⟨rfl, -⟩
      · exact absurd hold' (hi.apart r hr v)
      · rfl
  case op_kept =>
    intro u r hr
    rcases eq_or_ne u t with rfl | hut
    · exact (hop r (hmoved ▸ hr)).2
    · rw [hother u hut] at hr
      rw [hinData _ (hs.numbered u r hr).1]
      exact hi.op_kept u r hr
  case registered =>
    intro u r hr hfilter
    rcases eq_or_ne u t with rfl | hut
    · exact .inl (by rw [hmoved]; exact (hop r (hmoved ▸ hr)).1)
    · rw [hother u hut] at hr ⊢
      rw [hpre]
      exact hi.registered u r hr hfilter
  case entries =>
    intro id f hf
    rw [hlist] at hf
    obtain ⟨r, hid, hrf, hentered⟩ := hi.entries id f hf
    have hown : owner id ≠ t := fun heq => by
      rw [heq, hidle] at hentered
      exact hentered
    exact ⟨r, hid, hrf, by rwa [hother _ hown]⟩
  case fetched =>
    intro u id flag f inData hu
    have hold := hbefore (P := fun p => p = .replyWrite id flag (some f) inData) hu
      (by cases hstart <;> simp)
    obtain ⟨r, -, rfl, hr⟩ := hi.answering u id f (by rw [hold]; exact ⟨rfl, rfl⟩)
    rw [hnumbered r hr]
    exact hi.fetched u id flag _ inData hold
  case fresh =>
    intro f hf
    rw [hanswer]
    exact hi.fresh f (by omega)
  case answered =>
    intro u f hu
    rw [hanswer]
    exact hi.answered u f (hbefore (P := fun p => p.Signalling f) hu
      (by cases hstart <;> exact not_false))
  case value =>
    intro f b hf hfilter
    rw [hanswer] at hf
    have hlt : f < s.nextRequest := by
      by_contra hge
      rw [hi.fresh f (by omega)] at hf
      cases hf
    rw [hinData f hlt] at hfilter ⊢
    exact hi.value f b hf hfilter
  case sent =>
    intro u r hr
    have hold := hbefore (P := fun p => p.Sent r) hr (by cases hstart <;> exact not_false)
    rw [hanswer]
    rcases hi.sent u r hold with hans | hin | ⟨v, hv⟩
    · exact .inl hans
    · rcases htaken r hin with hin' | hp
      · exact .inr (.inl hin')
      · exact .inr (.inr ⟨t, by rwa [hmoved]⟩)
    · have hvt : v ≠ t := fun heq => by
        rw [heq, hidle] at hv
        exact hv
      exact .inr (.inr ⟨v, by rwa [hother v hvt]⟩)
  case returned =>
    intro f b hf
    rw [hreturned] at hf
    have hlt : f < s.nextRequest := by
      by_contra hge
      rw [hs.future f (by omega)] at hf
      cases hf
    rw [hanswer, hinData f hlt]
    exact hi.returned f b hf

/-- A new request has a fresh number, so no message and no answer is for it. -/
theorem HonestInv.call (hs : RequestInv owner s) (hi : HonestInv owner s) {op : Opcode} {id : Id}
    {length : Nat} (h : s.step owner hasRoom (.call t op id length) = some s') :
    HonestInv owner s' := by
  simp only [Requests.step] at h
  split at h
  · rename_i hidle
    cases h
    refine hi.start hs hidle.1 (.request op id length hidle.2 rfl) rfl ⟨rfl, rfl, rfl, rfl, rfl⟩ rfl
      trivial ?_ ?_ hi.nodup (fun r hr => hr) (fun r hr => .inl hr) fun _ _ hp => hp.elim
    · exact fun f hf => Function.update_of_ne (by omega) _ _
    · intro r hr
      cases hr
      exact ⟨rfl, by simp⟩
  · cases h

/-- A `reply` that starts takes the token of its message. -/
theorem HonestInv.replyTo (hs : RequestInv owner s) (hi : HonestInv owner s) {r : Request Id}
    {flag : Bool} (h : s.step owner hasRoom (.replyTo t r flag) = some s') :
    HonestInv owner s' := by
  simp only [Requests.step] at h
  split at h
  · rename_i hidle
    obtain ⟨hidle, hheld⟩ := hidle
    cases h
    -- the message that is taken is the only one of its request
    have hperm : s.outstanding.Perm
        (r :: (s.fDataQueue ++ s.held.erase (.preOperation r)).filterMap Message.request?) := by
      have hcons := ((List.perm_cons_erase hheld).append_left s.fDataQueue).trans List.perm_middle
      exact hcons.filterMap Message.request?
    have hnodup := hperm.nodup_iff.mp hi.nodup
    rw [List.nodup_cons] at hnodup
    have hmem : r ∈ s.outstanding := hperm.mem_iff.mpr List.mem_cons_self
    refine hi.start hs hidle (.reply r.id flag _ rfl) rfl ⟨rfl, rfl, rfl, rfl, rfl⟩ rfl
      (Option.some_ne_none _) (fun _ _ => rfl) (fun _ hr => by cases hr) hnodup.2 ?_ ?_ ?_
    · exact fun r' hr' => hperm.mem_iff.mpr (List.mem_cons_of_mem _ hr')
    · intro r' hr'
      rcases List.mem_cons.mp (hperm.mem_iff.mp hr') with rfl | hin
      · exact .inr ⟨rfl, rfl⟩
      · exact .inl hin
    · rintro id f ⟨rfl, hf⟩
      exact ⟨r, hmem, rfl, Option.some.inj hf, hnodup.1⟩
  · cases h

/-- Every step of an honest run keeps the invariant. -/
theorem HonestInv.step (hs : RequestInv owner s) (hi : HonestInv owner s)
    (hok : HonestRun hasRoom s a) (hret : ReturnsAfterRemoval s a)
    (h : s.step owner hasRoom a = some s') : HonestInv owner s' := by
  cases a with
  | advance t alloc =>
    obtain rfl : alloc = true := hok.1
    exact hi.advance hs h hok hret
  | call t op id length => exact hi.call hs h
  | replyTo t r flag => exact hi.replyTo hs h
  | reply t id flag => exact hok.elim
  | audit t length =>
    simp only [Requests.step] at h
    split at h <;> cases h
    refine hi.requeue rfl rfl ⟨rfl, rfl, rfl, rfl, rfl⟩ rfl rfl ?_
    rw [Requests.outstanding, enqueue]
    split
    · rw [Requests.outstanding, List.filterMap_append, List.filterMap_append,
        List.filterMap_append, List.append_assoc]
      exact .refl _
    · rfl
  | dequeue =>
    simp only [Requests.step] at h
    split at h
    · cases h
    · rename_i m queue hqueue
      cases h
      refine hi.requeue rfl rfl ⟨rfl, rfl, rfl, rfl, rfl⟩ rfl rfl ?_
      rw [Requests.outstanding, Requests.outstanding, hqueue]
      exact List.perm_middle.filterMap Message.request?

omit [DecidableEq Thread] in
/-- The invariant of an honest run holds before the first request. -/
theorem HonestInv.initial : HonestInv owner (Requests.initial : Requests Thread Id) := by
  constructor <;>
    simp [Requests.initial, Requests.outstanding, Honest, Answering, Signalling, Sent, request?]

/-- The invariant holds in every state of an honest run. -/
theorem HonestInv.reachable
    (h : ReachableBy (requestSystem owner hasRoom)
      (fun s a => HonestRun hasRoom s a ∧ ReturnsAfterRemoval s a) s) : HonestInv owner s := by
  refine h.invariant_of (J := RequestInv owner) (fun s hr => .reachable hr.reachable) ?_ ?_
  · rintro s rfl
    exact .initial
  · intro s a s' hi hs _ hok hstep
    exact hi.step hs hok.1 hok.2 hstep

end VfsRedirector.Client
