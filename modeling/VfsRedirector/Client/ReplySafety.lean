import VfsRedirector.Library.Count
import VfsRedirector.Client.RequestInv

/-!
# VFSFilter0UserClient::reply: the pointer into a waiting request

`reply` fetches the pointer to the caller's `QvrPreOperationCallback` from
`gPreOperationDataMap` and writes the answer through it. Its comment says that
the pointer is safe "as it will not be deleted untill a corresponding event is
set to a signal state". The event can be set by another `reply` with the same
id, which no lock keeps apart from this one, so the comment holds in the runs
where

* a registered pointer is fetched only while its request's event is not set:
  the request is about to enter the waiting list, or has its entry there and
  no `signal` has woken it;
* an event is set (`thread_wakeup`) only while no `reply` for the id stands
  between its fetch and its write;
* the request does not fail to enter the waiting list while a `reply` stands
  there.

In those runs the write always finds the request under way
(`reply_writes_live`); with a second reply for the same id it may find that
the request has returned (`reply_writes_live_fails`).

## Results

* `FetchedUnset.step` — every step that meets the condition keeps the event of a
  fetched pointer unset.
* `reply_writes_live` — where no event is set too early, `reply` writes through pointers
  of requests under way.
-/

namespace VfsRedirector.Client

open Library RequestPc

variable {Thread Id : Type} [DecidableEq Thread] [DecidableEq Id]

/-- The event of the request registered under `id` is not set: the request is
about to enter the waiting list, or nobody has woken or removed it. -/
def EventUnset (owner : Id → Thread) (s : Requests Thread Id) (id : Id) : Prop :=
  (∀ v, ¬ (s.pc v).Removing id) ∧
    (s.gFileOpenWaitingList.getDataByKey id ≠ none ∨ (s.pc (owner id)).Entering id)

/-- No `reply` stands between its fetch of the pointer registered under `id`
and its write. -/
def NoneFetched (s : Requests Thread Id) (id : Id) : Prop :=
  ∀ u f, ¬ (s.pc u).Fetched id f

/-- The condition under which the comment in `reply` is right. -/
def SignalledAfterWrite (owner : Id → Thread) (s : Requests Thread Id) :
    RequestAction Thread Id → Prop
  | .advance t alloc =>
    match s.pc t with
    | .replyGet id _ _ => s.gPreOperationDataMap.getDataByKey id ≠ none → EventUnset owner s id
    | .signalWakeup id _ => NoneFetched s id
    | .enter r _ => alloc = false → NoneFetched s r.id
    | _ => True
  | _ => True

variable {owner : Id → Thread} {hasRoom : List (Message Id) → Nat → Bool}
variable {s s' : Requests Thread Id} {a : RequestAction Thread Id} {t u : Thread} {alloc : Bool}

/-- Whoever has fetched a pointer has fetched one that is still registered,
by a request whose event is not set. -/
def FetchedUnset (owner : Id → Thread) (s : Requests Thread Id) : Prop :=
  ∀ u id f, (s.pc u).Fetched id f →
    s.gPreOperationDataMap.getDataByKey id = some f ∧ EventUnset owner s id

omit [DecidableEq Thread] in
/-- A request whose event is not set does not remove its registration. -/
theorem EventUnset.not_removing {r : Request Id} {id : Id} (hs : RequestInv owner s)
    (hunset : EventUnset owner s id) (hp : s.pc t = .removeRegistration r true) : id ≠ r.id := by
  intro heq
  have hown : owner id = t := heq ▸ hs.owned t r (by rw [hp]; rfl)
  obtain ⟨hno, hentered | hentering⟩ := hunset
  · have hheld := hs.entry_held id hentered hno
    rw [hown, hp] at hheld
    exact hheld
  · rw [hown, hp] at hentering
    exact hentering

/-- Between its fetch and its write a `reply` keeps the event of the id unset. -/
theorem EventUnset.advance {id : Id} {f : Nat} (hunset : EventUnset owner s id)
    (hok : SignalledAfterWrite owner s (.advance t alloc))
    (h : s.advance hasRoom t alloc = some s') (hfetched : (s.pc u).Fetched id f) :
    EventUnset owner s' id := by
  obtain ⟨hno, hentry⟩ := hunset
  refine ⟨fun v hv => ?_, ?_⟩
  · -- only a wakeup starts a removal, and no wakeup happens while the pointer is in use
    rcases eq_or_ne v t with rfl | hvt
    · rcases advance_waitEvent h with ⟨-, hnot, -⟩ | ⟨r, inserted, -, hp', -⟩ |
        ⟨id₀, caller, hp, hp', -⟩
      · exact hnot id hv
      · rw [hp'] at hv
        exact hv
      · rw [hp'] at hv
        simp only [SignalledAfterWrite, hp] at hok
        obtain rfl : id₀ = id := hv
        exact hok u f hfetched
    · exact hno v (advance_pc h hvt ▸ hv)
  -- an entry of the waiting list goes only by a wakeup, which has not been
  · rcases hentry with hentered | hentering
    · rcases advance_waitingList h with ⟨hlist, -⟩ | ⟨r, inserted, hp, hp', hlist⟩ |
        ⟨id₀, caller, hp, hp', hlist⟩
      · exact .inl (by rwa [hlist])
      · refine .inl ?_
        rw [hlist, DataMap.getDataByKey_addDataByKey]
        split
        · exact Option.some_ne_none _
        · exact hentered
      · have hne : id ≠ id₀ := fun heq => hno t (by rw [hp, heq]; rfl)
        exact .inl (by rwa [hlist, DataMap.getDataByKey_removeKey, if_neg hne])
    · rcases eq_or_ne (owner id) t with hown | hown
      · rw [hown] at hentering
        rcases advance_entering h hentering with hentered | halloc
        · exact .inl hentered
        · cases hp : s.pc t <;> rw [hp] at hentering <;> try exact hentering.elim
          case enter r inserted =>
            simp only [SignalledAfterWrite, hp] at hok
            exact absurd hfetched (hentering ▸ hok halloc u f)
      · exact .inr (by rwa [advance_pc h hown])

/-- A request whose event is not set stays registered. -/
theorem registered_advance_unset {id : Id} {f : Nat} (hs : RequestInv owner s)
    (hunset : EventUnset owner s id) (h : s.advance hasRoom t alloc = some s')
    (hf : s.gPreOperationDataMap.getDataByKey id = some f) :
    s'.gPreOperationDataMap.getDataByKey id = some f := by
  rcases advance_preOperation h with ⟨hmap, -⟩ | ⟨r, hp, -, hmap⟩ | ⟨r, hp, -, hmap⟩
  · rw [hmap, hf]
  · -- the thread that registers is the owner of the id, which has nothing registered yet
    have hne : id ≠ r.id := by
      intro heq
      have hown : owner id = t := heq ▸ hs.owned t r (by rw [hp]; rfl)
      obtain ⟨r₀, hr₀, -, -⟩ := hs.registered id f hf
      rw [hown, hp] at hr₀
      cases hr₀
    rw [hmap, DataMap.getDataByKey_addDataByKey, if_neg hne, hf]
  · rw [hmap, DataMap.getDataByKey_removeKey, if_neg (hunset.not_removing hs hp), hf]

/-- The next operation of a thread keeps the invariant, given the condition. -/
theorem FetchedUnset.advance (hs : RequestInv owner s) (hinv : FetchedUnset owner s)
    (hok : SignalledAfterWrite owner s (.advance t alloc))
    (h : s.advance hasRoom t alloc = some s') : FetchedUnset owner s' := by
  intro u id f hfetched
  rcases eq_or_ne u t with rfl | hut
  · -- the fetch itself, of a pointer whose request's event is not set
    obtain ⟨⟨isControlledFile, origin, hp⟩, hget⟩ := advance_fetched h hfetched
    simp only [SignalledAfterWrite, hp] at hok
    have hunset := hok (by rw [hget]; exact Option.some_ne_none f)
    simp only [Requests.advance, hp, Option.some.injEq] at h
    subst h
    refine ⟨hget, fun v hv => ?_, ?_⟩
    · exact hunset.1 v (of_update (P := fun p => Removing p id) hv fun hrem => hrem.elim)
    · rcases hunset.2 with hentered | hentering
      · exact .inl hentered
      · have hne : owner id ≠ u := fun heq => by
          rw [heq, hp] at hentering
          exact hentering
        exact .inr (by simpa [Requests.goto, Function.update_of_ne hne] using hentering)
  · rw [advance_pc h hut] at hfetched
    obtain ⟨hget, hunset⟩ := hinv u id f hfetched
    exact ⟨registered_advance_unset hs hunset h hget, hunset.advance hok h hfetched⟩

/-- Every step keeps the invariant, given the condition. -/
theorem FetchedUnset.step (hs : RequestInv owner s) (hinv : FetchedUnset owner s)
    (hok : SignalledAfterWrite owner s a) (h : s.step owner hasRoom a = some s') :
    FetchedUnset owner s' := by
  rcases step_cases h with ⟨t, alloc, rfl, hadvance⟩ | ⟨t, p, hidle, hstart, hpc, hsame⟩ |
    ⟨hpc, -, hsame⟩
  · exact hinv.advance hs hok hadvance
  · intro u id f hfetched
    rw [hpc] at hfetched
    -- the call that begins has fetched nothing
    have hold := of_update (P := fun p => Fetched p id f) hfetched fun hp => by
      cases hstart <;> exact hp.elim
    obtain ⟨hget, hno, hentry⟩ := hinv u id f hold
    refine ⟨hsame.preOperation ▸ hget, fun v hv => ?_, ?_⟩
    · rw [hpc] at hv
      exact hno v (of_update (P := fun p => Removing p id) hv fun hp => by
        cases hstart <;> exact hp.elim)
    · rw [hsame.waitingList]
      refine hentry.imp_right fun hentering => ?_
      have hne : owner id ≠ t := fun heq => by
        rw [heq, hidle] at hentering
        exact hentering
      rwa [hpc, Function.update_of_ne hne]
  · intro u id f hfetched
    rw [hpc] at hfetched
    obtain ⟨hget, hunset⟩ := hinv u id f hfetched
    exact ⟨hsame.preOperation ▸ hget, by
      unfold EventUnset
      rwa [hpc, hsame.waitingList]⟩

/-- The invariant holds in every state of a run that meets the condition. -/
theorem FetchedUnset.reachable
    (h : ReachableBy (requestSystem owner hasRoom) (SignalledAfterWrite owner) s) :
    FetchedUnset owner s := by
  refine h.invariant_of (J := RequestInv owner) (fun s hr => .reachable hr.reachable) ?_ ?_
  · rintro s rfl u id f hfetched
    exact hfetched.elim
  · intro s a s' hinv hs _ hok hstep
    exact hinv.step hs hok hstep

/-- `reply` writes through a pointer only while the request that registered it
is still under way, if no event is set while, or before, a `reply` has the
pointer in use. -/
theorem reply_writes_live
    (h : ReachableBy (requestSystem owner hasRoom) (SignalledAfterWrite owner) s) {id : Id}
    {isControlledFile : Bool} {origin : Option Nat} {f : Nat}
    (hu : s.pc u = .replyWrite id isControlledFile origin (some f)) :
    s.returned f = none ∧ ∃ r, (s.pc (owner id)).registered? = some r ∧ r.inData = f := by
  have hs := RequestInv.reachable h.reachable
  obtain ⟨hget, -⟩ := FetchedUnset.reachable h u id f (by rw [hu]; exact ⟨rfl, rfl⟩)
  obtain ⟨r, hr, -, hf⟩ := hs.registered id f hget
  have hlive := (hs.numbered _ r (registered?_request hr)).2
  exact ⟨hf ▸ hlive, r, hr, hf⟩

/-- A check that is enough for `SignalledAfterWrite`, for runs of two threads
in which nothing is signalled. -/
def unsignalledCheck (s : Requests (Fin 2) Nat) : RequestAction (Fin 2) Nat → Bool
  | .advance t alloc =>
    match s.pc t with
    | .replyGet id _ _ =>
      decide (∀ v, ¬ (s.pc v).Removing id) && (s.gFileOpenWaitingList.getDataByKey id).isSome
    | .signalWakeup _ _ => false
    | .enter _ _ => alloc
    | _ => true
  | _ => true

/-- What passes the check is a step that meets the condition. -/
theorem unsignalledCheck_sound (s : Requests (Fin 2) Nat) (a : RequestAction (Fin 2) Nat)
    (h : unsignalledCheck s a = true) : SignalledAfterWrite (fun _ => 0) s a := by
  cases a with
  | advance t alloc =>
    cases hp : s.pc t <;> simp_all [unsignalledCheck, SignalledAfterWrite, EventUnset,
      Option.isSome_iff_ne_none]
  | _ => trivial

/-- Thread 0 asks about a path of three characters and sleeps on id 10. -/
def askAndSleep (T : Type) (t : T) : List (RequestAction T Nat) :=
  [.call t .filter 10 3, .advance t true, .advance t true, .advance t true, .advance t true,
   .advance t true, .advance t true, .advance t true, .dequeue]

/-- Thread `u` answers, and has fetched the pointer. -/
def askAndFetch (T : Type) (t u : T) : List (RequestAction T Nat) :=
  askAndSleep T t ++ [.replyTo u ⟨.filter, 10, 0, 3⟩ true, .advance u true]

/-- Thread 1 is about to write to the request of thread 0, which has not returned. -/
theorem reply_writes_live_run :
    ∃ s, exec (requestSystem (fun _ => (0 : Fin 2)) fun _ _ => true) Requests.initial
        (askAndFetch (Fin 2) 0 1) = some s ∧
      s.pc 1 = .replyWrite 10 true (some 0) (some 0) ∧ s.returned 0 = none := by
  have hrun : ∃ s, exec (requestSystem (fun _ => (0 : Fin 2)) fun _ _ => true) Requests.initial
      (askAndFetch (Fin 2) 0 1) = some s ∧ s.pc 1 = .replyWrite 10 true (some 0) (some 0) :=
    ⟨_, rfl, rfl⟩
  obtain ⟨s, hexec, hpc⟩ := hrun
  have hr := ReachableBy.execBy unsignalledCheck_sound (.init rfl) _ (by decide) hexec
  exact ⟨s, hexec, hpc, (reply_writes_live hr hpc).1⟩

/-- Threads 1 and 2 reply to the same id. Thread 1 has fetched the pointer when
thread 2 writes and signals, and the request returns. -/
def replyTwice : List (RequestAction Nat Nat) :=
  askAndSleep Nat 0 ++
  [.reply 1 10 false, .advance 1 true, .reply 2 10 true, .advance 2 true, .advance 2 true,
   .advance 2 true, .advance 2 true, .advance 2 true, .advance 2 true, .advance 2 true,
   .advance 0 true, .advance 0 true, .advance 0 true]

/-- Thread 1 is about to write to a request that has returned. -/
theorem reply_writes_live_fails :
    ¬ ∀ s, Reachable (requestSystem (fun _ : Nat => (0 : Nat)) fun _ _ => true) s →
      ∀ u id isControlledFile origin f,
        s.pc u = .replyWrite id isControlledFile origin (some f) → s.returned f = none := by
  intro h
  have hrun : ∃ s, exec (requestSystem (fun _ : Nat => (0 : Nat)) fun _ _ => true)
      Requests.initial replyTwice = some s ∧
      s.pc 1 = .replyWrite 10 false none (some 0) ∧ s.returned 0 = some true :=
    ⟨_, rfl, rfl, rfl⟩
  obtain ⟨s, hexec, hpc, hreturned⟩ := hrun
  have hlive := h s (ReachableBy.exec (.init rfl) replyTwice hexec) 1 10 false none 0 hpc
  rw [hreturned] at hlive
  cases hlive

end VfsRedirector.Client
