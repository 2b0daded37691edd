import VfsRedirector.Client.HonestRun

/-!
# VFSFilter0UserClient: what a request returns with

`signal` holds the lock of the waiting list across `thread_wakeup` and
`removeKey`, but `enter` does not take that lock. A thread that has been woken
may therefore return, and enter its next request under the same id, before the
`signal` that woke it removes the entry; then it is the new entry that goes,
and the new request finds nothing to wait for (`requests_answered_fails`).

When no request returns in that window, every request returns with the answer
of its own reply and leaves nothing behind (`requests_answered`). The window
is the exact condition: a request that returns in it leaves its entry in the
waiting list (`returns_early_leaves_entry`).

## Results

* `requests_answered` — where no request returns before its entry is removed, each has
  returned its answer.
-/

namespace VfsRedirector.Client

open Library RequestPc

variable {Thread Id : Type} [DecidableEq Thread] [DecidableEq Id]
variable {owner : Id → Thread} {hasRoom : List (Message Id) → Nat → Bool}
variable {s s' : Requests Thread Id} {t u : Thread}

/-- Every request that has returned had its reply, has returned the answer of
that reply if it is a `VFSOpcode_Filter` request, and has left no entry. -/
def RequestsAnswered (s : Requests Thread Id) : Prop :=
  ∀ f b, s.returned f = some b →
    (∃ answer, s.answer f = some answer ∧ ((s.inData f).op = .filter → b = answer)) ∧
    ∀ id, s.gFileOpenWaitingList.getDataByKey id ≠ some f ∧
      s.gPreOperationDataMap.getDataByKey id ≠ some f

/-- The runs of an honest client in which no request returns before its entry
has been removed. -/
abbrev AnsweredRun (hasRoom : List (Message Id) → Nat → Bool) (s : Requests Thread Id)
    (a : RequestAction Thread Id) : Prop :=
  HonestRun hasRoom s a ∧ ReturnsAfterRemoval s a

/-- **A returned request was answered.** In a run of an honest client in which no request returns
before its entry is removed, each that has returned returned its own answer, and is in neither map.
-/
theorem requests_answered
    (h : ReachableBy (requestSystem owner hasRoom) (AnsweredRun hasRoom) s) :
    RequestsAnswered s := by
  have hs := RequestInv.reachable h.reachable
  have hi := HonestInv.reachable h
  intro f b hf
  -- whatever has an entry is under way
  have hlive : ∀ u r, (s.pc u).request? = some r → r.inData ≠ f := by
    intro u r hr heq
    have hnone := (hs.numbered u r hr).2
    rw [heq, hf] at hnone
    cases hnone
  refine ⟨hi.returned f b hf, fun id => ⟨fun hget => ?_, fun hget => ?_⟩⟩
  · obtain ⟨r, -, hrf, hentered⟩ := hi.entries id f hget
    exact hlive _ r hentered.request hrf
  · obtain ⟨r, hr, -, hrf⟩ := hs.registered id f hget
    exact hlive _ r (registered?_request hr) hrf

/-- A request that returns before the `signal` that woke it has removed its
entry leaves that entry behind. -/
theorem returns_early_leaves_entry
    (h : ReachableBy (requestSystem owner hasRoom) (AnsweredRun hasRoom) s) {r : Request Id}
    (hp : s.pc t = .finish r) (hu : (s.pc u).Removing r.id)
    (hstep : s.advance hasRoom t true = some s') : ¬ RequestsAnswered s' := by
  have hs := RequestInv.reachable h.reachable
  have hi := HonestInv.reachable h
  have hown := hs.owned t r (by rw [hp]; rfl)
  obtain ⟨f, hf⟩ := Option.ne_none_iff_exists'.mp (hs.found_entered u r.id hu.found)
  -- the entry is the one the request made
  obtain ⟨r', -, rfl, hentered⟩ := hi.entries r.id f hf
  rw [hown, hp] at hentered
  obtain rfl : r = r' := hentered
  simp only [Requests.advance, hp, Option.some.injEq] at hstep
  subst hstep
  intro hanswered
  exact (hanswered r.inData _ (Function.update_self _ _ _)).2 r.id |>.1 hf

/-- A check that is enough for `AnsweredRun`, for runs of two threads. -/
def answeredCheck (s : Requests (Fin 2) Nat) : RequestAction (Fin 2) Nat → Bool
  | .advance t alloc =>
    alloc && match s.pc t with
      | .finish r => decide (∀ v, ¬ (s.pc v).Removing r.id)
      | _ => true
  | .reply _ _ _ => false
  | _ => true

/-- What passes the check is a step of such a run. -/
theorem answeredCheck_sound (s : Requests (Fin 2) Nat) (a : RequestAction (Fin 2) Nat)
    (h : answeredCheck s a = true) : AnsweredRun (fun _ _ => true) s a := by
  cases a with
  | advance t alloc =>
    simp only [answeredCheck, Bool.and_eq_true] at h
    refine ⟨⟨h.1, fun _ _ _ => rfl⟩, fun r hp => ?_⟩
    simpa [hp] using h.2
  | reply t id flag => cases h
  | _ => exact ⟨trivial, trivial⟩

/-- Thread 0 asks and sleeps, thread 1 answers yes, and thread 0 returns when
thread 1 is done. -/
def askAndReturn : List (RequestAction (Fin 2) Nat) :=
  [.call 0 .filter 10 3, .advance 0 true, .advance 0 true, .advance 0 true, .advance 0 true,
   .advance 0 true, .advance 0 true, .advance 0 true, .dequeue,
   .replyTo 1 ⟨.filter, 10, 0, 3⟩ true, .advance 1 true, .advance 1 true, .advance 1 true,
   .advance 1 true, .advance 1 true, .advance 1 true, .advance 1 true,
   .advance 0 true, .advance 0 true, .advance 0 true]

/-- The run of `askAndReturn` meets the condition, and its request returns the answer yes. -/
theorem requests_answered_run :
    ∃ s, exec (requestSystem (fun _ => (0 : Fin 2)) fun _ _ => true) Requests.initial
        askAndReturn = some s ∧ s.returned 0 = some true ∧ RequestsAnswered s := by
  have hrun : ∃ s, exec (requestSystem (fun _ => (0 : Fin 2)) fun _ _ => true) Requests.initial
      askAndReturn = some s ∧ s.returned 0 = some true := ⟨_, rfl, rfl⟩
  obtain ⟨s, hexec, hreturned⟩ := hrun
  have hr := ReachableBy.execBy answeredCheck_sound (.init rfl) askAndReturn (by decide) hexec
  exact ⟨s, hexec, hreturned, requests_answered hr⟩

def honestCheck (_ : Requests Nat Nat) : RequestAction Nat Nat → Bool
  | .advance _ alloc => alloc
  | .reply _ _ _ => false
  | _ => true

/-- What passes the check is a step of an honest run. -/
theorem honestCheck_sound (s : Requests Nat Nat) (a : RequestAction Nat Nat)
    (h : honestCheck s a = true) : HonestRun (fun _ _ => true) s a := by
  cases a with
  | advance t alloc => exact ⟨h, fun _ _ _ => rfl⟩
  | reply t id flag => cases h
  | _ => trivial

/-- Thread 1 has woken thread 0, which returns and asks again under the same
id, before thread 1 removes the entry. -/
def askAgainInWindow : List (RequestAction Nat Nat) :=
  [.call 0 .filter 10 3, .advance 0 true, .advance 0 true, .advance 0 true, .advance 0 true,
   .advance 0 true, .advance 0 true, .advance 0 true, .dequeue,
   .replyTo 1 ⟨.filter, 10, 0, 3⟩ true, .advance 1 true, .advance 1 true, .advance 1 true,
   .advance 1 true, .advance 1 true,
   .advance 0 true, .advance 0 true, .advance 0 true,
   .call 0 .filter 10 3, .advance 0 true, .advance 0 true, .advance 0 true,
   .advance 1 true, .advance 1 true,
   .advance 0 true, .advance 0 true, .advance 0 true, .advance 0 true, .advance 0 true]

/-- The second request returns, with the answer no, before the client has seen it. -/
theorem requests_answered_fails :
    ¬ ∀ s, ReachableBy (requestSystem (fun _ : Nat => (0 : Nat)) fun _ _ => true)
      (HonestRun fun _ _ => true) s → RequestsAnswered s := by
  intro h
  have hrun : ∃ s, exec (requestSystem (fun _ : Nat => (0 : Nat)) fun _ _ => true)
      Requests.initial askAgainInWindow = some s ∧ s.returned 1 = some false ∧
      s.answer 1 = none := ⟨_, rfl, rfl, rfl⟩
  obtain ⟨s, hexec, hreturned, hanswer⟩ := hrun
  have hr := ReachableBy.execBy honestCheck_sound (.init rfl) askAgainInWindow (by decide) hexec
  obtain ⟨⟨answer, hsome, -⟩, -⟩ := h s hr 1 false hreturned
  rw [hanswer] at hsome
  cases hsome

end VfsRedirector.Client
