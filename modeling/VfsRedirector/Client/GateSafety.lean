import VfsRedirector.Library.Count
import VfsRedirector.Client.Gate

/-!
# com_VFSFilter0: no client is released while a thread uses it

`GateInv` is what every interleaving of `getClient`, `putClient`,
`registerUserClient` and `unregisterUserClient` preserves. Two facts carry it:

* a thread increments `clientInvocations` *before* it reads the pointer, and
  keeps it counted until `putClient`, so a thread that met registration `n`
  is counted for as long as it may use the client (`counted`);
* the swap of `unregisterUserClient` ends its registration for good: the
  pointer may be set again, to the same object even, but under a later number
  (`closing_ended`), so no thread can obtain the client through registration
  `n` after the zero test of the thread that closes `n` (`release_unused`).

## Results

* `advance_effect` — the effects that an operation can have.
* `GateInv.step` — each effect keeps the invariant.
* `unregister_drops_unused` — a client is released once, and by then nobody uses it.
-/

namespace VfsRedirector.Client

open Library

namespace GatePc

variable {Client : Type}

/-- Between its increment of `clientInvocations` and its decrement. -/
def Counted : GatePc Client → Prop
  | .getRead | .getSwapSame _ | .getSwapNull _ _ | .getDecrement | .inUse _ _ => True
  | _ => False

/-- `getClient` has returned `client`, found under registration `n`, and
`putClient` has not decremented yet. -/
def Obtained (p : GatePc Client) (client : Client) (n : Nat) : Prop :=
  p = .inUse client n

/-- The thread met registration `n` in its first swap: it has obtained the
client, or is about to. -/
def Holds : GatePc Client → Nat → Prop
  | .getSwapNull _ m, n => m = n
  | .inUse _ m, n => m = n
  | _, _ => False

/-- The thread has taken registration `n` down and still has to drop its
reference. -/
def Closing : GatePc Client → Nat → Prop
  | .unregisterSleep _ m, n => m = n
  | .unregisterTest _ m, n => m = n
  | .unregisterRelease _ m, n => m = n
  | _, _ => False

/-- The zero test of the thread that took registration `n` down succeeded: the
next operation drops the reference on `client`. -/
def Releasing (p : GatePc Client) (client : Client) (n : Nat) : Prop :=
  p = .unregisterRelease client n

/-- Who holds a registration is counted. -/
theorem Holds.counted {p : GatePc Client} {n : Nat} (h : p.Holds n) : p.Counted := by
  cases p <;> simp_all [Holds, Counted]

end GatePc

open GatePc

variable {Client Thread : Type} [DecidableEq Client] [DecidableEq Thread]

structure GateInv (s : Gate Client Thread) : Prop where
  counted : HasCard (fun t => (s.pc t).Counted) s.clientInvocations
  closing_ended : ∀ u n, (s.pc u).Closing n →
    n ≤ s.registration ∧ (s.userClient ≠ none → n ≠ s.registration)
  closing_unique : ∀ u u' n, (s.pc u).Closing n → (s.pc u').Closing n → u = u'
  closing_undropped : ∀ u n, (s.pc u).Closing n → s.dropped n = 0
  current_undropped : s.userClient ≠ none → s.dropped s.registration = 0
  future_undropped : ∀ n, s.registration < n → s.dropped n = 0
  dropped_le : ∀ n, s.dropped n ≤ 1
  release_unused : ∀ u c n, (s.pc u).Releasing c n → ∀ t, ¬ (s.pc t).Holds n

omit [DecidableEq Client] [DecidableEq Thread] in
/-- The invariant holds before the first client. -/
theorem GateInv.initial (retainCount : Client → Int) :
    GateInv (Gate.initial retainCount : Gate Client Thread) where
  counted := HasCard.zero fun t => by simp [Gate.initial, Counted]
  closing_ended := by simp [Gate.initial, Closing]
  closing_unique := by simp [Gate.initial, Closing]
  closing_undropped := by simp [Gate.initial]
  current_undropped := by simp [Gate.initial]
  future_undropped := by simp [Gate.initial]
  dropped_le := by simp [Gate.initial]
  release_unused := by simp [Gate.initial, Releasing]

-- ---------------------------------------------------------------------------
-- What a step can do
-- ---------------------------------------------------------------------------

/-- The effects a step of thread `t` can have on what `GateInv` speaks of.
All but `quiet` are the atomic operations the scheme rests on. -/
inductive Effect (s : Gate Client Thread) (t : Thread) : Gate Client Thread → Prop
  | quiet (p : GatePc Client) (pending : Bool) (retain : Client → Int)
      (hcounted : p.Counted ↔ (s.pc t).Counted)
      (hholds : ∀ n, p.Holds n → (s.pc t).Holds n)
      (hclosing : ∀ n, p.Closing n → (s.pc t).Closing n)
      (hrelease : ∀ c n, p ≠ .unregisterRelease c n) :
      Effect s t { s.goto t p with pendingUnregistration := pending, retainCount := retain }
  | increment (hp : s.pc t = .getIncrement) :
      Effect s t { s.goto t .getRead with clientInvocations := s.clientInvocations + 1 }
  | decrement (p : GatePc Client) (hcounted : (s.pc t).Counted)
      (hp : p = .idle ∨ p = .putTestClient) :
      Effect s t { s.goto t p with clientInvocations := s.clientInvocations - 1 }
  | obtain (c : Client) (hp : s.pc t = .getSwapSame c) (hc : s.userClient = some c) :
      Effect s t (s.goto t (.getSwapNull c s.registration))
  | publish (c : Client) (hp : s.pc t = .registerSwap c) (hc : s.userClient = none) :
      Effect s t { s.goto t (.registerRetain c) with
        userClient := some c, registration := s.registration + 1 }
  | takeDown (c : Client) (hp : s.pc t = .unregisterSwap c) (hc : s.userClient = some c) :
      Effect s t { s.goto t (.unregisterSleep c s.registration) with userClient := none }
  | zeroTest (c : Client) (n : Nat) (hp : s.pc t = .unregisterTest c n)
      (hzero : s.clientInvocations = 0) :
      Effect s t (s.goto t (.unregisterRelease c n))
  | drop (c : Client) (n : Nat) (hp : s.pc t = .unregisterRelease c n) :
      Effect s t { s.goto t .unregisterClearPending with
        retainCount := Function.update s.retainCount c (s.retainCount c - 1)
        dropped := Function.update s.dropped n (s.dropped n + 1) }

def GateAction.thread : GateAction Client Thread → Thread
  | .call t _ | .putClient t | .advance t => t

/-- A thread that only moves on has no effect on what the invariant speaks of. -/
theorem Effect.goto {s : Gate Client Thread} {t : Thread} (p : GatePc Client)
    (hcounted : p.Counted ↔ (s.pc t).Counted)
    (hholds : ∀ n, p.Holds n → (s.pc t).Holds n)
    (hclosing : ∀ n, p.Closing n → (s.pc t).Closing n)
    (hrelease : ∀ c n, p ≠ .unregisterRelease c n) : Effect s t (s.goto t p) :=
  .quiet p s.pendingUnregistration s.retainCount hcounted hholds hclosing hrelease

/-- The next operation of a thread has one of the effects. -/
theorem advance_effect {s s' : Gate Client Thread} {t : Thread}
    (h : s.advance t = some s') : Effect s t s' := by
  unfold Gate.advance at h
  cases hp : s.pc t <;> simp only [hp] at h
  case idle => cases h
  case inUse => cases h
  case getTestClient | getTestPending | registerTestPending | unregisterRead =>
    split at h <;> cases h <;>
      exact .goto _ (by simp [hp, Counted]) (by simp [Holds]) (by simp [Closing]) (by simp)
  -- the count goes up before the client is read again
  case getIncrement =>
    cases h
    exact .increment hp
  case getRead =>
    split at h <;> cases h <;>
      exact .goto _ (by simp [hp, Counted]) (by simp [Holds]) (by simp [Closing]) (by simp)
  -- the client is still the one read: it is obtained
  case getSwapSame c =>
    split at h
    · rename_i hc
      cases h
      exact .obtain c hp hc
    · cases h
      exact .goto _ (by simp [hp, Counted]) (by simp [Holds]) (by simp [Closing]) (by simp)
  case getSwapNull c n =>
    split at h <;> cases h <;>
      exact .goto _ (by simp [hp, Counted]) (by simp [hp, Holds]) (by simp [Closing]) (by simp)
  case getDecrement =>
    cases h
    exact .decrement .idle (by simp [hp, Counted]) (.inl rfl)
  case putTestClient | unregisterGiveUp | unregisterSetPending | unregisterClearPending |
      registerRetain | returned =>
    cases h
    exact .quiet _ _ _ (by simp [hp, Counted]) (by simp [Holds]) (by simp [Closing]) (by simp)
  case registerSwap c =>
    split at h
    · rename_i hc
      cases h
      exact .publish c hp hc
    · cases h
      exact .goto _ (by simp [hp, Counted]) (by simp [Holds]) (by simp [Closing]) (by simp)
  -- the pointer is taken down; from here on no invocation obtains the client
  case unregisterSwap c =>
    split at h
    · rename_i hc
      cases h
      exact .takeDown c hp hc
    · cases h
      exact .goto _ (by simp [hp, Counted]) (by simp [Holds]) (by simp [Closing]) (by simp)
  case unregisterSleep c n =>
    cases h
    exact .goto _ (by simp [hp, Counted]) (by simp [Holds]) (by simp [hp, Closing]) (by simp)
  -- the release waits for a count of 0
  case unregisterTest c n =>
    split at h
    · cases h
      exact .goto _ (by simp [hp, Counted]) (by simp [Holds]) (by simp [hp, Closing]) (by simp)
    · rename_i hzero
      cases h
      exact .zeroTest c n hp (by simpa using hzero)
  case unregisterRelease c n =>
    cases h
    exact .drop c n hp

/-- Every step has one of the effects. -/
theorem step_effect {s s' : Gate Client Thread} {a : GateAction Client Thread}
    (h : s.step a = some s') : Effect s a.thread s' := by
  cases a with
  | advance t => exact advance_effect h
  | call t f =>
    simp only [Gate.step] at h
    split at h
    · rename_i hp
      cases h
      cases f <;>
        exact .goto _ (by simp [GateAction.thread, hp, Gate.enterCall, Counted])
          (by simp [Gate.enterCall, Holds]) (by simp [Gate.enterCall, Closing])
          (by simp [Gate.enterCall])
    · cases h
  | putClient t =>
    simp only [Gate.step] at h
    split at h
    · rename_i hp
      cases h
      refine .decrement _ (by simp [GateAction.thread, hp, Counted]) ?_
      split
      · exact .inr rfl
      · exact .inl rfl
    · cases h

namespace Effect

variable {s s' : Gate Client Thread} {t j : Thread} {c : Client} {n : Nat}

/-- The pointer and its registration change together: by a publication, by a
take-down, or not at all. -/
theorem registration (h : Effect s t s') :
    (s'.userClient = s.userClient ∧ s'.registration = s.registration) ∨
    (s.userClient = none ∧ s'.registration = s.registration + 1) ∨
    (s.userClient ≠ none ∧ s'.userClient = none ∧ s'.registration = s.registration) := by
  cases h with
  | publish c hp hc => exact .inr (.inl ⟨hc, rfl⟩)
  | takeDown c hp hc => exact .inr (.inr ⟨by simp [hc], rfl, rfl⟩)
  | _ => exact .inl ⟨rfl, rfl⟩

/-- A thread comes to hold a registration in its first swap only, which finds
that registration published. -/
theorem holds (h : Effect s t s') (hj : (s'.pc j).Holds n) :
    (s.pc j).Holds n ∨ (n = s.registration ∧ s.userClient ≠ none) := by
  cases h with
  | quiet p pending retain hcounted hholds =>
    exact .inl (of_update (P := fun p => Holds p n) hj (hholds n))
  | decrement p hcounted hp =>
    refine .inl (of_update (P := fun p => Holds p n) hj fun hpn => ?_)
    rcases hp with rfl | rfl <;> exact hpn.elim
  | obtain c hp hc =>
    by_cases hn : n = s.registration
    · exact .inr ⟨hn, by simp [hc]⟩
    · exact .inl (of_update (P := fun p => Holds p n) hj fun hpn => absurd hpn.symm hn)
  | _ => exact .inl (of_update (P := fun p => Holds p n) hj fun hpn => hpn.elim)

/-- A thread comes to close a registration in the take-down only. -/
theorem closing (h : Effect s t s') (hj : (s'.pc j).Closing n) :
    (s.pc j).Closing n ∨
      (n = s.registration ∧ s.userClient ≠ none ∧ s'.userClient = none ∧
        ∀ i, i ≠ j → s'.pc i = s.pc i) := by
  cases h with
  | quiet p pending retain hcounted hholds hclosing =>
    exact .inl (of_update (P := fun p => Closing p n) hj (hclosing n))
  | decrement p hcounted hp =>
    refine .inl (of_update (P := fun p => Closing p n) hj fun hpn => ?_)
    rcases hp with rfl | rfl <;> exact hpn.elim
  | takeDown c hp hc =>
    by_cases hjt : j = t
    · subst hjt
      simp only [Gate.goto, Function.update_self, Closing] at hj
      exact .inr ⟨hj.symm, by simp [hc], rfl, fun i hi => Function.update_of_ne hi _ _⟩
    · simp only [Gate.goto, Function.update_of_ne hjt] at hj
      exact .inl hj
  | zeroTest c m hp =>
    refine .inl (of_update (P := fun p => Closing p n) hj fun hpn => ?_)
    rw [hp]
    exact hpn
  | _ => exact .inl (of_update (P := fun p => Closing p n) hj fun hpn => hpn.elim)

/-- A thread comes to its release by the zero test only. -/
theorem release (h : Effect s t s') (hj : (s'.pc j).Releasing c n) :
    (s.pc j).Releasing c n ∨
      (s.clientInvocations = 0 ∧
        s'.pc = Function.update s.pc t (.unregisterRelease c n)) := by
  cases h with
  | quiet p pending retain hcounted hholds hclosing hrelease =>
    exact .inl (of_update (P := fun p => Releasing p c n) hj fun hpn => absurd hpn (hrelease c n))
  | decrement p hcounted hp =>
    refine .inl (of_update (P := fun p => Releasing p c n) hj fun hpn => ?_)
    rcases hp with rfl | rfl <;> cases hpn
  | zeroTest c' m hp hzero =>
    by_cases hjt : j = t
    · subst hjt
      simp only [Gate.goto, Function.update_self, Releasing] at hj
      exact .inr ⟨hzero, by simp [Gate.goto, hj]⟩
    · simp only [Gate.goto, Function.update_of_ne hjt] at hj
      exact .inl hj
  | _ => exact .inl (of_update (P := fun p => Releasing p c n) hj fun hpn => by cases hpn)

/-- A reference is dropped by the release of a closing thread only, and that
thread then closes nothing any more. -/
theorem dropped (h : Effect s t s') :
    s'.dropped = s.dropped ∨
    ∃ n, (s.pc t).Closing n ∧ s'.dropped = Function.update s.dropped n (s.dropped n + 1) ∧
      (∀ m, ¬ (s'.pc t).Closing m) ∧ s'.registration = s.registration ∧
      s'.userClient = s.userClient := by
  cases h with
  | drop c n hp =>
    refine .inr ⟨n, by simp [hp, Closing], rfl, fun m => ?_, rfl, rfl⟩
    simp [Gate.goto, Closing]
  | _ => exact .inl rfl

/-- The counter stays the number of the threads that are counted. -/
theorem counted (h : Effect s t s')
    (hcard : HasCard (fun t => (s.pc t).Counted) s.clientInvocations) :
    HasCard (fun t => (s'.pc t).Counted) s'.clientInvocations := by
  cases h with
  | quiet p pending retain hcounted => exact hcard.update_same hcounted
  | increment hp => exact hcard.update_enter (by simp [hp, Counted]) trivial
  | decrement p hcounted hp =>
    exact hcard.update_leave hcounted (by rcases hp with rfl | rfl <;> exact id)
  | obtain c hp hc => exact hcard.update_same (by simp [hp, Counted])
  | publish c hp hc => exact hcard.update_same (by simp [hp, Counted])
  | takeDown c hp hc => exact hcard.update_same (by simp [hp, Counted])
  | zeroTest c n hp => exact hcard.update_same (by simp [hp, Counted])
  | drop c n hp => exact hcard.update_same (by simp [hp, Counted])

end Effect

-- ---------------------------------------------------------------------------
-- The invariant
-- ---------------------------------------------------------------------------

/-- Each effect keeps the invariant. -/
theorem GateInv.step {s s' : Gate Client Thread} {t : Thread} (hs : GateInv s)
    (h : Effect s t s') : GateInv s' where
  counted := h.counted hs.counted
  closing_ended := by
    intro u n hu
    rcases h.closing hu with hold | ⟨rfl, hpub, hnone, -⟩
    · obtain ⟨hle, hne⟩ := hs.closing_ended u n hold
      rcases h.registration with ⟨hc, hr⟩ | ⟨hc, hr⟩ | ⟨hc, hc', hr⟩
      · rw [hc, hr]
        exact ⟨hle, hne⟩
      · exact ⟨by omega, fun _ => by omega⟩
      · exact ⟨by omega, fun hsome => absurd hc' hsome⟩
    · rcases h.registration with ⟨hc, -⟩ | ⟨hc, -⟩ | ⟨-, -, hr⟩
      · exact absurd (hc ▸ hnone) hpub
      · exact absurd hc hpub
      · exact ⟨by omega, fun hsome => absurd hnone hsome⟩
  closing_unique := by
    -- a take-down finds the pointer set, so nobody closes its registration yet
    have hfresh : ∀ u, s.userClient ≠ none → ¬ (s.pc u).Closing s.registration :=
      fun u hpub hu => (hs.closing_ended u _ hu).2 hpub rfl
    intro u u' n hu hu'
    rcases h.closing hu with hold | ⟨rfl, hpub, -, hother⟩
    · rcases h.closing hu' with hold' | ⟨rfl, hpub, -, -⟩
      · exact hs.closing_unique u u' n hold hold'
      · exact absurd hold (hfresh u hpub)
    · by_cases huu : u' = u
      · exact huu.symm
      · rw [hother u' huu] at hu'
        exact absurd hu' (hfresh u' hpub)
  closing_undropped := by
    intro u n hu
    have hold : s.dropped n = 0 := by
      rcases h.closing hu with hold | ⟨rfl, hpub, -, -⟩
      · exact hs.closing_undropped u n hold
      · exact hs.current_undropped hpub
    rcases h.dropped with heq | ⟨m, hm, heq, hdone, -, hclient⟩
    · rw [heq, hold]
    · by_cases hnm : n = m
      · -- the dropping thread was the only one closing `m`
        subst hnm
        rcases h.closing hu with holdu | ⟨rfl, hpub, hnone, -⟩
        · have hut := hs.closing_unique u t n holdu hm
          exact absurd (hut ▸ hu) (hdone n)
        · exact absurd (hclient ▸ hnone) hpub
      · rw [heq, Function.update_of_ne hnm, hold]
  current_undropped := by
    intro hpub
    have hold : s.dropped s'.registration = 0 := by
      rcases h.registration with ⟨hc, hr⟩ | ⟨hc, hr⟩ | ⟨hc, hc', hr⟩
      · rw [hr]
        exact hs.current_undropped (hc ▸ hpub)
      · exact hs.future_undropped _ (by omega)
      · exact absurd hc' hpub
    rcases h.dropped with heq | ⟨m, hm, heq, -, hr, hclient⟩
    · rw [heq, hold]
    · have hne : s'.registration ≠ m := by
        rw [hr]
        exact fun hmr => (hs.closing_ended t m hm).2 (hclient ▸ hpub) hmr.symm
      rw [heq, Function.update_of_ne hne, hold]
  future_undropped := by
    intro n hn
    have hreg : s.registration ≤ s'.registration := by
      rcases h.registration with ⟨-, hr⟩ | ⟨-, hr⟩ | ⟨-, -, hr⟩ <;> omega
    have hold := hs.future_undropped n (by omega)
    rcases h.dropped with heq | ⟨m, hm, heq, -, -, -⟩
    · rw [heq, hold]
    · have hne : n ≠ m := by
        have hle := (hs.closing_ended t m hm).1
        omega
      rw [heq, Function.update_of_ne hne, hold]
  dropped_le := by
    intro n
    rcases h.dropped with heq | ⟨m, hm, heq, -, -, -⟩
    · rw [heq]
      exact hs.dropped_le n
    · rw [heq]
      by_cases hnm : n = m
      · subst hnm
        rw [Function.update_self, hs.closing_undropped t n hm]
      · rw [Function.update_of_ne hnm]
        exact hs.dropped_le n
  release_unused := by
    intro u c n hu v hv
    rcases h.release hu with hold | ⟨hzero, hpc⟩
    · rcases h.holds hv with hheld | ⟨rfl, hpub⟩
      · exact hs.release_unused u c n hold v hheld
      · -- the registration has ended, so the pointer shows another one
        exact (hs.closing_ended u _ (by rw [hold]; rfl)).2 hpub rfl
    · -- whoever holds a registration is counted, and nobody is
      have hnobody := hs.counted.eq_zero_iff.mp hzero v
      rw [hpc] at hv
      exact hnobody (of_update (P := fun p => Holds p n) hv fun hrel => hrel.elim).counted

/-- The invariant holds in every state of the gate. -/
theorem GateInv.reachable {s : Gate Client Thread} (h : Reachable (gateSystem Client Thread) s) :
    GateInv s := by
  refine h.invariant ?_ ?_
  · rintro s ⟨retainCount, rfl⟩
    exact .initial retainCount
  · intro s a s' hs _ hstep
    exact hs.step (step_effect hstep)

/-- The reference of registration `n` is dropped when no thread that obtained
the client through `n` is still before its `putClient`, and it is dropped once
at most; `clientInvocations` counts the threads between their increment and
their decrement. -/
theorem unregister_drops_unused {s : Gate Client Thread}
    (h : Reachable (gateSystem Client Thread) s) :
    (∀ u c n, (s.pc u).Releasing c n → ∀ t c', ¬ (s.pc t).Obtained c' n) ∧
    (∀ n, s.dropped n ≤ 1) ∧ (∀ n, s.registration < n → s.dropped n = 0) ∧
    HasCard (fun t => (s.pc t).Counted) s.clientInvocations ∧ 0 ≤ s.clientInvocations := by
  have hs := GateInv.reachable h
  refine ⟨fun u c n hu t c' ht => ?_, hs.dropped_le, hs.future_undropped, hs.counted,
    hs.counted.nonneg⟩
  exact hs.release_unused u c n hu t (by rw [ht]; rfl)

/-- Thread 0 registers client 7, thread 1 obtains it, thread 2 takes it down
and finds the counter zero once thread 1 has put the client back. -/
def takeDownWhileInUse : List (GateAction Nat Nat) :=
  [.call 0 (.registerUserClient 7), .advance 0, .advance 0, .advance 0,
   .call 1 .getClient, .advance 1, .advance 1, .advance 1, .advance 1, .advance 1, .advance 1,
   .call 2 (.unregisterUserClient 7), .advance 2, .advance 2, .advance 2, .advance 2, .advance 2,
   .putClient 1, .advance 2, .advance 2]

/-- Thread 2 comes to its release when thread 1 has put the client. -/
theorem unregister_drops_unused_run :
    ∃ s, exec (gateSystem Nat Nat) (Gate.initial fun _ => 1) takeDownWhileInUse = some s ∧
      (s.pc 2).Releasing 7 1 ∧ (∀ t c', ¬ (s.pc t).Obtained c' 1) ∧ s.dropped 1 ≤ 1 := by
  refine ⟨_, rfl, rfl, ?_⟩
  have h := unregister_drops_unused
    (ReachableBy.exec (.init ⟨fun _ => 1, rfl⟩) takeDownWhileInUse rfl)
  exact ⟨h.1 2 7 1 rfl, h.2.1 1⟩

end VfsRedirector.Client
