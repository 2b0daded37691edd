import Mathlib.Data.Fintype.Basic
import VfsRedirector.VNodeHook.Accounting

/-!
# VNodeHook: when a vector is given back

In a run whose steps all meet `Counted`, `QvrUnHookVnodeVop` takes out the entry
whose counter it has seen at zero, and that entry counts nothing (`removes_seen`).
Where in addition every vnode that is counted is recorded (`Recorded`), the counter
of an entry is the number of the vnodes that are recorded for its vector, and the
vector has its original functions exactly while there are none (`counters_track`).

Neither holds in every run: a vnode that is hooked while its vector has an entry is
counted and not recorded (`counters_track_fails`); and a thread that has brought the
counter to zero and waits for the lock takes out whatever entry the vector has by
then (`removes_seen_fails`).

## Results

* `CounterInv.step` — the surplus in a run.
* `removes_seen` — in a run that meets `Counted` an entry is taken out by a thread that has
  seen its counter at 0.
* `counters_track` — in a run that meets `Recorded`, while nobody hooks or unhooks, the
  counters are the numbers of recorded vnodes.
-/

namespace VfsRedirector.VNodeHook

open Library HookPc

variable {Thread Vnode OpVec : Type}

/-- The hooks, and the entry whose counter a thread has last seen at zero. -/
structure Watched (Thread Vnode OpVec : Type) where
  hooks : Hooks Thread Vnode OpVec
  seen : Thread → Option Nat

/-- A call for a vnode goes by the vector of the vnode. -/
def HookAction.Own (vOp : Vnode → OpVec) : HookAction Thread Vnode OpVec → Prop
  | .hook _ v _ | .unhook _ v | .getOriginal _ v _ => v.vOp = vOp v.vnode
  | .advance _ _ => True

instance (vOp : Vnode → OpVec) [DecidableEq OpVec] (a : HookAction Thread Vnode OpVec) :
    Decidable (a.Own vOp) :=
  match a with
  | .hook .. | .unhook .. | .getOriginal .. => inferInstanceAs (Decidable (_ = _))
  | .advance .. => inferInstanceAs (Decidable True)

/-- The entry whose counter the thread has just seen at zero. -/
def HookPc.dropped? : HookPc Vnode OpVec → Option Nat
  | .unhookDrop _ e => some e
  | _ => none

/-- `QvrHookVnodeVop` and `QvrUnHookVnodeVop` are in progress. -/
def HookPc.InCall : HookPc Vnode OpVec → Prop
  | .idle | .getRetrieve .. | .getRetrieveAgain .. | .getRead .. | .getRelease .. | .getReturn .. =>
    False
  | _ => True

namespace HookPc

variable {p : HookPc Vnode OpVec} {v : VnodeT Vnode OpVec} {w : OpVec}

/-- A thread that counts a vnode is in a call. -/
theorem inCall_of_counts (h : p.counts? = some v) : p.InCall := by
  cases p <;> trivial

/-- A thread with the lock is in a call. -/
theorem Exclusive.inCall (h : p.Exclusive) : p.InCall := by
  cases p <;> trivial

/-- A thread that is to take an entry out is in a call. -/
theorem Removing.inCall (h : p.Removing w) : p.InCall := by
  cases p <;> trivial

end HookPc

-- ---------------------------------------------------------------------------
-- Guards
-- ---------------------------------------------------------------------------

/-- A thread that counts a vnode goes on to record it, for the first time. -/
def RecordedAt [DecidableEq Vnode] (s : Hooks Thread Vnode OpVec) (alloc : Option Nat) :
    HookPc Vnode OpVec → Prop
  | .hookRetrieve v => s.sVnodeHooksHashTable v.vOp = none
  | .hookAddVnode v => alloc.isSome ∧ ¬ s.Records v.vnode
  | _ => True

/-- `Counted`, and every vnode that is counted is recorded then. -/
def Recorded [DecidableEq Vnode] (s : Hooks Thread Vnode OpVec) :
    HookAction Thread Vnode OpVec → Prop
  | .advance t alloc => CountedAt s (s.pc t) ∧ RecordedAt s alloc (s.pc t)
  | _ => True

/-- What records its vnodes counts them. -/
theorem Recorded.counted [DecidableEq Vnode] {s : Hooks Thread Vnode OpVec}
    {a : HookAction Thread Vnode OpVec}
    (h : Recorded s a) : Counted s a := by
  cases a with
  | advance t alloc => exact h.1
  | hook | unhook | getOriginal => trivial

instance [DecidableEq Vnode] (s : Hooks Thread Vnode OpVec) (x : Vnode) : Decidable (s.Records x) :=
  inferInstanceAs (Decidable (_ ≠ none))

instance [Fintype Thread] [DecidableEq Vnode] [DecidableEq OpVec] (s : Hooks Thread Vnode OpVec) :
    DecidablePred (CountedAt s)
  | .hookRetrieve _ => inferInstanceAs (Decidable (∀ _ ∈ _, _))
  | .hookRecheck .. => inferInstanceAs (Decidable ((∀ _ ∈ _, _) ∧ (_ → ∀ _, _)))
  | .unhookRemoveVnode .. => inferInstanceAs (Decidable (_ ∧ _))
  | .idle | .hookReleaseFound .. | .hookNewEntry .. | .hookLock .. | .hookLoop .. | .hookUnlock .. |
    .hookReleaseNew .. | .hookAddVnode .. | .unhookTest .. | .unhookRetrieve .. |
    .unhookDecrement .. | .unhookLock .. | .unhookCheck .. | .unhookDrop .. | .unhookRemove .. |
    .unhookLoop .. | .unhookUnlock .. | .unhookRelease .. | .getRetrieve .. |
    .getRetrieveAgain .. | .getRead .. | .getRelease .. | .getReturn .. =>
    inferInstanceAs (Decidable True)

instance [DecidableEq Vnode] (s : Hooks Thread Vnode OpVec) (alloc : Option Nat) :
    DecidablePred (RecordedAt s alloc)
  | .hookRetrieve v => inferInstanceAs (Decidable (s.sVnodeHooksHashTable v.vOp = none))
  | .hookAddVnode _ => inferInstanceAs (Decidable (_ ∧ _))
  | .idle | .hookReleaseFound .. | .hookNewEntry .. | .hookLock .. | .hookRecheck .. |
    .hookLoop .. | .hookUnlock .. | .hookReleaseNew .. | .unhookTest .. | .unhookRetrieve .. |
    .unhookRemoveVnode .. | .unhookDecrement .. | .unhookLock .. | .unhookCheck .. |
    .unhookDrop .. | .unhookRemove .. | .unhookLoop .. | .unhookUnlock .. | .unhookRelease .. |
    .getRetrieve .. | .getRetrieveAgain .. | .getRead .. | .getRelease .. | .getReturn .. =>
    inferInstanceAs (Decidable True)

instance [Fintype Thread] [DecidableEq Vnode] [DecidableEq OpVec] (s : Hooks Thread Vnode OpVec) :
    DecidablePred (Counted s)
  | .advance t _ => inferInstanceAs (Decidable (CountedAt s (s.pc t)))
  | .hook .. | .unhook .. | .getOriginal .. => inferInstanceAs (Decidable True)

instance [Fintype Thread] [DecidableEq Vnode] [DecidableEq OpVec] (s : Hooks Thread Vnode OpVec) :
    DecidablePred (Recorded s)
  | .advance .. => inferInstanceAs (Decidable (_ ∧ _))
  | .hook .. | .unhook .. | .getOriginal .. => inferInstanceAs (Decidable True)

-- ---------------------------------------------------------------------------
-- Runs
-- ---------------------------------------------------------------------------

section System

variable [DecidableEq Thread] [DecidableEq Vnode] [DecidableEq OpVec]

/-- A step that sees a counter at zero goes to where the entry is dropped. -/
def Watched.step (k : Kernel) (vOp : Vnode → OpVec) (s : Watched Thread Vnode OpVec)
    (a : HookAction Thread Vnode OpVec) : Option (Watched Thread Vnode OpVec) :=
  if a.Own vOp then
    (s.hooks.step k a).map fun hooks =>
      ⟨hooks, Function.update s.seen a.thread
        ((hooks.pc a.thread).dropped?.or (s.seen a.thread))⟩
  else none

/-- `hookSystem` for vnodes that keep their vectors. -/
def watchedSystem (k : Kernel) (initialOps : OpVec → Nat → Nat) (vOp : Vnode → OpVec) :
    System (Watched Thread Vnode OpVec) (HookAction Thread Vnode OpVec) where
  init s := s = ⟨.initial initialOps, fun _ => none⟩
  step := Watched.step k vOp

variable {k : Kernel} {initialOps : OpVec → Nat → Nat} {vOp : Vnode → OpVec}
  {s s' : Watched Thread Vnode OpVec} {a : HookAction Thread Vnode OpVec} {t u : Thread}
  {v : VnodeT Vnode OpVec} {w : OpVec} {e : Nat}

/-- A watched step is one of hooking, with the counter that the thread has seen. -/
theorem watched_step (h : s.step k vOp a = some s') :
    a.Own vOp ∧ s.hooks.step k a = some s'.hooks ∧ s'.seen = Function.update s.seen a.thread
      ((s'.hooks.pc a.thread).dropped?.or (s.seen a.thread)) := by
  rw [Watched.step] at h
  split at h
  · next hown =>
    obtain ⟨hooks, hstep, rfl⟩ := Option.map_eq_some_iff.mp h
    exact ⟨hown, hstep, rfl⟩
  · cases h

/-- Watched hooks are hooked as hooks are. -/
theorem hooks_reachable (h : Reachable (watchedSystem k initialOps vOp) s) :
    Reachable (hookSystem k initialOps) s.hooks := by
  refine h.map (fun s hs => ?_) fun s a s' _ _ hstep => .inr ⟨a, trivial, (watched_step hstep).2.1⟩
  rw [show s = ⟨.initial initialOps, fun _ => none⟩ from hs]
  rfl

/-- Every step keeps the counters within the surplus, given what it may add to it. -/
theorem CounterInv.step {P : Int → Prop} (h : CounterInv vOp P s.hooks) (hr : RefInv s.hooks)
    (hP : ∀ d, P d → 0 ≤ d) (hguard : Counted s.hooks a) (hstep : s.step k vOp a = some s')
    (hloss : ∀ t alloc, a = .advance t alloc →
      (∃ v, s.hooks.pc t = .hookRetrieve v ∧ s.hooks.sVnodeHooksHashTable v.vOp ≠ none) ∨
      (∃ v, s.hooks.pc t = .hookAddVnode v ∧ (alloc = none ∨ s.hooks.Records v.vnode)) →
      ∀ d, P d → P (d + 1)) : CounterInv vOp P s'.hooks := by
  obtain ⟨hown, hhooks, -⟩ := watched_step hstep
  cases a with
  -- only a step inside a call can change counters; the others start a call
  | advance t alloc => exact h.advance hr hhooks hguard hP (hloss t alloc rfl)
  | hook t v isRecycled =>
    obtain ⟨hidle, hs' | ⟨-, hs'⟩⟩ := step_hook hhooks <;> rw [hs']
    · refine h.start hidle trivial ?_
      rintro v (hv | hv) <;> cases hv
    · refine h.start hidle trivial ?_
      rintro v' (hv | hv) <;> cases hv
      exact hown
  | unhook t v =>
    obtain ⟨hidle, hs'⟩ := step_unhook hhooks
    rw [hs']
    refine h.start hidle trivial ?_
    rintro v' (hv | hv) <;> cases hv
    exact hown
  | getOriginal t v indx =>
    obtain ⟨hidle, hs'⟩ := step_getOriginal hhooks
    rw [hs']
    refine h.start hidle trivial ?_
    rintro v' (hv | hv) <;> cases hv

/-- In a run that counts its vnodes no counter is too small. -/
theorem counterInv_counted
    (h : ReachableBy (watchedSystem k initialOps vOp) (fun s a => Counted s.hooks a) s) :
    CounterInv vOp (fun d => 0 ≤ d) s.hooks := by
  refine h.invariant_of (I := fun s => CounterInv vOp (fun d => 0 ≤ d) s.hooks)
    (J := fun s => RefInv s.hooks)
    (fun s hs => RefInv.reachable (hooks_reachable hs.reachable))
    (fun s hs => ?_) fun s a s' hinv hr _ hguard hstep => ?_
  · rw [show s = ⟨.initial initialOps, fun _ => none⟩ from hs]
    exact .initial (Int.le_refl 0)
  · exact hinv.step hr (fun _ => id) hguard hstep fun _ _ _ _ d hd => by omega

/-- In a run that records them every counter is exact. -/
theorem counterInv_recorded
    (h : ReachableBy (watchedSystem k initialOps vOp) (fun s a => Recorded s.hooks a) s) :
    CounterInv vOp (fun d => d = 0) s.hooks := by
  refine h.invariant_of (I := fun s => CounterInv vOp (fun d => d = 0) s.hooks)
    (J := fun s => RefInv s.hooks)
    (fun s hs => RefInv.reachable (hooks_reachable hs.reachable))
    (fun s hs => ?_) fun s a s' hinv hr _ hguard hstep => ?_
  · rw [show s = ⟨.initial initialOps, fun _ => none⟩ from hs]
    exact .initial rfl
  · refine hinv.step hr (fun d hd => hd.ge) hguard.counted hstep ?_
    rintro t alloc rfl (⟨v, hp, hne⟩ | ⟨v, hp, hlost⟩)
    · rw [Recorded, hp] at hguard
      exact (hne hguard.2).elim
    · rw [Recorded, hp] at hguard
      obtain ⟨-, hkept⟩ := hguard
      obtain rfl | hrecord := hlost
      · cases hkept.1
      · exact (hkept.2 hrecord).elim

end System

-- ---------------------------------------------------------------------------
-- Samples
-- ---------------------------------------------------------------------------

namespace Schedule

def initialOps (w offset : Nat) : Nat := 100 * w + offset

/-- All vnodes have the vector 3. -/
def vOp (_ : Nat) : Nat := 3

def vnode (x : Nat) : VnodeT Nat Nat := ⟨x, 3, .vreg⟩

/-- The steps of a call that makes an entry, at the address. -/
def hooking {Thread : Type} (t : Thread) (address : Nat) : List (HookAction Thread Nat Nat) :=
  List.replicate 21 (.advance t (some address))

/-- The steps of a call that brings the counter to zero, until it waits for the lock. -/
def unhooking {Thread : Type} (t : Thread) : List (HookAction Thread Nat Nat) :=
  List.replicate 4 (.advance t none)

/-- From there until `RemoveEntry`. -/
def removing {Thread : Type} (t : Thread) : List (HookAction Thread Nat Nat) :=
  List.replicate 3 (.advance t none)

/-- One vnode is hooked, and another one while the vector has an entry. -/
def secondHooked : List (HookAction Unit Nat Nat) :=
  [.hook () (vnode 7) false] ++ hooking () 0 ++ [.hook () (vnode 8) false] ++
    List.replicate 2 (.advance () none)

end Schedule

-- ---------------------------------------------------------------------------
-- What is taken out
-- ---------------------------------------------------------------------------

section System

variable [DecidableEq Thread] [DecidableEq Vnode] [DecidableEq OpVec]
variable {k : Kernel} {initialOps : OpVec → Nat → Nat} {vOp : Vnode → OpVec}
  {s s' : Watched Thread Vnode OpVec} {a : HookAction Thread Vnode OpVec} {t u : Thread}
  {v : VnodeT Vnode OpVec} {w : OpVec} {e : Nat}

/-- What `RemoveEntry` takes out for a thread is the entry whose counter the thread has
seen at zero; its counter is zero, and it accounts for no vnode. -/
def RemovesSeen (vOp : Vnode → OpVec) (s : Watched Thread Vnode OpVec) : Prop :=
  ∀ t v e, s.hooks.pc t = .unhookRemove v → s.hooks.sVnodeHooksHashTable v.vOp = some e →
    s.seen t = some e ∧ s.hooks.counter e = 0 ∧ ∀ j, ¬ s.hooks.Accounted vOp v.vOp j

/-- What a thread that has seen the counter of an entry at zero will find. -/
def SeenInv (s : Watched Thread Vnode OpVec) : Prop :=
  (∀ t v e, s.hooks.pc t = .unhookDrop v e → s.seen t = some e) ∧
  ∀ t v e, s.hooks.pc t = .unhookRemove v → s.hooks.sVnodeHooksHashTable v.vOp = some e →
    s.seen t = some e

/-- While a thread is in the exclusive region, no other takes out or adds an entry. -/
theorem table_exclusive (hr : RefInv s.hooks) (hstep : s.hooks.step k a = some s'.hooks)
    (hu : u ≠ a.thread) (hexclusive : (s.hooks.pc u).Exclusive) :
    s'.hooks.sVnodeHooksHashTable = s.hooks.sVnodeHooksHashTable := by
  obtain ⟨alloc, hadv⟩ | ⟨p, -, -, hs'⟩ := step_cases hstep
  · obtain htable | ⟨v, e, hp, -⟩ | ⟨v, e, hp, -⟩ := advance_table hadv
    · exact htable
    all_goals exact (hu (hr.exclusive hexclusive (by rw [hp]; trivial))).elim
  · rw [hs']
    rfl

/-- A thread that takes an entry out has seen its counter at zero, also after the step. -/
theorem seenInv_step (h : SeenInv s) (hr : RefInv s.hooks)
    (hremoves : ∀ t w e, (s.hooks.pc t).removes? = some (w, e) →
      s.hooks.sVnodeHooksHashTable w = some e ∨ s.hooks.sVnodeHooksHashTable w = none)
    (hstep : s.step k vOp a = some s') : SeenInv s' := by
  obtain ⟨-, hhooks, hseen⟩ := watched_step hstep
  refine ⟨fun u v e hp => ?_, fun u v e hp he => ?_⟩
  · rcases eq_or_ne u a.thread with rfl | hu
    · rw [hseen, Function.update_self, hp]
      rfl
    · rw [hseen, Function.update_of_ne hu]
      rw [step_pc hhooks hu] at hp
      exact h.1 u v e hp
  · rcases eq_or_ne u a.thread with rfl | hu
    · obtain ⟨alloc, hadv⟩ | ⟨p, -, hstart, hs'⟩ := step_cases hhooks
      -- the thread goes on to remove the entry it looked at, which the table still has
      · obtain ⟨e', hp', -⟩ := advance_remove hadv hp
        rw [hseen, Function.update_self, hp]
        have htable : s'.hooks.sVnodeHooksHashTable = s.hooks.sVnodeHooksHashTable := by
          obtain htable | ⟨v, e₀, hp'', -⟩ | ⟨v, e₀, hp'', -⟩ := advance_table hadv
          · exact htable
          all_goals
            rw [hp'] at hp''
            cases hp''
        rw [htable] at he
        obtain he' | hnone := hremoves _ v.vOp e' (by rw [hp']; rfl)
        · rw [he, Option.some.injEq] at he'
          subst he'
          exact h.1 _ v e hp'
        · rw [hnone] at he
          cases he
      · rw [hs', show (s.hooks.goto a.thread p).pc a.thread = p from Function.update_self ..] at hp
        rw [hp] at hstart
        exact hstart.elim
    · rw [step_pc hhooks hu] at hp
      rw [table_exclusive hr hhooks hu (by rw [hp]; trivial)] at he
      rw [hseen, Function.update_of_ne hu]
      exact h.2 u v e hp he

/-- **An entry is taken out by a thread that has seen its counter at zero**, in every
run whose steps count as `Counted` asks. -/
theorem removes_seen
    (h : ReachableBy (watchedSystem k initialOps vOp) (fun s a => Counted s.hooks a) s) :
    RemovesSeen vOp s := by
  have hinv := counterInv_counted h
  have hseen : SeenInv s := by
    refine h.invariant_of (J := fun s => RefInv s.hooks ∧ CounterInv vOp (fun d => 0 ≤ d) s.hooks)
      (fun s hs => ⟨RefInv.reachable (hooks_reachable hs.reachable), counterInv_counted hs⟩)
      (fun s hs => ?_) fun s a s' hseen hJ _ _ hstep => seenInv_step hseen hJ.1 hJ.2.removes hstep
    rw [show s = ⟨.initial initialOps, fun _ => none⟩ from hs]
    exact ⟨fun t v e hp => (by cases hp), fun t v e hp => (by cases hp)⟩
  intro t v e hp he
  have hzero := hinv.remove t v e hp he
  refine ⟨hseen.2 t v e hp he, hzero, fun j hj => ?_⟩
  have hpos := hinv.pos (fun _ => id) hj
  rw [value_some he, hzero] at hpos
  exact absurd hpos (by decide)

end System

open Schedule in
/-- A vnode is hooked and unhooked. -/
theorem removes_seen_unhooked : ∃ s : Watched Unit Nat Nat,
    s.hooks.pc () = .unhookRemove (vnode 7) ∧ s.hooks.sVnodeHooksHashTable 3 = some 0 ∧
    RemovesSeen vOp s := by
  let actions : List (HookAction Unit Nat Nat) := [.hook () (vnode 7) false] ++ hooking () 0 ++
    [.unhook () (vnode 7)] ++
    unhooking () ++ removing ()
  have hallowed : allowed (watchedSystem .inOrder initialOps vOp)
      (fun s a => decide (Counted s.hooks a))
      (⟨.initial initialOps, fun _ => none⟩ : Watched Unit Nat Nat) actions = true := by
    decide +kernel
  have hrun : ((exec (watchedSystem .inOrder initialOps vOp)
      (⟨.initial initialOps, fun _ => none⟩ : Watched Unit Nat Nat) actions).any fun s =>
      s.hooks.pc () = .unhookRemove (vnode 7) ∧
        s.hooks.sVnodeHooksHashTable 3 = some 0) = true := by
    decide +kernel
  rw [Option.any_eq_true] at hrun
  obtain ⟨s, hexec, hfacts⟩ := hrun
  obtain ⟨hp, htable⟩ := of_decide_eq_true hfacts
  exact ⟨s, hp, htable, removes_seen (k := .inOrder) (ReachableBy.execBy
    (fun _ _ h => of_decide_eq_true h) (.init rfl) actions hallowed hexec)⟩

open Schedule in
/-- Thread 1 brings the counter to zero. Before it has the lock, thread 2 hooks a vnode
with the same entry, thread 3 unhooks it and takes out the entry, and thread 4 hooks a
vnode with a new one: thread 1 is going to take out that. -/
theorem removes_seen_fails : ¬ ∀ s : Watched (Fin 5) Nat Nat,
    Reachable (watchedSystem .inOrder initialOps vOp) s → RemovesSeen vOp s := by
  intro h
  let actions : List (HookAction (Fin 5) Nat Nat) :=
    [.hook 0 (vnode 7) false, .advance 0 none, .hook 2 (vnode 8) false, .advance 2 none] ++
    List.replicate 20 (.advance 0 (some 0)) ++ [.unhook 1 (vnode 7)] ++ unhooking 1 ++
    List.replicate 6 (.advance 2 (some 1)) ++ [.unhook 3 (vnode 8)] ++ unhooking 3 ++ removing 3 ++
    List.replicate 17 (.advance 3 none) ++ [.hook 4 (vnode 9) false] ++ hooking 4 1 ++ removing 1
  have hrun : ((exec (watchedSystem .inOrder initialOps vOp)
      (⟨.initial initialOps, fun _ => none⟩ : Watched (Fin 5) Nat Nat) actions).any fun s =>
      s.hooks.pc 1 = .unhookRemove (vnode 7) ∧ s.hooks.sVnodeHooksHashTable 3 = some 1 ∧
      s.seen 1 = some 0 ∧ s.hooks.counter 1 = 1 ∧ s.hooks.Records 9) = true := by decide +kernel
  rw [Option.any_eq_true] at hrun
  obtain ⟨s, hexec, hfacts⟩ := hrun
  obtain ⟨hp, htable, hseen, -, -⟩ := of_decide_eq_true hfacts
  have hremoves := (h s (ReachableBy.exec (.init rfl) actions hexec) 1 _ 1 hp htable).1
  rw [hseen] at hremoves
  cases hremoves

-- ---------------------------------------------------------------------------
-- What is counted
-- ---------------------------------------------------------------------------

section System

variable [DecidableEq Thread] [DecidableEq Vnode] [DecidableEq OpVec]
variable {k : Kernel} {initialOps : OpVec → Nat → Nat} {vOp : Vnode → OpVec}
  {s : Watched Thread Vnode OpVec}

/-- The counter of an entry is the number of the vnodes recorded for its vector, and a
vector has its original functions exactly while no vnode is recorded for it. -/
def CountersTrack (initialOps : OpVec → Nat → Nat) (vOp : Vnode → OpVec)
    (s : Hooks Thread Vnode OpVec) : Prop :=
  (∀ w e, s.sVnodeHooksHashTable w = some e →
    HasCard (fun x => s.Records x ∧ vOp x = w) (s.counter e).toInt) ∧
  ∀ w, (∀ offset, s.slots w offset = .fsd (initialOps w offset)) ↔
    ∀ x, s.Records x → vOp x ≠ w

/-- **Counters track the recorded vnodes** whenever no vnode is being hooked or unhooked,
in every run whose steps all record what they count. -/
theorem counters_track
    (h : ReachableBy (watchedSystem k initialOps vOp) (fun s a => Recorded s.hooks a) s)
    (hquiet : ∀ t, ¬ (s.hooks.pc t).InCall) : CountersTrack initialOps vOp s.hooks := by
  have hinv := counterInv_recorded h
  have hreach := hooks_reachable h.reachable
  have hr := RefInv.reachable hreach
  -- nobody is in a call, so the surplus is 0 and the entry counts what is recorded
  have hcount : ∀ w, HasCard (fun x => s.hooks.Records x ∧ vOp x = w) (s.hooks.value w) := by
    intro w
    obtain ⟨d, hd, hcard⟩ := hinv.surplus w
    rw [hd, sub_zero] at hcard
    refine hcard.left fun t ht => ?_
    obtain ⟨v, hv, -⟩ := ht
    exact hquiet t (inCall_of_counts hv)
  refine ⟨fun w e he => ?_, fun w => ?_⟩
  · have hw := hcount w
    rwa [value_some he] at hw
  -- the lock is free, so the slots are all hooked or all restored
  · have hlock : s.hooks.lock = none := by
      rw [Option.eq_none_iff_forall_ne_some]
      intro t ht
      exact hquiet t ((hr.lock_iff t).mpr ht).inCall
    obtain ⟨hhooked, hrestored⟩ := (VectorInv.reachable hreach).unlocked hr hlock w
    constructor
    · intro hslots x hx hw
      have hpos := (hcount w).pos ⟨hx, hw⟩
      cases he : s.hooks.sVnodeHooksHashTable w with
      | none =>
        rw [value_none he] at hpos
        omega
      | some e =>
        have hlookup := hhooked e he ⟨.lookup, .qvrVnopLookupHookEx2⟩ (by decide)
        rw [hslots] at hlookup
        cases hlookup
    · intro hnone
      refine hrestored ?_
      rw [Option.eq_none_iff_forall_ne_some]
      intro e he
      -- an entry that counts nothing would have somebody removing it
      have hzero : s.hooks.counter e = 0 := by
        have hw := (hcount w).eq_zero_iff.mpr fun x hx => hnone x hx.1 hx.2
        rw [value_some he] at hw
        exact Int32.toInt_inj.mp hw
      obtain ⟨t, ht⟩ := hinv.zero w e he hzero
      exact hquiet t ht.inCall

end System

open Schedule in
/-- A vnode is hooked. -/
theorem counters_track_hooked : ∃ s : Watched Unit Nat Nat, s.hooks.Records 7 ∧
    CountersTrack initialOps vOp s.hooks := by
  have hallowed : allowed (watchedSystem .inOrder initialOps vOp)
      (fun s a => decide (Recorded s.hooks a))
      (⟨.initial initialOps, fun _ => none⟩ : Watched Unit Nat Nat)
      ([.hook () (vnode 7) false] ++ hooking () 0) = true := by decide +kernel
  have hrun : ((exec (watchedSystem .inOrder initialOps vOp)
      (⟨.initial initialOps, fun _ => none⟩ : Watched Unit Nat Nat)
      ([.hook () (vnode 7) false] ++ hooking () 0)).any fun s =>
      s.hooks.pc () = .idle ∧ s.hooks.Records 7) = true := by decide +kernel
  rw [Option.any_eq_true] at hrun
  obtain ⟨s, hexec, hfacts⟩ := hrun
  obtain ⟨hp, hrecords⟩ := of_decide_eq_true hfacts
  refine ⟨s, hrecords, counters_track (k := .inOrder) (ReachableBy.execBy
    (fun _ _ h => of_decide_eq_true h) (.init rfl) _ hallowed hexec) fun _ => ?_⟩
  rw [hp]
  exact id

open Schedule in
/-- The vector is counted for two vnodes, of which only the first is recorded. -/
theorem counters_track_fails : ¬ ∀ s : Watched Unit Nat Nat,
    Reachable (watchedSystem .inOrder initialOps vOp) s → (∀ t, ¬ (s.hooks.pc t).InCall) →
      CountersTrack initialOps vOp s.hooks := by
  intro h
  have hrun : ((exec (watchedSystem .inOrder initialOps vOp)
      (⟨.initial initialOps, fun _ => none⟩ : Watched Unit Nat Nat) secondHooked).any fun s =>
      s.hooks.pc () = .idle ∧ s.hooks.sVnodeHooksHashTable 3 = some 0 ∧ s.hooks.counter 0 = 2 ∧
      s.hooks.instanceForHookedVnodes.entries = [(7, 7)]) = true := by decide +kernel
  rw [Option.any_eq_true] at hrun
  obtain ⟨s, hexec, hfacts⟩ := hrun
  obtain ⟨hp, htable, hcounter, hvnodes⟩ := of_decide_eq_true hfacts
  have htrack := (h s (ReachableBy.exec (.init rfl) _ hexec) (fun _ => by rw [hp]; exact id)).1
    3 0 htable
  rw [hcounter] at htrack
  have hone : HasCard (fun x => s.hooks.Records x ∧ vOp x = 3) 1 := by
    refine ⟨{7}, fun x => ?_, rfl⟩
    simp [Hooks.Records, DataMap.getDataByKey, hvnodes, DataMap.findEntryByKey, vOp, eq_comm]
  exact absurd (htrack.unique hone) (by decide)

end VfsRedirector.VNodeHook
