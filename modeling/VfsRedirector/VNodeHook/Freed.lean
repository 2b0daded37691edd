import VfsRedirector.VNodeHook.Tracked

/-!
# VNodeHook: when the entries are freed

`OSObject` frees what the last reference is taken from, and an address may then get
another `QvrVnodeHookEntry`. `Placed` numbers the entries that are made at an address
and counts how often each of them is freed.

The `retainCount` of an entry is one for the table plus the references of the threads
(`EntriesBalanced.counted`); what a thread reads or writes is an entry that is not freed
(`EntriesBalanced.accessed`); and an entry is freed once, by the step that leaves nobody with a
reference to it (`EntriesBalanced.leaves`), so that it is freed when it is out of the table and
no call is in progress (`EntriesBalanced.quiet`).

## Results

* `step_counts` — a step makes an entry, frees one, or leaves it.
* `PlacedInv.step` — an entry is freed at most once, and only one that was made.
* `entries_balanced` — every entry is freed once, when nobody refers to it.
-/

namespace VfsRedirector.VNodeHook

open Library HookPc

variable {Thread Vnode OpVec : Type}

/-- The entry is in the table. -/
def Hooks.InTable (s : Hooks Thread Vnode OpVec) (e : Nat) : Prop :=
  ∃ w, s.sVnodeHooksHashTable w = some e

/-- The entry is one that the next operation of the thread may read or write. -/
def Hooks.Accesses (s : Hooks Thread Vnode OpVec) (t : Thread) (e : Nat) : Prop :=
  match s.pc t with
  | .hookRetrieve v | .unhookRetrieve v | .getRetrieve v _ | .getRetrieveAgain v _
  | .unhookRemove v => s.sVnodeHooksHashTable v.vOp = some e
  | .hookRecheck v newEntry => s.sVnodeHooksHashTable v.vOp = some e ∨ newEntry = e
  | p => p.holds? = some e

/-- The entry that the next operation of a thread releases. -/
def HookPc.releases? : HookPc Vnode OpVec → Option Nat
  | .hookReleaseFound _ e | .hookReleaseNew _ e _ | .unhookDrop _ e | .unhookRelease e
  | .getRelease _ _ e _ => some e
  | _ => none

/-- The entry that the next operation of a thread makes. -/
def HookPc.makes? : HookPc Vnode OpVec → Option Nat → Option Nat
  | .hookNewEntry _, alloc => alloc
  | _, _ => none

/-- A step makes an entry at the address. -/
def Hooks.Makes (s : Hooks Thread Vnode OpVec) (e : Nat) : HookAction Thread Vnode OpVec → Prop
  | .advance t alloc => (s.pc t).makes? alloc = some e
  | .hook .. | .unhook .. | .getOriginal .. => False

/-- A step takes the last reference from the entry at the address. -/
def Hooks.Frees (s : Hooks Thread Vnode OpVec) (e : Nat) : HookAction Thread Vnode OpVec → Prop
  | .advance t _ => (s.pc t).releases? = some e ∧ (s.entries e).retainCount = 1
  | .hook .. | .unhook .. | .getOriginal .. => False

instance (s : Hooks Thread Vnode OpVec) (e : Nat) (a : HookAction Thread Vnode OpVec) :
    Decidable (s.Makes e a) :=
  match a with
  | .advance .. => inferInstanceAs (Decidable (_ = _))
  | .hook .. | .unhook .. | .getOriginal .. => inferInstanceAs (Decidable False)

instance (s : Hooks Thread Vnode OpVec) (e : Nat) (a : HookAction Thread Vnode OpVec) :
    Decidable (s.Frees e a) :=
  match a with
  | .advance .. => inferInstanceAs (Decidable (_ ∧ _))
  | .hook .. | .unhook .. | .getOriginal .. => inferInstanceAs (Decidable False)

/-- The hooks, how many entries have been made at an address, and how often each of
these has been freed. -/
structure Placed (Thread Vnode OpVec : Type) where
  hooks : Hooks Thread Vnode OpVec
  made : Nat → Nat
  freed : Nat → Nat → Nat

section References

variable {s : Hooks Thread Vnode OpVec} {t : Thread} {e : Nat}

/-- An entry that a thread holds has a reference. -/
theorem RefInv.counts_pos_of_holds (hs : RefInv s) (h : (s.pc t).holds? = some e) :
    0 < s.counts e := by
  have hr : s.refs (.inl t) = some e := h
  exact (hs.counted e).pos hr

/-- An entry of the table has a reference. -/
theorem RefInv.counts_pos_of_table (hs : RefInv s) (h : s.InTable e) : 0 < s.counts e := by
  obtain ⟨w, hw⟩ := h
  have hr : s.refs (.inr w) = some e := hw
  exact (hs.counted e).pos hr

/-- An entry that is read or written is in the table, or the thread has a reference. -/
theorem Hooks.Accesses.referred (h : s.Accesses t e) :
    (s.pc t).holds? = some e ∨ s.InTable e := by
  unfold Hooks.Accesses at h
  split at h
  case h_6 newEntry hp =>
    rw [hp]
    obtain h | rfl := h
    · exact .inr ⟨_, h⟩
    · exact .inl rfl
  case h_7 => exact .inl h
  all_goals exact .inr ⟨_, h⟩

/-- The references to an entry that the table does not have, or has for one vector. -/
theorem RefInv.held (hs : RefInv s)
    (hinjective : ∀ w w', s.sVnodeHooksHashTable w = some e →
      s.sVnodeHooksHashTable w' = some e → w = w') :
    ∃ held : Int, HasCard (fun t => (s.pc t).holds? = some e) held ∧
      (s.InTable e → s.counts e = 1 + held) ∧ (¬ s.InTable e → s.counts e = held) := by
  by_cases htable : s.InTable e
  · obtain ⟨w, hw⟩ := htable
    have hr : s.refs (.inr w) = some e := hw
    have hleave : HasCard (fun r => r ≠ .inr w ∧ s.refs r = some e) (s.counts e - 1) :=
      (hs.counted e).leave hr fun r => Iff.rfl
    have hthreads := hleave.left fun w' h => h.1 (congrArg Sum.inr (hinjective w' w h.2 hw))
    refine ⟨s.counts e - 1, hthreads.congr fun t => by simp, fun _ => by omega, fun hnot => ?_⟩
    exact (hnot ⟨w, hw⟩).elim
  · refine ⟨s.counts e, ?_, fun hin => (htable hin).elim, fun _ => rfl⟩
    exact (hs.counted e).left fun w hw => htable ⟨w, hw⟩

end References

section System

variable [DecidableEq Thread] [DecidableEq Vnode] [DecidableEq OpVec]

/-- What is freed at an address is the entry that has been made last. -/
def Placed.step (k : Kernel) (s : Placed Thread Vnode OpVec) (a : HookAction Thread Vnode OpVec) :
    Option (Placed Thread Vnode OpVec) :=
  (s.hooks.step k a).map fun hooks =>
    { hooks
      made := fun e => if s.hooks.Makes e a then s.made e + 1 else s.made e
      freed := fun e i =>
        if s.hooks.Frees e a ∧ i + 1 = s.made e then s.freed e i + 1 else s.freed e i }

/-- `hookSystem` with the entries numbered. -/
def placedSystem (k : Kernel) (initialOps : OpVec → Nat → Nat) :
    System (Placed Thread Vnode OpVec) (HookAction Thread Vnode OpVec) where
  init s := s = ⟨.initial initialOps, fun _ => 0, fun _ _ => 0⟩
  step := Placed.step k

variable {k : Kernel} {initialOps : OpVec → Nat → Nat} {s s' : Placed Thread Vnode OpVec}
  {a : HookAction Thread Vnode OpVec} {t : Thread} {alloc : Option Nat} {e i : Nat}

/-- A step of the placed entries is one of hooking, with what it makes and frees. -/
theorem placed_step (h : s.step k a = some s') :
    s.hooks.step k a = some s'.hooks ∧
    (∀ e, s'.made e = if s.hooks.Makes e a then s.made e + 1 else s.made e) ∧
    ∀ e i, s'.freed e i =
      if s.hooks.Frees e a ∧ i + 1 = s.made e then s.freed e i + 1 else s.freed e i := by
  rw [Placed.step] at h
  obtain ⟨hooks, hstep, rfl⟩ := Option.map_eq_some_iff.mp h
  exact ⟨hstep, fun _ => rfl, fun _ _ => rfl⟩

/-- Placed entries are hooked as entries are. -/
theorem placed_hooks (h : Reachable (placedSystem k initialOps) s) :
    Reachable (hookSystem k initialOps) s.hooks := by
  refine h.map (fun s hs => ?_) fun s a s' _ _ hstep => .inr ⟨a, trivial, (placed_step hstep).1⟩
  rw [show s = ⟨.initial initialOps, fun _ => 0, fun _ _ => 0⟩ from hs]
  rfl

-- ---------------------------------------------------------------------------
-- What a step does to the count of an entry
-- ---------------------------------------------------------------------------

/-- A step leaves the counts alone; it makes an entry; it takes from an entry the
reference that the thread has; or it adds to an entry that the thread or the table has a
reference to. -/
theorem advance_counts {s s' : Hooks Thread Vnode OpVec} (h : s.advance k t alloc = some s') :
    ((s.pc t).makes? alloc = none ∧ (s.pc t).releases? = none ∧ s'.counts = s.counts) ∨
    (∃ e, (s.pc t).makes? alloc = some e ∧ (s.pc t).releases? = none ∧ s.counts e = 0 ∧
      s'.counts = Function.update s.counts e 1) ∨
    (∃ e, (s.pc t).makes? alloc = none ∧ (s.pc t).releases? = some e ∧
      (s.pc t).holds? = some e ∧ s'.counts = Function.update s.counts e (s.counts e - 1)) ∨
    (∃ e, (s.pc t).makes? alloc = none ∧ (s.pc t).releases? = none ∧
      ((s.pc t).holds? = some e ∨ s.InTable e) ∧
      s'.counts = Function.update s.counts e (s.counts e + 1)) := by
  revert h
  fun_cases Hooks.advance k s t alloc <;> intro h <;> cases h
  all_goals simp_all [Hooks.goto, Hooks.modifyEntry, Hooks.counts_eq, releases?, makes?, holds?,
    update_retainCount, QvrVnodeHookEntry.retain, QvrVnodeHookEntry.release,
    QvrVnodeHookEntry.newEntry, QvrVnodeHookEntry.incrementVnodeCounter,
    QvrVnodeHookEntry.decrementVnodeCounter]
  -- a retrieved entry is found in the table
  all_goals exact ⟨_, ⟨_, ‹_›⟩, rfl⟩

/-- A step makes an entry where nobody has a reference; it frees one that has a single
reference; or whether there are references to an entry stays as it is. -/
theorem step_counts {s s' : Hooks Thread Vnode OpVec} (hs : RefInv s)
    (h : s.step k a = some s') (e : Nat) :
    (s.Makes e a ∧ ¬ s.Frees e a ∧ s.counts e = 0 ∧ s'.counts e = 1) ∨
    (¬ s.Makes e a ∧ s.Frees e a ∧ s.counts e = 1 ∧ s'.counts e = 0) ∨
    (¬ s.Makes e a ∧ ¬ s.Frees e a ∧ (s'.counts e = 0 ↔ s.counts e = 0)) := by
  -- the start of a call leaves every count
  have hstart : ∀ p, s' = s.goto a.thread p → s'.counts e = s.counts e := by
    rintro p rfl
    rfl
  cases a with
  | hook t v isRecycled =>
    obtain ⟨-, hs' | ⟨-, hs'⟩⟩ := step_hook h
    · exact .inr (.inr ⟨id, id, by rw [hstart _ hs']⟩)
    · exact .inr (.inr ⟨id, id, by rw [hstart _ hs']⟩)
  | unhook t v => exact .inr (.inr ⟨id, id, by rw [hstart _ (step_unhook h).2]⟩)
  | getOriginal t v indx => exact .inr (.inr ⟨id, id, by rw [hstart _ (step_getOriginal h).2]⟩)
  | advance t alloc =>
    unfold Hooks.Makes Hooks.Frees
    obtain ⟨hmakes, hreleases, hcounts⟩ | ⟨e₀, hmakes, hreleases, hzero, hcounts⟩ |
      ⟨e₀, hmakes, hreleases, hholds, hcounts⟩ | ⟨e₀, hmakes, hreleases, hfound, hcounts⟩ :=
      advance_counts h
    · simp [hmakes, hreleases, hcounts]
    · rcases eq_or_ne e e₀ with rfl | he
      · simp [hmakes, hreleases, hcounts, hzero]
      · simp [hmakes, hreleases, hcounts, he, he.symm]
    -- a release frees the entry exactly if the reference was the last
    · rcases eq_or_ne e e₀ with rfl | he
      · have hpos := hs.counts_pos_of_holds hholds
        have hcount : (s.entries e).retainCount = s.counts e := rfl
        simp only [hmakes, hreleases, hcounts, hcount, Function.update_self, reduceCtorEq,
          not_false_iff, true_and, false_and, false_or]
        omega
      · simp [hmakes, hreleases, hcounts, he, he.symm]
    -- a retain is of an entry that somebody refers to, so of one with a count
    · rcases eq_or_ne e e₀ with rfl | he
      · have hpos : 0 < s.counts e := by
          obtain hholds | htable := hfound
          · exact hs.counts_pos_of_holds hholds
          · exact hs.counts_pos_of_table htable
        simp only [hmakes, hreleases, hcounts, Function.update_self, reduceCtorEq,
          not_false_iff, true_and, false_and, false_or]
        omega
      · simp [hmakes, hreleases, hcounts, he]

-- ---------------------------------------------------------------------------
-- The invariant
-- ---------------------------------------------------------------------------

/-- Of the entries made at an address, all but the last have been freed once, and so has
the last one if nobody has a reference to it. -/
structure PlacedInv (s : Placed Thread Vnode OpVec) : Prop where
  unmade : ∀ e, s.made e = 0 → s.hooks.counts e = 0
  freed : ∀ e i, s.freed e i =
    if i + 1 < s.made e ∨ (i + 1 = s.made e ∧ s.hooks.counts e = 0) then 1 else 0

/-- Every step frees an entry at most once, and only one that was made. -/
theorem PlacedInv.step (hs : PlacedInv s) (hr : RefInv s.hooks) (h : s.step k a = some s') :
    PlacedInv s' := by
  obtain ⟨hstep, hmade, hfreed⟩ := placed_step h
  constructor
  case unmade =>
    intro e hnone
    have hunmade := hs.unmade e
    rw [hmade] at hnone
    obtain ⟨hmakes, -, -, -⟩ | ⟨hmakes, -, hone, -⟩ | ⟨hmakes, -, hsame⟩ := step_counts hr hstep e
    · rw [if_pos hmakes] at hnone
      omega
    -- the last one made is freed, and only that one
    · rw [if_neg hmakes] at hnone
      omega
    · rw [if_neg hmakes] at hnone
      exact hsame.mpr (hunmade hnone)
  case freed =>
    intro e i
    rw [hfreed, hmade, hs.freed]
    obtain ⟨hmakes, hfrees, hzero, hone⟩ | ⟨hmakes, hfrees, hone, hzero⟩ |
      ⟨hmakes, hfrees, hsame⟩ := step_counts hr hstep e
    -- one more is made at this address; those before it were freed
    · rw [if_neg (fun h => hfrees h.1), if_pos hmakes]
      exact if_congr (by omega) rfl rfl
    · rw [if_neg hmakes]
      rcases eq_or_ne (i + 1) (s.made e) with hlast | hlast
      · rw [if_pos ⟨hfrees, hlast⟩, if_neg (by omega), if_pos (.inr ⟨hlast, hzero⟩)]
      · rw [if_neg (fun h => hlast h.2)]
        exact if_congr (by omega) rfl rfl
    · rw [if_neg (fun h => hfrees h.1), if_neg hmakes]
      exact if_congr (by rw [hsame]) rfl rfl

/-- The invariant of the placed entries holds in every state that can be reached. -/
theorem PlacedInv.reachable (h : Reachable (placedSystem k initialOps) s) : PlacedInv s := by
  refine ReachableBy.invariant_of (J := fun s => RefInv s.hooks)
    (fun s hs => RefInv.reachable (placed_hooks hs)) (fun s hs => ?_)
    (fun s a s' hs hr _ _ hstep => hs.step hr hstep) h
  rw [show s = ⟨.initial initialOps, fun _ => 0, fun _ _ => 0⟩ from hs]
  exact ⟨fun _ _ => rfl, fun e i => by simp⟩

/-- The table has an entry for one vector only. -/
theorem table_injective {s : Hooks Thread Vnode OpVec} (h : Reachable (hookSystem k initialOps) s)
    {w w' : OpVec} (hw : s.sVnodeHooksHashTable w = some e)
    (hw' : s.sVnodeHooksHashTable w' = some e) : w = w' := by
  refine ReachableBy.invariant_of (J := fun s => RefInv s)
    (I := fun s => ∀ w w' e, s.sVnodeHooksHashTable w = some e →
      s.sVnodeHooksHashTable w' = some e → w = w')
    (fun s hs => RefInv.reachable hs) (fun s hs => ?_)
    (fun s a s' hs hr _ _ hstep => ?_) h w w' e hw hw'
  · cases hs
    intro w w' e hw
    cases hw
  · obtain ⟨alloc, hadv⟩ | ⟨p, -, -, rfl⟩ := step_cases hstep
    · obtain ⟨-, htable, -⟩ | ⟨-, -, -, htable, -⟩ | ⟨-, -, -, htable, -⟩ |
        ⟨v, e, hp, -, -, htable, -⟩ | ⟨v, e, -, -, -, htable, -⟩ := advance_refs hadv
      case inr.inr.inr.inl =>
        -- the entry is fresh, so nobody but its maker has had a reference to it
        have hfresh : ∀ w, s.sVnodeHooksHashTable w ≠ some e := by
          intro w hw
          have hmaker : (s.pc a.thread).Fresh e := by
            rw [hp]
            rfl
          cases hr.fresh a.thread e hmaker (.inr w) hw
        intro w w' e' hw hw'
        rw [htable] at hw hw'
        rcases eq_or_ne w v.vOp with rfl | hne
        · rcases eq_or_ne w' v.vOp with rfl | hne'
          · rfl
          · rw [Function.update_self, Option.some.injEq] at hw
            rw [Function.update_of_ne hne', ← hw] at hw'
            exact (hfresh w' hw').elim
        · rw [Function.update_of_ne hne] at hw
          rcases eq_or_ne w' v.vOp with rfl | hne'
          · rw [Function.update_self, Option.some.injEq] at hw'
            rw [← hw'] at hw
            exact (hfresh w hw).elim
          · rw [Function.update_of_ne hne'] at hw'
            exact hs w w' e' hw hw'
      case inr.inr.inr.inr =>
        intro w w' e' hw hw'
        rw [htable] at hw hw'
        have hold : ∀ x, Function.update s.sVnodeHooksHashTable v.vOp none x = some e' →
            s.sVnodeHooksHashTable x = some e' := by
          intro x hx
          rcases eq_or_ne x v.vOp with rfl | hne
          · rw [Function.update_self] at hx
            cases hx
          · rwa [Function.update_of_ne hne] at hx
        exact hs w w' e' (hold w hw) (hold w' hw')
      all_goals
        rw [htable]
        exact hs
    · exact hs

-- ---------------------------------------------------------------------------
-- The balance
-- ---------------------------------------------------------------------------

/-- What holds of the entries in every reached state. -/
structure EntriesBalanced (k : Kernel) (s : Placed Thread Vnode OpVec) : Prop where
  /-- One for the table, and one for each reference of a thread. -/
  counted : ∀ e, ∃ held : Int, HasCard (fun t => (s.hooks.pc t).holds? = some e) held ∧
    (s.hooks.InTable e → (s.hooks.entries e).retainCount = 1 + held) ∧
    (¬ s.hooks.InTable e → (s.hooks.entries e).retainCount = held)
  /-- What the next operation of a thread reads or writes is an entry that is not freed. -/
  accessed : ∀ t e, s.hooks.Accesses t e → ∃ i, i + 1 = s.made e ∧ s.freed e i = 0
  /-- An entry is not freed before it is made, and not freed again. -/
  once : ∀ e i, s.freed e i ≤ 1 ∧ (s.made e ≤ i → s.freed e i = 0)
  /-- The step that frees an entry leaves nobody with a reference to it. -/
  leaves : ∀ a s', s.step k a = some s' → ∀ e i, s'.freed e i ≠ s.freed e i →
    i + 1 = s.made e ∧ ¬ s'.hooks.InTable e ∧ ∀ t, (s'.hooks.pc t).holds? ≠ some e
  /-- With no call in progress, the entries that are out of the table have been freed. -/
  quiet : (∀ t, s.hooks.pc t = .idle) → ∀ e, ¬ s.hooks.InTable e →
    ∀ i, i < s.made e → s.freed e i = 1

/-- **Every entry is freed once, when nobody refers to it any more**: in every run, whatever
allocations and insertions fail, and whichever call wins. -/
theorem entries_balanced (h : Reachable (placedSystem k initialOps) s) :
    EntriesBalanced k s := by
  have hr := RefInv.reachable (placed_hooks h)
  have hs := PlacedInv.reachable h
  constructor
  case counted =>
    intro e
    exact hr.held fun w w' => table_injective (placed_hooks h)
  case accessed =>
    intro t e haccesses
    have hpos : 0 < s.hooks.counts e := by
      obtain hholds | htable := haccesses.referred
      · exact hr.counts_pos_of_holds hholds
      · exact hr.counts_pos_of_table htable
    -- an entry with a count was made, and the last one made is not freed
    have hmade : s.made e ≠ 0 := by
      intro hnone
      have hzero := hs.unmade e hnone
      omega
    refine ⟨s.made e - 1, by omega, ?_⟩
    rw [hs.freed, if_neg (by omega)]
  case once =>
    intro e i
    rw [hs.freed]
    split
    · exact ⟨le_rfl, fun hle => by omega⟩
    · exact ⟨Nat.zero_le 1, fun _ => rfl⟩
  case leaves =>
    intro a s' hstep e i hne
    obtain ⟨hhooks, -, hfreed⟩ := placed_step hstep
    have hr' := RefInv.reachable (placed_hooks (h.step trivial hstep))
    rw [hfreed] at hne
    split at hne
    · next hlast =>
      obtain ⟨hfrees, hlast⟩ := hlast
      -- what a step frees has no references left after it
      have hzero : s'.hooks.counts e = 0 := by
        obtain ⟨-, hnot, -⟩ | ⟨-, -, -, hzero⟩ | ⟨-, hnot, -⟩ := step_counts hr hhooks e
        · exact (hnot hfrees).elim
        · exact hzero
        · exact (hnot hfrees).elim
      exact ⟨hlast, fun ⟨w, hw⟩ => hr'.free hzero (.inr w) hw, fun t => hr'.free hzero (.inl t)⟩
    · exact (hne rfl).elim
  case quiet =>
    intro hidle e htable i hi
    -- idle threads hold nothing
    have hzero : s.hooks.counts e = 0 := by
      rw [(hr.counted e).eq_zero_iff]
      rintro (t | w) hheld
      · rw [refs_inl, hidle t] at hheld
        cases hheld
      · exact htable ⟨w, hheld⟩
    rw [hs.freed, if_pos]
    omega

end System

open Schedule in
/-- Three threads hook vnodes of the same vector and find no entry. What the first one
makes cannot be added and is freed. The second one adds its own, and the third one, which
has made its own at the address of the first, finds that and frees its own. Then the two
vnodes are unhooked. -/
theorem entries_balanced_unhooked : ∃ s : Placed (Fin 3) Nat Nat,
    (∀ t, s.hooks.pc t = .idle) ∧ s.hooks.sVnodeHooksHashTable 3 = none ∧
    s.made 0 = 2 ∧ s.made 1 = 1 ∧ s.freed 0 0 = 1 ∧ s.freed 0 1 = 1 ∧ s.freed 1 0 = 1 ∧
    EntriesBalanced .inOrder s := by
  let actions : List (HookAction (Fin 3) Nat Nat) :=
    [.hook 0 (vnode 7) false, .hook 1 (vnode 8) false, .hook 2 (vnode 9) false,
      .advance 0 none, .advance 1 none, .advance 2 none, .advance 0 (some 0)] ++
    List.replicate 4 (.advance 0 none) ++ [.advance 2 (some 0)] ++
    List.replicate 20 (.advance 1 (some 1)) ++ List.replicate 5 (.advance 2 (some 2)) ++
    [.unhook 0 (vnode 8)] ++ List.replicate 5 (.advance 0 none) ++
    [.unhook 2 (vnode 9)] ++ unhooking 2 ++ removing 2 ++ List.replicate 17 (.advance 2 none)
  have hrun : ((exec (placedSystem .inOrder initialOps)
      (⟨.initial initialOps, fun _ => 0, fun _ _ => 0⟩ : Placed (Fin 3) Nat Nat) actions).any
      fun s => (∀ t, s.hooks.pc t = .idle) ∧ s.hooks.sVnodeHooksHashTable 3 = none ∧
        s.made 0 = 2 ∧ s.made 1 = 1 ∧ s.freed 0 0 = 1 ∧ s.freed 0 1 = 1 ∧
        s.freed 1 0 = 1) = true := by decide +kernel
  rw [Option.any_eq_true] at hrun
  obtain ⟨s, hexec, hfacts⟩ := hrun
  obtain ⟨hidle, htable, hmade₀, hmade₁, hfreed₀, hfreed₁, hfreed₂⟩ := of_decide_eq_true hfacts
  exact ⟨s, hidle, htable, hmade₀, hmade₁, hfreed₀, hfreed₁, hfreed₂,
    entries_balanced (k := .inOrder) (ReachableBy.exec (.init rfl) actions hexec)⟩

end VfsRedirector.VNodeHook
