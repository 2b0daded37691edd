import VfsRedirector.VNodeHook.Counters

/-!
# VNodeHook: the counter of an entry and what is accounted for

`CounterInv` relates the counter of the entry that the table has for a vector to
what is accounted for, by a surplus that is never negative while the vnodes are
counted as `Counted` asks: a counter does not overflow, a vnode is taken out of
`InstanceForHookedVnodes` once for each time it was put there, by a thread that
found the entry which the table still has, and a new entry is not made while a
thread still waits to take out an older one.

## Results

* `CounterInv.surplus_advance` — what a step adds to the surplus.
* `CounterInv.zero_of_advance` — a counter comes to 0 by the thread that then takes
  the entry out.
* `CounterInv.start`, `CounterInv.advance` — every step keeps the invariant.
-/

namespace VfsRedirector.VNodeHook

open Library HookPc

variable {Thread Vnode OpVec : Type}

/-- The vnodes and the threads that the entry of a vector has to count. -/
def Hooks.Accounted [DecidableEq Vnode] (s : Hooks Thread Vnode OpVec) (vOp : Vnode → OpVec)
    (w : OpVec) : Vnode ⊕ Thread → Prop
  | .inl x => s.Records x ∧ vOp x = w
  | .inr t => ∃ v, (s.pc t).counts? = some v ∧ v.vOp = w

/-- The counter of the entry that the table has for a vector. -/
def Hooks.value (s : Hooks Thread Vnode OpVec) (w : OpVec) : Int :=
  match s.sVnodeHooksHashTable w with
  | some e => (s.counter e).toInt
  | none => 0

/-- The value of a vector with an entry is the counter of it. -/
theorem value_some {s : Hooks Thread Vnode OpVec} {w : OpVec} {e : Nat}
    (h : s.sVnodeHooksHashTable w = some e) : s.value w = (s.counter e).toInt := by
  rw [Hooks.value, h]

theorem value_none {s : Hooks Thread Vnode OpVec} {w : OpVec}
    (h : s.sVnodeHooksHashTable w = none) : s.value w = 0 := by
  rw [Hooks.value, h]

section Changes

variable [DecidableEq Vnode] {s s' : Hooks Thread Vnode OpVec} {vOp : Vnode → OpVec} {w : OpVec}
  {n : Int} {t : Thread} {v : VnodeT Vnode OpVec}

/-- A vnode is accounted for by its record. -/
@[simp] theorem accounted_inl {x : Vnode} :
    s.Accounted vOp w (.inl x) ↔ s.Records x ∧ vOp x = w := Iff.rfl

/-- A thread is accounted for while it counts a vnode that is not recorded. -/
@[simp] theorem accounted_inr {u : Thread} :
    s.Accounted vOp w (.inr u) ↔ ∃ v, (s.pc u).counts? = some v ∧ v.vOp = w := Iff.rfl

-- ---------------------------------------------------------------------------
-- What a step of a thread does to what is accounted for
-- ---------------------------------------------------------------------------

/-- With the same map the same vnodes are recorded. -/
theorem records_same (h : s'.instanceForHookedVnodes = s.instanceForHookedVnodes) (x : Vnode) :
    s'.Records x ↔ s.Records x := by
  rw [Hooks.Records, Hooks.Records, h]

/-- A step that changes neither leaves the number of those accounted for. -/
theorem accounted_same (hpc : ∀ u, u ≠ t → s'.pc u = s.pc u)
    (hcounts : (s'.pc t).counts? = (s.pc t).counts?) (hrecords : ∀ x, s'.Records x ↔ s.Records x)
    (h : HasCard (s.Accounted vOp w) n) : HasCard (s'.Accounted vOp w) n := by
  refine h.congr fun j => ?_
  cases j with
  | inl x => rw [accounted_inl, accounted_inl, hrecords]
  | inr u =>
    rcases eq_or_ne u t with rfl | hu
    · rw [accounted_inr, accounted_inr, hcounts]
    · rw [accounted_inr, accounted_inr, hpc u hu]

/-- The thread counts a vnode. -/
theorem accounted_gain [DecidableEq OpVec] (hpc : ∀ u, u ≠ t → s'.pc u = s.pc u)
    (hold : (s.pc t).counts? = none) (hnew : (s'.pc t).counts? = some v)
    (hrecords : ∀ x, s'.Records x ↔ s.Records x) (h : HasCard (s.Accounted vOp w) n) :
    HasCard (s'.Accounted vOp w) (if v.vOp = w then n + 1 else n) := by
  have hself : ∀ w, ¬ s.Accounted vOp w (.inr t) := by
    rintro w ⟨v', hv', -⟩
    rw [hold] at hv'
    cases hv'
  have hmem : ∀ j, s'.Accounted vOp w j ↔ (j = .inr t ∧ v.vOp = w) ∨ s.Accounted vOp w j := by
    rintro (x | u)
    · simp only [accounted_inl, hrecords, reduceCtorEq, false_and, false_or]
    · rcases eq_or_ne u t with rfl | hu
      · simp only [accounted_inr, hnew, hold]
        simp
      · simp only [accounted_inr, hpc u hu, Sum.inr.injEq, hu, false_and, false_or]
  split
  · next hw => exact h.enter (hself w) fun j => by rw [hmem, and_iff_left hw]
  · next hw => exact h.congr fun j => by rw [hmem, or_iff_right (fun hj => hw hj.2)]

/-- The thread gives up a vnode that it has counted. -/
theorem accounted_drop [DecidableEq OpVec] (hpc : ∀ u, u ≠ t → s'.pc u = s.pc u)
    (hold : (s.pc t).counts? = some v) (hnew : (s'.pc t).counts? = none)
    (hrecords : ∀ x, s'.Records x ↔ s.Records x) (h : HasCard (s.Accounted vOp w) n) :
    HasCard (s'.Accounted vOp w) (if v.vOp = w then n - 1 else n) := by
  have hmem : ∀ j, s'.Accounted vOp w j ↔ j ≠ .inr t ∧ s.Accounted vOp w j := by
    rintro (x | u)
    · simp only [accounted_inl, hrecords, ne_eq, reduceCtorEq, not_false_eq_true, true_and]
    · rcases eq_or_ne u t with rfl | hu
      · simp only [accounted_inr, hnew]
        simp
      · simp only [accounted_inr, hpc u hu, ne_eq, Sum.inr.injEq, hu, not_false_eq_true, true_and]
  split
  · next hw => exact h.leave (accounted_inr.mpr ⟨v, hold, hw⟩) hmem
  · next hw =>
    refine h.congr fun j => ?_
    rw [hmem, and_iff_right_iff_imp]
    rintro hj rfl
    obtain ⟨v', hv', hw'⟩ := hj
    rw [hold, Option.some.injEq] at hv'
    exact hw (hv' ▸ hw')

/-- A record takes the place of the thread. -/
theorem accounted_record (hpc : ∀ u, u ≠ t → s'.pc u = s.pc u)
    (hold : (s.pc t).counts? = some v) (hnew : (s'.pc t).counts? = none)
    (hown : v.vOp = vOp v.vnode) (hnot : ¬ s.Records v.vnode)
    (hrecords : ∀ x, s'.Records x ↔ x = v.vnode ∨ s.Records x)
    (h : HasCard (s.Accounted vOp w) n) : HasCard (s'.Accounted vOp w) n := by
  classical
  have hdrop : HasCard ({ s with pc := s'.pc }.Accounted vOp w) (if v.vOp = w then n - 1 else n) :=
    accounted_drop hpc hold hnew (fun _ => Iff.rfl) h
  have hmem : ∀ j, s'.Accounted vOp w j ↔
      (j = .inl v.vnode ∧ v.vOp = w) ∨ { s with pc := s'.pc }.Accounted vOp w j := by
    rintro (x | u)
    · simp only [accounted_inl, hrecords, Sum.inl.injEq]
      constructor
      · rintro ⟨rfl | hx, hw⟩
        · exact .inl ⟨rfl, hown.trans hw⟩
        · exact .inr ⟨hx, hw⟩
      · rintro (⟨rfl, hw⟩ | ⟨hx, hw⟩)
        · exact ⟨.inl rfl, hown.symm.trans hw⟩
        · exact ⟨.inr hx, hw⟩
    · simp only [accounted_inr, reduceCtorEq, false_and, false_or]
  split at hdrop
  · next hw =>
    have henter : HasCard (s'.Accounted vOp w) (n - 1 + 1) :=
      hdrop.enter (i := .inl v.vnode) (fun hx => hnot (accounted_inl.mp hx).1)
        fun j => by rw [hmem, and_iff_left hw]
    rwa [sub_add_cancel] at henter
  · next hw => exact hdrop.congr fun j => by rw [hmem, or_iff_right (fun hj => hw hj.2)]

/-- The thread takes the place of a record. -/
theorem accounted_unrecord (hpc : ∀ u, u ≠ t → s'.pc u = s.pc u)
    (hold : (s.pc t).counts? = none) (hnew : (s'.pc t).counts? = some v)
    (hown : v.vOp = vOp v.vnode) (hrec : s.Records v.vnode)
    (hrecords : ∀ x, s'.Records x ↔ x ≠ v.vnode ∧ s.Records x)
    (h : HasCard (s.Accounted vOp w) n) : HasCard (s'.Accounted vOp w) n := by
  classical
  have hgain : HasCard ({ s with pc := s'.pc }.Accounted vOp w) (if v.vOp = w then n + 1 else n) :=
    accounted_gain hpc hold hnew (fun _ => Iff.rfl) h
  have hmem : ∀ j, s'.Accounted vOp w j ↔
      j ≠ .inl v.vnode ∧ { s with pc := s'.pc }.Accounted vOp w j := by
    rintro (x | u)
    · simp only [accounted_inl, hrecords, ne_eq, Sum.inl.injEq, and_assoc]
      exact Iff.rfl
    · simp only [accounted_inr, ne_eq, reduceCtorEq, not_false_eq_true, true_and]
  split at hgain
  · next hw =>
    have hleave : HasCard (s'.Accounted vOp w) (n + 1 - 1) :=
      hgain.leave (i := .inl v.vnode) (And.intro hrec (hown ▸ hw)) hmem
    rwa [add_sub_cancel_right] at hleave
  · next hw =>
    refine hgain.congr fun j => ?_
    rw [hmem, and_iff_right_iff_imp]
    rintro hj rfl
    exact hw (hown.trans hj.2)

end Changes

-- ---------------------------------------------------------------------------
-- The value of a vector after a step
-- ---------------------------------------------------------------------------

/-- A counter that is not the largest goes up by one. -/
theorem toInt_increment {c : Int32} (h : c ≠ Int32.maxValue) : (c + 1).toInt = c.toInt + 1 := by
  have hlt : c.toInt < 2 ^ 31 - 1 := by
    have hle := c.toInt_le
    have hne : c.toInt ≠ Int32.maxValue.toInt := fun heq => h (Int32.toInt_inj.mp heq)
    rw [Int32.toInt_maxValue] at hle hne
    omega
  have hge := c.le_toInt
  rw [Int32.toInt_add, Int32.toInt_one]
  exact Int.bmod_eq_of_le (by omega) (by omega)

/-- A positive counter goes down by one. -/
theorem toInt_decrement {c : Int32} (h : 0 < c.toInt) : (c - 1).toInt = c.toInt - 1 := by
  have hle := c.toInt_le
  rw [Int32.toInt_maxValue] at hle
  rw [Int32.toInt_sub, Int32.toInt_one]
  exact Int.bmod_eq_of_le (by omega) (by omega)

section Value

variable {s s' : Hooks Thread Vnode OpVec} {w w₀ : OpVec} {e : Nat} {c : Int32}

/-- A vector has its value while its entry and the counter of it stay. -/
theorem value_same (htable : s'.sVnodeHooksHashTable = s.sVnodeHooksHashTable)
    (hcounter : ∀ e, s.sVnodeHooksHashTable w = some e → s'.counter e = s.counter e) :
    s'.value w = s.value w := by
  rw [Hooks.value, Hooks.value, htable]
  split
  · next e he => rw [hcounter e he]
  · rfl

variable [DecidableEq OpVec]

/-- The counter of an entry changes that the table has for one vector. -/
theorem value_update (hinjective : ∀ w w' e, s.sVnodeHooksHashTable w = some e →
      s.sVnodeHooksHashTable w' = some e → w = w')
    (htable : s'.sVnodeHooksHashTable = s.sVnodeHooksHashTable)
    (he : s.sVnodeHooksHashTable w₀ = some e)
    (hcounter : s'.counter = Function.update s.counter e c) :
    s'.value w = if w₀ = w then c.toInt else s.value w := by
  split
  · next hw =>
    rw [← hw, value_some (htable ▸ he), hcounter, Function.update_self]
  · next hw =>
    rw [Hooks.value, Hooks.value, htable]
    split
    · next e' he' =>
      have hne : e' ≠ e := by
        rintro rfl
        exact hw (hinjective _ _ _ he he')
      rw [hcounter, Function.update_of_ne hne]
    · rfl

/-- The table changes at one vector. -/
theorem value_table {x : Option Nat}
    (htable : s'.sVnodeHooksHashTable = Function.update s.sVnodeHooksHashTable w₀ x)
    (hcounter : ∀ w e, w₀ ≠ w → s.sVnodeHooksHashTable w = some e → s'.counter e = s.counter e)
    (hw : w₀ ≠ w) : s'.value w = s.value w := by
  rw [Hooks.value, Hooks.value, htable, Function.update_of_ne hw.symm]
  split
  · next e he => rw [hcounter w e hw he]
  · rfl

end Value

-- ---------------------------------------------------------------------------
-- The invariant
-- ---------------------------------------------------------------------------

section Invariant

variable [DecidableEq Vnode]

/-- What the step of a thread has to meet that counts vnodes. -/
def CountedAt (s : Hooks Thread Vnode OpVec) : HookPc Vnode OpVec → Prop
  | .hookRetrieve v => ∀ e ∈ s.sVnodeHooksHashTable v.vOp, s.counter e ≠ Int32.maxValue
  | .hookRecheck v _ =>
    (∀ e ∈ s.sVnodeHooksHashTable v.vOp, s.counter e ≠ Int32.maxValue) ∧
      (s.sVnodeHooksHashTable v.vOp = none → ∀ u, (s.pc u).waits? ≠ some v.vOp)
  | .unhookRemoveVnode v e => s.Records v.vnode ∧ s.sVnodeHooksHashTable v.vOp = some e
  | _ => True

def Counted (s : Hooks Thread Vnode OpVec) : HookAction Thread Vnode OpVec → Prop
  | .advance t _ => CountedAt s (s.pc t)
  | _ => True

/-- `P` says which surplus the counters may have. -/
structure CounterInv (vOp : Vnode → OpVec) (P : Int → Prop) (s : Hooks Thread Vnode OpVec) :
    Prop where
  surplus : ∀ w, ∃ d, P d ∧ HasCard (s.Accounted vOp w) (s.value w - d)
  own : ∀ t v, (s.pc t).hookArg? = some v ∨ (s.pc t).unhookArg? = some v → v.vOp = vOp v.vnode
  injective : ∀ w w' e, s.sVnodeHooksHashTable w = some e → s.sVnodeHooksHashTable w' = some e →
    w = w'
  fresh : ∀ t e, (s.pc t).Fresh e → s.counter e = 0
  decrement : ∀ t v e, s.pc t = .unhookDecrement v e → s.sVnodeHooksHashTable v.vOp = some e
  removes : ∀ t w e, (s.pc t).removes? = some (w, e) → s.sVnodeHooksHashTable w = some e ∨
    s.sVnodeHooksHashTable w = none
  checked : ∀ t v e, s.pc t = .unhookDrop v e → s.sVnodeHooksHashTable v.vOp = some e →
    s.counter e = 0
  remove : ∀ t v e, s.pc t = .unhookRemove v → s.sVnodeHooksHashTable v.vOp = some e →
    s.counter e = 0
  zero : ∀ w e, s.sVnodeHooksHashTable w = some e → s.counter e = 0 → ∃ t, (s.pc t).Removing w

variable {vOp : Vnode → OpVec} {P : Int → Prop} {s s' : Hooks Thread Vnode OpVec} {t : Thread}
  {w : OpVec} {e : Nat} {k : Kernel} {initialOps : OpVec → Nat → Nat}

/-- The invariant holds before the first hooking. -/
theorem CounterInv.initial (hP : P 0) :
    CounterInv vOp P (Hooks.initial initialOps : Hooks Thread Vnode OpVec) := by
  constructor
  case surplus =>
    intro w
    refine ⟨0, hP, ?_⟩
    rw [value_none rfl, sub_zero]
    refine HasCard.zero ?_
    rintro (x | u)
    · exact fun hx => hx.1 rfl
    · rintro ⟨v, hv, -⟩
      cases hv
  case own =>
    rintro t v (hv | hv) <;> cases hv
  case fresh =>
    intro t e h
    exact h.elim
  all_goals
    intros
    contradiction

/-- What is accounted for is counted. -/
theorem CounterInv.pos (h : CounterInv vOp P s) (hP : ∀ d, P d → 0 ≤ d) {j : Vnode ⊕ Thread}
    (hj : s.Accounted vOp w j) : 0 < s.value w := by
  obtain ⟨d, hd, hcard⟩ := h.surplus w
  have hpos := hcard.pos hj
  have := hP d hd
  omega

/-- Without a negative surplus no counter is below 0. -/
theorem CounterInv.nonneg (h : CounterInv vOp P s) (hP : ∀ d, P d → 0 ≤ d)
    (he : s.sVnodeHooksHashTable w = some e) : 0 ≤ (s.counter e).toInt := by
  obtain ⟨d, hd, hcard⟩ := h.surplus w
  have hnonneg := hcard.nonneg
  have := hP d hd
  rw [value_some he] at hnonneg
  omega

/-- A thread that is about to uncount a vnode finds it counted. -/
theorem CounterInv.decrement_pos (h : CounterInv vOp P s) (hP : ∀ d, P d → 0 ≤ d)
    {v : VnodeT Vnode OpVec} (hp : s.pc t = .unhookDecrement v e) : 0 < (s.counter e).toInt := by
  have hpos := h.pos (w := v.vOp) hP (j := .inr t) ⟨v, by rw [hp]; rfl, rfl⟩
  rwa [value_some (h.decrement t v e hp)] at hpos

variable [DecidableEq Thread]

/-- The start of a call. -/
theorem CounterInv.start {p : HookPc Vnode OpVec} (h : CounterInv vOp P s) (hidle : s.pc t = .idle)
    (hp : p.Starting)
    (hown : ∀ v, p.hookArg? = some v ∨ p.unhookArg? = some v → v.vOp = vOp v.vnode) :
    CounterInv vOp P (s.goto t p) := by
  -- the place where a call starts counts nothing and owes nothing to an entry
  have hquiet : p.counts? = none ∧ (∀ e, ¬ p.Fresh e) ∧ p.removes? = none ∧
      (∀ v e, p ≠ .unhookDecrement v e) ∧ (∀ v e, p ≠ .unhookDrop v e) ∧
      ∀ v, p ≠ .unhookRemove v := by
    cases p <;> first | exact hp.elim | simp [counts?, Fresh, removes?]
  obtain ⟨hcounts, hfresh, hremoves, hdecrement, hdrop, hremove⟩ := hquiet
  have hpc : ∀ u, u ≠ t → (s.goto t p).pc u = s.pc u := fun u hu => Function.update_of_ne hu _ _
  have hself : (s.goto t p).pc t = p := Function.update_self _ _ _
  -- each thread is the one that starts, or is where it was
  have hcases : ∀ u, (u = t ∧ (s.goto t p).pc u = p) ∨ (s.goto t p).pc u = s.pc u := by
    intro u
    rcases eq_or_ne u t with rfl | hu
    · exact .inl ⟨rfl, hself⟩
    · exact .inr (hpc u hu)
  constructor
  case surplus =>
    intro w
    obtain ⟨d, hd, hcard⟩ := h.surplus w
    refine ⟨d, hd, accounted_same hpc ?_ (fun _ => Iff.rfl) hcard⟩
    rw [hself, hcounts, hidle]
    rfl
  case own =>
    intro u v hv
    obtain ⟨-, hu⟩ | hu := hcases u
    · rw [hu] at hv
      exact hown v hv
    · rw [hu] at hv
      exact h.own u v hv
  case injective => exact h.injective
  case fresh =>
    intro u e he
    obtain ⟨-, hu⟩ | hu := hcases u
    · rw [hu] at he
      exact (hfresh e he).elim
    · rw [hu] at he
      exact h.fresh u e he
  case decrement =>
    intro u v e he
    obtain ⟨-, hu⟩ | hu := hcases u
    · rw [hu] at he
      exact (hdecrement v e he).elim
    · rw [hu] at he
      exact h.decrement u v e he
  case removes =>
    intro u w e he
    obtain ⟨-, hu⟩ | hu := hcases u
    · rw [hu, hremoves] at he
      cases he
    · rw [hu] at he
      exact h.removes u w e he
  case checked =>
    intro u v e he
    obtain ⟨-, hu⟩ | hu := hcases u
    · rw [hu] at he
      exact (hdrop v e he).elim
    · rw [hu] at he
      exact h.checked u v e he
  case remove =>
    intro u v e he
    obtain ⟨-, hu⟩ | hu := hcases u
    · rw [hu] at he
      exact (hremove v he).elim
    · rw [hu] at he
      exact h.remove u v e he
  case zero =>
    intro w e he hzero
    obtain ⟨u, hu⟩ := h.zero w e he hzero
    refine ⟨u, ?_⟩
    obtain ⟨rfl, -⟩ | hu' := hcases u
    · rw [hidle] at hu
      exact hu.elim
    · rwa [hu']

-- ---------------------------------------------------------------------------
-- A step of a call
-- ---------------------------------------------------------------------------

variable [DecidableEq OpVec] {alloc : Option Nat}

/-- Only a vnode that is not going to be recorded, and one whose record is lost,
adds to the surplus. -/
theorem CounterInv.surplus_advance (h : CounterInv vOp P s) (hr : RefInv s)
    (hadv : s.advance k t alloc = some s') (hguard : Counted s (.advance t alloc))
    (hP : ∀ d, P d → 0 ≤ d)
    (hloss : (∃ v, s.pc t = .hookRetrieve v ∧ s.sVnodeHooksHashTable v.vOp ≠ none) ∨
      (∃ v, s.pc t = .hookAddVnode v ∧ (alloc = none ∨ s.Records v.vnode)) →
      ∀ d, P d → P (d + 1)) :
    ∀ w, ∃ d, P d ∧ HasCard (s'.Accounted vOp w) (s'.value w - d) := by
  intro w
  -- the surplus changes only where the step counts a vnode, records one or drops a record
  have hpc : ∀ u, u ≠ t → s'.pc u = s.pc u := fun u hu => advance_pc hadv hu
  obtain ⟨d, hd, hcard⟩ := h.surplus w
  obtain ⟨hcounter, htable, hvnodes, hcounts⟩ |
    ⟨v, e, hp, hfree, hcounter, htable, hvnodes, hcounts⟩ |
    ⟨v, e, hp, -, he, hcounter, htable, hvnodes, hcounts⟩ |
    ⟨v, newEntry, e, hp, he, hcounter, htable, hvnodes, hcounts⟩ |
    ⟨v, e, hp, hnone, hcounter, htable, hvnodes, hcounts⟩ |
    ⟨v, hp, hcounter, htable, hvnodes, hcounts⟩ |
    ⟨v, e, hp, hp', hcounter, htable, hvnodes⟩ |
    ⟨v, e, hp, -, hcounter, htable, hvnodes, hcounts⟩ |
    ⟨v, e, hp, he, hcounter, htable, hvnodes, hcounts⟩ := advance_counters hadv
  -- a step that counts and records nothing
  · refine ⟨d, hd, ?_⟩
    rw [value_same htable fun e _ => congrFun hcounter e]
    exact accounted_same hpc hcounts (records_same hvnodes) hcard
  -- a new entry starts at 0; it was free, so no vector has it
  · refine ⟨d, hd, ?_⟩
    rw [value_same htable fun e' he' => ?_]
    · exact accounted_same hpc hcounts (records_same hvnodes) hcard
    · have hne : e' ≠ e := by
        rintro rfl
        exact hr.free hfree (.inr w) he'
      rw [hcounter, Function.update_of_ne hne]
  · -- the vnode is counted and will not be recorded
    have hmax : s.counter e ≠ Int32.maxValue := by
      rw [Counted, hp] at hguard
      exact hguard e he
    have hsame := accounted_same hpc hcounts (records_same hvnodes) hcard
    rw [value_update h.injective htable he hcounter, toInt_increment hmax]
    split
    · next hw =>
      subst hw
      refine ⟨d + 1, hloss (.inl ⟨v, hp, by rw [he]; exact Option.some_ne_none e⟩) d hd, ?_⟩
      rw [value_some he] at hsame
      rwa [add_sub_add_right_eq_sub]
    · exact ⟨d, hd, hsame⟩
  -- the recheck finds the entry of another thread and counts the vnode there
  · have hmax : s.counter e ≠ Int32.maxValue := by
      rw [Counted, hp] at hguard
      exact hguard.1 e he
    have hgain := accounted_gain hpc (by rw [hp]; rfl) hcounts (records_same hvnodes) hcard
    refine ⟨d, hd, ?_⟩
    rw [value_update h.injective htable he hcounter, toInt_increment hmax]
    split
    · next hw =>
      subst hw
      rwa [if_pos rfl, value_some he, sub_add_eq_add_sub] at hgain
    · next hw => rwa [if_neg hw] at hgain
  -- the thread's own entry enters the table and counts the vnode
  · have hfresh : s.counter e = 0 := h.fresh t e (by rw [hp]; exact rfl)
    have hgain := accounted_gain hpc (by rw [hp]; rfl) hcounts (records_same hvnodes) hcard
    refine ⟨d, hd, ?_⟩
    by_cases hw : v.vOp = w
    · subst hw
      have he' : s'.sVnodeHooksHashTable v.vOp = some e := by rw [htable, Function.update_self]
      rw [if_pos rfl, value_none hnone] at hgain
      rw [value_some he', hcounter, Function.update_self, hfresh]
      rwa [sub_add_eq_add_sub] at hgain
    · rw [if_neg hw] at hgain
      rw [value_table htable (fun w' e' _ he' => ?_) hw]
      · exact hgain
      · have hne : e' ≠ e := by
          rintro rfl
          have := hr.fresh t e' (by rw [hp]; exact rfl) (.inr w') he'
          cases this
        rw [hcounter, Function.update_of_ne hne]
  -- addHookedVnode: the vnode that was on its way is recorded
  · have hown : v.vOp = vOp v.vnode := h.own t v (.inl (by rw [hp]; rfl))
    have hcounts₀ : (s.pc t).counts? = some v := by
      rw [hp]
      rfl
    rw [value_same htable fun e _ => congrFun hcounter e]
    by_cases hrecord : alloc = none ∨ s.Records v.vnode
    · -- the record is lost, or was there before
      have hrecords : ∀ x, s'.Records x ↔ s.Records x := by
        intro x
        rw [Hooks.Records, Hooks.Records, hvnodes]
        cases alloc with
        | none => simp
        | some a =>
          have hold : s.Records v.vnode := hrecord.resolve_left (Option.some_ne_none a)
          rw [Option.isSome_some, DataMap.getDataByKey_addDataByKey]
          split
          · next hx => exact iff_of_true (Option.some_ne_none _) (hx ▸ hold)
          · exact Iff.rfl
      have hdrop := accounted_drop hpc hcounts₀ hcounts hrecords hcard
      split at hdrop
      · refine ⟨d + 1, hloss (.inr ⟨v, hp, hrecord⟩) d hd, ?_⟩
        rwa [← sub_sub]
      · exact ⟨d, hd, hdrop⟩
    · rw [not_or] at hrecord
      obtain ⟨a, rfl⟩ := Option.ne_none_iff_exists'.mp hrecord.1
      refine ⟨d, hd, accounted_record hpc hcounts₀ hcounts hown hrecord.2 (fun x => ?_) hcard⟩
      rw [Hooks.Records, Hooks.Records, hvnodes, Option.isSome_some,
        DataMap.getDataByKey_addDataByKey]
      split
      · next hx => exact iff_of_true (Option.some_ne_none _) (.inl hx)
      · next hx => rw [or_iff_right hx]
  -- the record goes, and the thread that took it is about to uncount the vnode
  · have hown : v.vOp = vOp v.vnode := h.own t v (.inr (by rw [hp]; rfl))
    have hrecord : s.Records v.vnode := by
      rw [Counted, hp] at hguard
      exact hguard.1
    refine ⟨d, hd, ?_⟩
    rw [value_same htable fun e _ => congrFun hcounter e]
    refine accounted_unrecord hpc (by rw [hp]; rfl) (by rw [hp']; rfl) hown hrecord (fun x => ?_)
      hcard
    rw [Hooks.Records, Hooks.Records, hvnodes, DataMap.getDataByKey_removeKey]
    split
    · next hx => simp [hx]
    · next hx => simp [hx]
  -- the counter goes down, and the thread counts nothing any more
  · have hpos := h.decrement_pos hP hp
    have he := h.decrement t v e hp
    have hdrop := accounted_drop hpc (by rw [hp]; rfl) hcounts (records_same hvnodes) hcard
    refine ⟨d, hd, ?_⟩
    rw [value_update h.injective htable he hcounter, toInt_decrement hpos]
    split
    · next hw =>
      subst hw
      rwa [if_pos rfl, value_some he, sub_right_comm] at hdrop
    · next hw => rwa [if_neg hw] at hdrop
  -- the entry leaves the table with its counter at 0
  · have hsame := accounted_same hpc (by rw [hcounts, hp]; rfl) (records_same hvnodes) hcard
    refine ⟨d, hd, ?_⟩
    by_cases hw : v.vOp = w
    · subst hw
      have hnone : s'.sVnodeHooksHashTable v.vOp = none := by rw [htable, Function.update_self]
      rw [value_none hnone]
      rwa [value_some he, h.remove t v e hp he] at hsame
    · rw [value_table htable (fun _ e' _ _ => congrFun hcounter e') hw]
      exact hsame

/-- A vnode has its own vector also after the step. -/
theorem CounterInv.own_advance (h : CounterInv vOp P s) (hadv : s.advance k t alloc = some s')
    (u : Thread) (v : VnodeT Vnode OpVec)
    (hv : (s'.pc u).hookArg? = some v ∨ (s'.pc u).unhookArg? = some v) : v.vOp = vOp v.vnode := by
  rcases eq_or_ne u t with rfl | hu
  · exact h.own u v (hv.imp (advance_hookArg hadv) (advance_unhookArg hadv))
  · rw [advance_pc hadv hu] at hv
    exact h.own u v hv

/-- Two vectors have two entries after the step as before. -/
theorem CounterInv.injective_advance (h : CounterInv vOp P s) (hr : RefInv s)
    (hadv : s.advance k t alloc = some s') (w w' : OpVec) (e : Nat)
    (hw : s'.sVnodeHooksHashTable w = some e) (hw' : s'.sVnodeHooksHashTable w' = some e) :
    w = w' := by
  obtain htable | ⟨v, e₀, hp, -, htable, -⟩ | ⟨v, e₀, -, -, htable⟩ := advance_table hadv
  · rw [htable] at hw hw'
    exact h.injective w w' e hw hw'
  -- the new entry was held by the thread alone
  · have hnot : ∀ x, s.sVnodeHooksHashTable x ≠ some e₀ := by
      intro x hx
      have := hr.fresh t e₀ (by rw [hp]; exact rfl) (.inr x) hx
      cases this
    rw [htable, Function.update_apply] at hw hw'
    split at hw
    · next hx =>
      cases hw
      split at hw'
      · next hx' => rw [hx, hx']
      · exact (hnot w' hw').elim
    · split at hw'
      · cases hw'
        exact (hnot w hw).elim
      · exact h.injective w w' e hw hw'
  · rw [htable, Function.update_apply] at hw hw'
    split at hw
    · cases hw
    · split at hw'
      · cases hw'
      · exact h.injective w w' e hw hw'

/-- The counter of an entry that the table does not have, or that a thread is about
to take out, stays as it is. -/
theorem CounterInv.counter_advance (h : CounterInv vOp P s) (hr : RefInv s)
    (hadv : s.advance k t alloc = some s') (hheld : ∃ r, s.refs r = some e)
    (hnot : ∀ w, s.sVnodeHooksHashTable w = some e → ∃ u, u ≠ t ∧ (s.pc u).Exclusive ∧
      ∀ v, s.pc t ≠ .unhookDecrement v e)
    (hfresh : ¬ (s.pc t).Fresh e) : s'.counter e = s.counter e := by
  -- the recheck has the lock exclusively, and so has the other thread
  have hexclusive : ∀ v newEntry w, s.pc t = .hookRecheck v newEntry →
      s.sVnodeHooksHashTable w ≠ some e := by
    intro v newEntry w hp hw
    obtain ⟨u, hu, hux, -⟩ := hnot w hw
    exact hu (hr.exclusive hux (by rw [hp]; trivial))
  obtain ⟨hcounter, -⟩ | ⟨v, e₀, hp, hfree, hcounter, -⟩ | ⟨v, e₀, hp, hlock, he, hcounter, -⟩ |
    ⟨v, newEntry, e₀, hp, he, hcounter, -⟩ | ⟨v, e₀, hp, -, hcounter, -⟩ | ⟨v, -, hcounter, -⟩ |
    ⟨v, e₀, -, -, hcounter, -⟩ | ⟨v, e₀, hp, -, hcounter, -⟩ | ⟨v, e₀, -, -, hcounter, -⟩ :=
    advance_counters hadv
  -- a new entry is made of memory that nobody holds
  case inr.inl =>
    have hne : e ≠ e₀ := by
      rintro rfl
      obtain ⟨r, hr'⟩ := hheld
      exact hr.free hfree r hr'
    rw [hcounter, Function.update_of_ne hne]
  -- counting under the shared lock: then no thread has it exclusively
  case inr.inr.inl =>
    have hne : e ≠ e₀ := by
      rintro rfl
      obtain ⟨u, -, hux, -⟩ := hnot v.vOp he
      rw [hr.lock_iff, hlock] at hux
      cases hux
    rw [hcounter, Function.update_of_ne hne]
  case inr.inr.inr.inl =>
    have hne : e ≠ e₀ := by
      rintro rfl
      exact hexclusive v newEntry v.vOp hp he
    rw [hcounter, Function.update_of_ne hne]
  case inr.inr.inr.inr.inl =>
    have hne : e ≠ e₀ := by
      rintro rfl
      exact hfresh (by rw [hp]; exact rfl)
    rw [hcounter, Function.update_of_ne hne]
  -- the decrement is of the entry the table has, which is excluded
  case inr.inr.inr.inr.inr.inr.inr.inl =>
    have hne : e ≠ e₀ := by
      rintro rfl
      obtain ⟨u, -, -, hdecrement⟩ := hnot v.vOp (h.decrement t v e hp)
      exact hdecrement v hp
    rw [hcounter, Function.update_of_ne hne]
  all_goals rw [hcounter]

/-- An entry that was just made counts nothing. -/
theorem CounterInv.fresh_advance (h : CounterInv vOp P s) (hr : RefInv s)
    (hadv : s.advance k t alloc = some s') (u : Thread) (e : Nat) (hfresh : (s'.pc u).Fresh e) :
    s'.counter e = 0 := by
  rcases eq_or_ne u t with rfl | hu
  · obtain hzero | ⟨hfresh, hcounter⟩ := advance_fresh_counter hadv hfresh
    · exact hzero
    · rw [hcounter]
      exact h.fresh u e hfresh
  · rw [advance_pc hadv hu] at hfresh
    rw [← h.fresh u e hfresh]
    refine h.counter_advance hr hadv ⟨.inl u, hfresh.holds⟩ (fun w hw => ?_) fun hfresh' => ?_
    · have := hr.fresh u e hfresh (.inr w) hw
      cases this
    · have := hr.fresh u e hfresh (.inl t) hfresh'.holds
      cases this
      exact hu rfl

/-- An entry that counts something stays in the table. -/
theorem CounterInv.table_advance (h : CounterInv vOp P s) (hP : ∀ d, P d → 0 ≤ d)
    (hadv : s.advance k t alloc = some s') (he : s.sVnodeHooksHashTable w = some e)
    {j : Vnode ⊕ Thread} (hj : s.Accounted vOp w j) : s'.sVnodeHooksHashTable w = some e := by
  obtain htable | ⟨v, e₀, -, hnone, htable, -⟩ | ⟨v, e₀, hp, he₀, htable⟩ := advance_table hadv
  · rw [htable, he]
  · have hne : w ≠ v.vOp := by
      rintro rfl
      rw [hnone] at he
      cases he
    rw [htable, Function.update_of_ne hne, he]
  -- an entry is removed only when its counter was seen at 0
  · have hne : w ≠ v.vOp := by
      rintro rfl
      have hpos := h.pos hP hj
      rw [value_some he₀, h.remove t v e₀ hp he₀] at hpos
      exact absurd hpos (by decide)
    rw [htable, Function.update_of_ne hne, he]

/-- A thread about to uncount a vnode has the entry that the table has. -/
theorem CounterInv.decrement_advance (h : CounterInv vOp P s) (hP : ∀ d, P d → 0 ≤ d)
    (hadv : s.advance k t alloc = some s') (hguard : Counted s (.advance t alloc)) (u : Thread)
    (v : VnodeT Vnode OpVec) (e : Nat) (hp : s'.pc u = .unhookDecrement v e) :
    s'.sVnodeHooksHashTable v.vOp = some e := by
  rcases eq_or_ne u t with rfl | hu
  · have hp' := advance_decrement hadv hp
    rw [Counted, hp'] at hguard
    have hown : v.vOp = vOp v.vnode := h.own u v (.inr (by rw [hp']; rfl))
    exact h.table_advance hP hadv hguard.2 (j := .inl v.vnode) ⟨hguard.1, hown.symm⟩
  · rw [advance_pc hadv hu] at hp
    exact h.table_advance hP hadv (h.decrement u v e hp) (j := .inr u) ⟨v, by rw [hp]; rfl, rfl⟩

/-- What a thread is about to take out is in the table, or nothing is. -/
theorem CounterInv.removes_advance (h : CounterInv vOp P s) (hr : RefInv s)
    (hadv : s.advance k t alloc = some s') (hguard : Counted s (.advance t alloc)) (u : Thread)
    (w : OpVec) (e : Nat) (hremoves : (s'.pc u).removes? = some (w, e)) :
    s'.sVnodeHooksHashTable w = some e ∨ s'.sVnodeHooksHashTable w = none := by
  -- the thread removed before, or has just seen the counter fall to 0
  have hold : (s.pc u).removes? = some (w, e) ∨ (s.pc u = s.pc t ∧
      ∃ v, s.pc t = .unhookDecrement v e ∧ v.vOp = w) := by
    rcases eq_or_ne u t with rfl | hu
    · obtain hremoves | ⟨v, hp, hw, -⟩ := advance_removes hadv hremoves
      · exact .inl hremoves
      · exact .inr ⟨rfl, v, hp, hw⟩
    · rw [advance_pc hadv hu] at hremoves
      exact .inl hremoves
  obtain htable | ⟨v, e₀, hp, hnone, htable, -⟩ | ⟨v, e₀, hp, he₀, htable⟩ := advance_table hadv
  · rw [htable]
    obtain hremoves | ⟨-, v, hp, rfl⟩ := hold
    · exact h.removes u w e hremoves
    · exact .inl (h.decrement t v e hp)
  · obtain hremoves | ⟨-, v', hp', -⟩ := hold
    · by_cases hw : w = v.vOp
      · -- nobody waits to take out an older entry, and the others have the lock
        rw [Counted, hp] at hguard
        have hexclusive : (s.pc u).Exclusive := by
          cases hpu : s.pc u <;> rw [hpu] at hremoves <;>
            simp only [removes?, reduceCtorEq, Option.some.injEq] at hremoves
          · next v' e' =>
            refine absurd ?_ (hguard.2 hnone u)
            rw [hpu, waits?, (Prod.mk.inj hremoves).1, hw]
          all_goals trivial
        have hut : u = t := hr.exclusive hexclusive (by rw [hp]; trivial)
        rw [hut, hp] at hremoves
        cases hremoves
      · rw [htable, Function.update_of_ne hw]
        exact h.removes u w e hremoves
    · rw [hp] at hp'
      cases hp'
  · obtain hremoves | ⟨-, v', hp', -⟩ := hold
    · rw [htable, Function.update_apply]
      split
      · exact .inr rfl
      · exact h.removes u w e hremoves
    · rw [hp] at hp'
      cases hp'

/-- While another thread has the lock and a vector counts nothing, its entry goes on
to count nothing. -/
theorem CounterInv.zero_advance (h : CounterInv vOp P s) (hr : RefInv s) (hP : ∀ d, P d → 0 ≤ d)
    (hadv : s.advance k t alloc = some s') {u : Thread} (hu : u ≠ t)
    (hexclusive : (s.pc u).Exclusive)
    (he : s'.sVnodeHooksHashTable w = some e)
    (hzero : s.sVnodeHooksHashTable w = some e → s.counter e = 0) : s'.counter e = 0 := by
  -- with the lock elsewhere no entry enters or leaves the table
  have htable : s'.sVnodeHooksHashTable = s.sVnodeHooksHashTable := by
    obtain htable | ⟨v, e₀, hp, -⟩ | ⟨v, e₀, hp, -⟩ := advance_table hadv
    · exact htable
    all_goals exact (hu (hr.exclusive hexclusive (by rw [hp]; trivial))).elim
  rw [htable] at he
  have hcounter := hzero he
  rw [← hcounter]
  refine h.counter_advance hr hadv ⟨.inr w, he⟩ (fun _ _ => ⟨u, hu, hexclusive, fun v hp => ?_⟩) ?_
  · have hpos := h.decrement_pos hP hp
    rw [hcounter] at hpos
    exact absurd hpos (by decide)
  · intro hfresh
    have := hr.fresh t e hfresh (.inr w) he
    cases this

/-- The counter that a thread has seen at 0 is still 0 when it drops the lock. -/
theorem CounterInv.checked_advance (h : CounterInv vOp P s) (hr : RefInv s) (hP : ∀ d, P d → 0 ≤ d)
    (hadv : s.advance k t alloc = some s') (u : Thread) (v : VnodeT Vnode OpVec) (e : Nat)
    (hp : s'.pc u = .unhookDrop v e) (he : s'.sVnodeHooksHashTable v.vOp = some e) :
    s'.counter e = 0 := by
  rcases eq_or_ne u t with rfl | hu
  · obtain ⟨-, hzero, hcounter⟩ := advance_drop hadv hp
    rw [hcounter, hzero]
  · rw [advance_pc hadv hu] at hp
    exact h.zero_advance hr hP hadv hu (by rw [hp]; trivial) he (h.checked u v e hp)

/-- The counter of an entry is still 0 when the thread takes it out. -/
theorem CounterInv.remove_advance (h : CounterInv vOp P s) (hr : RefInv s) (hP : ∀ d, P d → 0 ≤ d)
    (hadv : s.advance k t alloc = some s') (u : Thread) (v : VnodeT Vnode OpVec) (e : Nat)
    (hp : s'.pc u = .unhookRemove v) (he : s'.sVnodeHooksHashTable v.vOp = some e) :
    s'.counter e = 0 := by
  rcases eq_or_ne u t with rfl | hu
  · obtain ⟨e', hp', hcounter⟩ := advance_remove hadv hp
    have htable : s'.sVnodeHooksHashTable = s.sVnodeHooksHashTable := by
      obtain htable | ⟨v, e₀, hp'', -⟩ | ⟨v, e₀, hp'', -⟩ := advance_table hadv
      · exact htable
      all_goals
        rw [hp'] at hp''
        cases hp''
    rw [htable] at he
    obtain he' | hnone := h.removes u v.vOp e' (by rw [hp']; rfl)
    · rw [he, Option.some.injEq] at he'
      subst he'
      rw [hcounter]
      exact h.checked u v e hp' he
    · rw [hnone] at he
      cases he
  · rw [advance_pc hadv hu] at hp
    exact h.zero_advance hr hP hadv hu (by rw [hp]; trivial) he (h.remove u v e hp)

/-- An entry that counts nothing has somebody who takes it out. -/
theorem CounterInv.removing_advance (h : CounterInv vOp P s)
    (hadv : s.advance k t alloc = some s') (he : s'.sVnodeHooksHashTable w = some e)
    (he₀ : s.sVnodeHooksHashTable w = some e) (hzero : s.counter e = 0) :
    ∃ u, (s'.pc u).Removing w := by
  obtain ⟨u, hu⟩ := h.zero w e he₀ hzero
  refine ⟨u, ?_⟩
  rcases eq_or_ne u t with rfl | hut
  · obtain hremoving | hnone | ⟨v, e', hp, rfl, hne⟩ := advance_removing hadv hu
    · exact hremoving
    · rw [hnone] at he
      cases he
    · obtain he' | hnone := h.removes u v.vOp e' (by rw [hp]; rfl)
      · rw [he₀, Option.some.injEq] at he'
        exact (hne (he' ▸ hzero)).elim
      · rw [hnone] at he₀
        cases he₀
  · rwa [advance_pc hadv hut]

/-- A counter that goes up is not 0. -/
theorem increment_ne_zero {c : Int32} (h : 0 ≤ c.toInt) (hmax : c ≠ Int32.maxValue) :
    c + 1 ≠ 0 := by
  intro hzero
  have htoInt := toInt_increment hmax
  rw [hzero, Int32.toInt_zero] at htoInt
  omega

/-- The step that makes an entry count nothing is that of the thread which takes it
out. -/
theorem CounterInv.zero_of_advance (h : CounterInv vOp P s) (hr : RefInv s)
    (hadv : s.advance k t alloc = some s') (hguard : Counted s (.advance t alloc))
    (hP : ∀ d, P d → 0 ≤ d) (he : s.sVnodeHooksHashTable w = some e) (hne : s.counter e ≠ 0)
    (hzero : s'.counter e = 0) : ∃ u, (s'.pc u).Removing w := by
  have hnonneg := h.nonneg hP he
  obtain ⟨hcounter, -⟩ | ⟨v, e₀, hp, hfree, hcounter, -⟩ | ⟨v, e₀, hp, -, he₀, hcounter, -⟩ |
    ⟨v, newEntry, e₀, hp, he₀, hcounter, -⟩ | ⟨v, e₀, hp, -, hcounter, -⟩ | ⟨v, -, hcounter, -⟩ |
    ⟨v, e₀, -, -, hcounter, -⟩ | ⟨v, e₀, hp, hlock, hcounter, -⟩ | ⟨v, e₀, -, -, hcounter, -⟩ :=
    advance_counters hadv
  -- a new entry was free, and this one is in the table
  case inr.inl =>
    have hne₀ : e ≠ e₀ := by
      rintro rfl
      exact hr.free hfree (.inr w) he
    rw [hcounter, Function.update_of_ne hne₀] at hzero
    exact (hne hzero).elim
  -- a counter that goes up from a value that is not negative does not become 0
  case inr.inr.inl =>
    rcases eq_or_ne e e₀ with rfl | hne₀
    · rw [Counted, hp] at hguard
      rw [hcounter, Function.update_self] at hzero
      exact (increment_ne_zero hnonneg (hguard e he₀) hzero).elim
    · rw [hcounter, Function.update_of_ne hne₀] at hzero
      exact (hne hzero).elim
  case inr.inr.inr.inl =>
    rcases eq_or_ne e e₀ with rfl | hne₀
    · rw [Counted, hp] at hguard
      rw [hcounter, Function.update_self] at hzero
      exact (increment_ne_zero hnonneg (hguard.1 e he₀) hzero).elim
    · rw [hcounter, Function.update_of_ne hne₀] at hzero
      exact (hne hzero).elim
  -- the entry that a thread puts into the table was not there
  case inr.inr.inr.inr.inl =>
    have hne₀ : e ≠ e₀ := by
      rintro rfl
      have := hr.fresh t e (by rw [hp]; exact rfl) (.inr w) he
      cases this
    rw [hcounter, Function.update_of_ne hne₀] at hzero
    exact (hne hzero).elim
  -- the decrement from 1 keeps the lock, and the thread goes on to remove the entry
  case inr.inr.inr.inr.inr.inr.inr.inl =>
    rcases eq_or_ne e e₀ with rfl | hne₀
    · rw [hcounter, Function.update_self] at hzero
      have hone : s.counter e = 1 := by
        have hdecrement := toInt_decrement (h.decrement_pos hP hp)
        rw [hzero, Int32.toInt_zero] at hdecrement
        exact Int32.toInt_inj.mp (by rw [Int32.toInt_one]; omega)
      refine ⟨t, ?_⟩
      rw [hlock hone]
      exact h.injective v.vOp w e (h.decrement t v e hp) he
    · rw [hcounter, Function.update_of_ne hne₀] at hzero
      exact (hne hzero).elim
  all_goals
    rw [hcounter] at hzero
    exact (hne hzero).elim

/-- A step of a call keeps the invariant, given what the surplus may be. -/
theorem CounterInv.advance (h : CounterInv vOp P s) (hr : RefInv s)
    (hadv : s.advance k t alloc = some s') (hguard : Counted s (.advance t alloc))
    (hP : ∀ d, P d → 0 ≤ d)
    (hloss : (∃ v, s.pc t = .hookRetrieve v ∧ s.sVnodeHooksHashTable v.vOp ≠ none) ∨
      (∃ v, s.pc t = .hookAddVnode v ∧ (alloc = none ∨ s.Records v.vnode)) →
      ∀ d, P d → P (d + 1)) : CounterInv vOp P s' where
  surplus := h.surplus_advance hr hadv hguard hP hloss
  own := h.own_advance hadv
  injective := h.injective_advance hr hadv
  fresh := h.fresh_advance hr hadv
  decrement := h.decrement_advance hP hadv hguard
  removes := h.removes_advance hr hadv hguard
  checked := h.checked_advance hr hP hadv
  remove := h.remove_advance hr hP hadv
  zero w e he hzero := by
    by_cases he₀ : s.sVnodeHooksHashTable w = some e
    · by_cases hzero₀ : s.counter e = 0
      · exact h.removing_advance hadv he he₀ hzero₀
      · exact h.zero_of_advance hr hadv hguard hP he₀ hzero₀ hzero
    -- the entry has just entered the table, with the vnode counted
    · obtain htable | ⟨v, e₀, hp, -, htable, hcounter⟩ | ⟨v, e₀, -, -, htable⟩ := advance_table hadv
      · rw [htable] at he
        exact (he₀ he).elim
      · rw [htable, Function.update_apply] at he
        split at he
        · cases he
          rw [hcounter, h.fresh t e (by rw [hp]; exact rfl)] at hzero
          exact absurd hzero (by decide)
        · exact (he₀ he).elim
      · rw [htable, Function.update_apply] at he
        split at he
        · cases he
        · exact (he₀ he).elim

end Invariant

end VfsRedirector.VNodeHook
