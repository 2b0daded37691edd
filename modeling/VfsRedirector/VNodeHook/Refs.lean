import VfsRedirector.VNodeHook.Steps

/-!
# VNodeHook: who has the lock and who has references

`RefInv` holds in every run. The thread in an exclusive region is the one that
has the lock; the `retainCount` of an entry is the number of references to it,
those of threads and the one of the table together, so an address that the
allocator delivers is one that nobody has; and nobody but its maker has a
reference to a fresh entry.

## Results

* `refs_new` — where a reference comes from.
* `RefInv.advance` — an operation keeps the invariant.
* `RefInv.reachable` — it holds in every state.
-/

namespace VfsRedirector.VNodeHook

open Library HookPc

variable {Thread Vnode OpVec : Type}

structure RefInv (s : Hooks Thread Vnode OpVec) : Prop where
  lock_iff : ∀ t, (s.pc t).Exclusive ↔ s.lock = some t
  counted : ∀ e, HasCard (fun r => s.refs r = some e) (s.counts e)
  fresh : ∀ t e, (s.pc t).Fresh e → ∀ r, s.refs r = some e → r = .inl t
  hooking : ∀ t v e descs, s.pc t = .hookLoop v e descs →
    ∀ r, s.refs r = some e → r = .inl t ∨ r = .inr v.vOp

variable {k : Kernel} {initialOps : OpVec → Nat → Nat}
variable {s s' : Hooks Thread Vnode OpVec} {t u : Thread} {e : Nat}

/-- The invariant holds before the first hooking. -/
theorem RefInv.initial :
    RefInv (Hooks.initial initialOps : Hooks Thread Vnode OpVec) := by
  have hnone : ∀ r, (Hooks.initial initialOps : Hooks Thread Vnode OpVec).refs r = none := by
    rintro (t | w) <;> rfl
  constructor
  case lock_iff =>
    intro t
    simp [Hooks.initial, Exclusive]
  case counted =>
    intro e
    refine HasCard.zero fun r hr => ?_
    rw [hnone] at hr
    cases hr
  case fresh =>
    intro t e h
    exact h.elim
  case hooking =>
    intro t v e descs h
    cases h

/-- Two threads are never in exclusive regions. -/
theorem RefInv.exclusive (hs : RefInv s) (ht : (s.pc t).Exclusive) (hu : (s.pc u).Exclusive) :
    t = u := by
  rw [hs.lock_iff] at ht hu
  rw [ht] at hu
  exact Option.some.inj hu

/-- An address that counts no references is one that nobody has. -/
theorem RefInv.free (hs : RefInv s) (he : s.counts e = 0) (r : Thread ⊕ OpVec) :
    s.refs r ≠ some e :=
  (hs.counted e).eq_zero_iff.mp he r

/-- A thread refers to the entry that it holds. -/
@[simp] theorem refs_inl : s.refs (.inl t) = (s.pc t).holds? := rfl

/-- A vector refers to the entry that the table has for it. -/
@[simp] theorem refs_inr (w : OpVec) : s.refs (.inr w) = s.sVnodeHooksHashTable w := rfl

variable [DecidableEq Thread] [DecidableEq OpVec]

/-- The references after a step of thread `t` that leaves the table alone. -/
theorem refs_thread (hpc : ∀ u, u ≠ t → s'.pc u = s.pc u)
    (htable : s'.sVnodeHooksHashTable = s.sVnodeHooksHashTable) :
    s'.refs = Function.update s.refs (.inl t) (s'.pc t).holds? := by
  funext r
  rcases r with u | w
  · rcases eq_or_ne u t with rfl | hu
    · rw [Function.update_self, refs_inl]
    · rw [Function.update_of_ne (by simpa using hu), refs_inl, refs_inl, hpc u hu]
  · rw [Function.update_of_ne (by simp), refs_inr, refs_inr, htable]

/-- The references after a step of thread `t` that changes the table at `w`. -/
theorem refs_table {w : OpVec} {x : Option Nat} (hpc : ∀ u, u ≠ t → s'.pc u = s.pc u)
    (htable : s'.sVnodeHooksHashTable = Function.update s.sVnodeHooksHashTable w x) :
    s'.refs = Function.update (Function.update s.refs (.inl t) (s'.pc t).holds?) (.inr w) x := by
  funext r
  rcases r with u | w'
  · rw [Function.update_of_ne (by simp)]
    rcases eq_or_ne u t with rfl | hu
    · rw [Function.update_self, refs_inl]
    · rw [Function.update_of_ne (by simpa using hu), refs_inl, refs_inl, hpc u hu]
  · rcases eq_or_ne w' w with rfl | hw
    · rw [Function.update_self, refs_inr, htable, Function.update_self]
    · rw [Function.update_of_ne (by simpa using hw), Function.update_of_ne (by simp), refs_inr,
        refs_inr, htable, Function.update_of_ne hw]

/-- A reference that a step brings about is one of the moving thread, to an
address nobody had or to an entry of the table, or that of the table to the
entry which the thread has made. -/
theorem refs_new {alloc : Option Nat} {r : Thread ⊕ OpVec} [DecidableEq Vnode]
    (h : s.advance k t alloc = some s') (hr : s'.refs r = some e) :
    s.refs r = some e ∨
    (r = .inl t ∧ (s.counts e = 0 ∨
      ((s.lock = none ∨ ∃ v, s.pc t = .unhookRemove v) ∧ ∃ w, s.refs (.inr w) = some e))) ∨
    (∃ v, r = .inr v.vOp ∧ s.pc t = .hookRecheck v e ∧
      s'.pc t = .hookLoop v e gQvrVnodeVopHookEntries) := by
  have hpc : ∀ u, u ≠ t → s'.pc u = s.pc u := fun u hu => advance_pc h hu
  rcases advance_refs h with ⟨hholds, htable, -⟩ | ⟨e₀, -, hholds, htable, -, hwhy⟩ |
    ⟨e₀, -, hholds, htable, -⟩ | ⟨v, e₀, hp, hp', -, htable, -⟩ | ⟨v, e₀, hp, hp', he₀, htable, -⟩
  · rw [refs_thread hpc htable, hholds, ← refs_inl, Function.update_eq_self] at hr
    exact .inl hr
  -- the thread took a reference, on memory that was free or on what the table has
  · rw [refs_thread hpc htable, hholds] at hr
    rcases eq_or_ne r (.inl t) with rfl | hrt
    · rw [Function.update_self, Option.some.injEq] at hr
      subst hr
      rcases hwhy with hfree | ⟨hlock, hw, -⟩
      · exact .inr (.inl ⟨rfl, .inl hfree⟩)
      · exact .inr (.inl ⟨rfl, .inr ⟨.inl hlock, hw⟩⟩)
    · rw [Function.update_of_ne hrt] at hr
      exact .inl hr
  -- the thread gave its reference back
  · rw [refs_thread hpc htable, hholds] at hr
    rcases eq_or_ne r (.inl t) with rfl | hrt
    · rw [Function.update_self] at hr
      cases hr
    · rw [Function.update_of_ne hrt] at hr
      exact .inl hr
  -- the table took a reference on the thread's new entry
  · rw [refs_table hpc htable] at hr
    rcases eq_or_ne r (.inr v.vOp) with rfl | hrw
    · rw [Function.update_self, Option.some.injEq] at hr
      subst hr
      exact .inr (.inr ⟨v, rfl, hp, hp'⟩)
    · have hsame : (s'.pc t).holds? = s.refs (.inl t) := by
        rw [hp', refs_inl, hp]
        rfl
      rw [Function.update_of_ne hrw, hsame, Function.update_eq_self] at hr
      exact .inl hr
  -- the reference of the table went to the thread that removed the entry
  · rw [refs_table hpc htable] at hr
    rcases eq_or_ne r (.inr v.vOp) with rfl | hrw
    · rw [Function.update_self] at hr
      cases hr
    · rw [Function.update_of_ne hrw] at hr
      rcases eq_or_ne r (.inl t) with rfl | hrt
      · rw [Function.update_self, hp'] at hr
        cases hr
        exact .inr (.inl ⟨rfl, .inr ⟨.inr ⟨v, hp⟩, v.vOp, he₀⟩⟩)
      · rw [Function.update_of_ne hrt] at hr
        exact .inl hr

/-- A thread that starts holds no entry. -/
theorem RefInv.start {p : HookPc Vnode OpVec} (hs : RefInv s) (hidle : s.pc t = .idle)
    (hp : p.Starting) : RefInv (s.goto t p) := by
  -- the place where a call starts has no lock and no entry
  have hquiet : ¬ p.Exclusive ∧ p.holds? = none ∧ (∀ e, ¬ p.Fresh e) ∧
      ∀ v e descs, p ≠ .hookLoop v e descs := by
    cases p <;> first | exact hp.elim | simp [Exclusive, holds?, Fresh]
  obtain ⟨hexclusive, hholds, hfresh, hloop⟩ := hquiet
  have hpc : ∀ u, u ≠ t → (s.goto t p).pc u = s.pc u := fun u hu => Function.update_of_ne hu _ _
  have hself : (s.goto t p).pc t = p := Function.update_self _ _ _
  have hrefs : (s.goto t p).refs = s.refs := by
    have hnone : ((s.goto t p).pc t).holds? = s.refs (.inl t) := by
      rw [hself, hholds, refs_inl, hidle]
      rfl
    rw [refs_thread hpc rfl, hnone, Function.update_eq_self]
  constructor
  case lock_iff =>
    intro u
    rw [show (s.goto t p).lock = s.lock from rfl, ← hs.lock_iff u]
    rcases eq_or_ne u t with rfl | hu
    · rw [hself, hidle]
      exact iff_of_false hexclusive id
    · rw [hpc u hu]
  case counted =>
    intro e
    rw [hrefs]
    exact hs.counted e
  case fresh =>
    intro u e hu r hr
    rw [hrefs] at hr
    rcases eq_or_ne u t with rfl | hut
    · rw [hself] at hu
      exact (hfresh e hu).elim
    · rw [hpc u hut] at hu
      exact hs.fresh u e hu r hr
  case hooking =>
    intro u v e descs hu r hr
    rw [hrefs] at hr
    rcases eq_or_ne u t with rfl | hut
    · rw [hself] at hu
      exact (hloop v e descs hu).elim
    · rw [hpc u hut] at hu
      exact hs.hooking u v e descs hu r hr

/-- The retain count of an entry stays the number of its references. -/
theorem RefInv.counted_advance {alloc : Option Nat} [DecidableEq Vnode] (hs : RefInv s)
    (h : s.advance k t alloc = some s') (e : Nat) :
    HasCard (fun r => s'.refs r = some e) (s'.counts e) := by
  have hpc : ∀ u, u ≠ t → s'.pc u = s.pc u := fun u hu => advance_pc h hu
  rcases advance_refs h with ⟨hholds, htable, hcounts⟩ | ⟨e₀, hnone, hholds, htable, hcounts, -⟩ |
    ⟨e₀, hsome, hholds, htable, hcounts⟩ | ⟨v, e₀, hp, hp', hv, htable, hcounts⟩ |
    ⟨v, e₀, hp, hp', hv, htable, hcounts⟩
  -- no reference changes hands
  · rw [refs_thread hpc htable, hholds, ← refs_inl, Function.update_eq_self, hcounts]
    exact hs.counted e
  · rw [refs_thread hpc htable, hholds, hcounts]
    exact HasCard.acquire hs.counted (refs_inl.trans hnone) e
  · rw [refs_thread hpc htable, hholds, hcounts]
    exact HasCard.drop hs.counted (refs_inl.trans hsome) e
  · have hsame : (s'.pc t).holds? = s.refs (.inl t) := by
      rw [hp', refs_inl, hp]
      rfl
    rw [refs_table hpc htable, hsame, Function.update_eq_self, hcounts]
    exact HasCard.acquire hs.counted ((refs_inr _).trans hv) e
  -- the table's reference becomes the thread's: one taken, one dropped
  · have hnone : s.refs (.inl t) = none := by
      rw [refs_inl, hp]
      rfl
    have htable₀ : Function.update s.refs (.inl t) (some e₀) (.inr v.vOp) = some e₀ := by
      rw [Function.update_of_ne (by simp), refs_inr, hv]
    have hmoved := HasCard.drop (HasCard.acquire hs.counted hnone) htable₀ e
    have hholds : (s'.pc t).holds? = some e₀ := by
      rw [hp']
      rfl
    rw [refs_table hpc htable, hholds, hcounts]
    simpa using hmoved

/-- The next operation of a thread keeps the invariant. -/
theorem RefInv.advance {alloc : Option Nat} [DecidableEq Vnode] (hs : RefInv s)
    (h : s.advance k t alloc = some s') : RefInv s' := by
  have hpc : ∀ u, u ≠ t → s'.pc u = s.pc u := fun u hu => advance_pc h hu
  constructor
  case lock_iff =>
    refine lock_iff_step (Q := fun u => (s'.pc u).Exclusive) hs.lock_iff (fun u hu => ?_)
      (advance_lock h)
    rw [hpc u hu]
  case counted =>
    exact hs.counted_advance h
  -- nobody comes to know another thread's new entry; the table does when its maker adds it
  case fresh =>
    intro u e hfresh r hr
    rcases eq_or_ne u t with rfl | hu
    · rcases refs_new h hr with hold | ⟨rfl, -⟩ | ⟨v, -, -, hp'⟩
      · rcases advance_fresh h hfresh with hfresh | hfree
        · exact hs.fresh u e hfresh r hold
        · exact (hs.free hfree r hold).elim
      · rfl
      · rw [hp'] at hfresh
        exact hfresh.elim
    · rw [hpc u hu] at hfresh
      have hu' : s.refs (.inl u) = some e := hfresh.holds
      rcases refs_new h hr with hold | ⟨-, hfree | ⟨-, w, hw⟩⟩ | ⟨v, -, hp, -⟩
      · exact hs.fresh u e hfresh r hold
      · exact (hs.free hfree _ hu').elim
      · cases hs.fresh u e hfresh _ hw
      · have ht : s.refs (.inl t) = some e := by
          rw [refs_inl, hp]
          rfl
        cases hs.fresh u e hfresh _ ht
        exact (hu rfl).elim
  -- while a thread hooks it has the lock exclusively, so others take no reference to its entry
  case hooking =>
    intro u v e descs hloop r hr
    rcases eq_or_ne u t with rfl | hu
    · rcases advance_hookLoop h hloop with ⟨desc, hp⟩ | ⟨hp, -⟩
      · rcases refs_new h hr with hold | ⟨rfl, -⟩ | ⟨v', -, hp', -⟩
        · exact hs.hooking u v e _ hp r hold
        · exact .inl rfl
        · rw [hp] at hp'
          cases hp'
      · rcases refs_new h hr with hold | ⟨rfl, -⟩ | ⟨v', rfl, hp', -⟩
        · have hfresh : (s.pc u).Fresh e := by
            rw [hp]
            exact rfl
          exact .inl (hs.fresh u e hfresh r hold)
        · exact .inl rfl
        · rw [hp] at hp'
          cases hp'
          exact .inr rfl
    · rw [hpc u hu] at hloop
      have hexclusive : (s.pc u).Exclusive := by
        rw [hloop]
        trivial
      rcases refs_new h hr with hold | ⟨-, hfree | ⟨hlock | ⟨v', hp⟩, -⟩⟩ | ⟨v', -, hp, -⟩
      · exact hs.hooking u v e descs hloop r hold
      · have hu' : s.refs (.inl u) = some e := by
          rw [refs_inl, hloop]
          rfl
        exact (hs.free hfree _ hu').elim
      · rw [hs.lock_iff, hlock] at hexclusive
        cases hexclusive
      · exact (hu (hs.exclusive hexclusive (by rw [hp]; trivial))).elim
      · exact (hu (hs.exclusive hexclusive (by rw [hp]; trivial))).elim

/-- The invariant holds in every state that can be reached. -/
theorem RefInv.reachable [DecidableEq Vnode] (h : Reachable (hookSystem k initialOps) s) :
    RefInv s := by
  refine ReachableBy.invariant (fun s hs => ?_) (fun s a s' hs _ hstep => ?_) h
  · cases hs
    exact .initial
  · rcases step_cases hstep with ⟨alloc, hadv⟩ | ⟨p, hidle, hp, rfl⟩
    · exact hs.advance hadv
    · exact hs.start hidle hp

end VfsRedirector.VNodeHook
