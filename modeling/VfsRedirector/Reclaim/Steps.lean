import VfsRedirector.VNodeHook.Vectors
import VfsRedirector.Reclaim.Model

/-!
# Reclaim: what one step can do

A step moves one thread, outside of the functions of VNodeHook or inside. The
lemmas say what it does to the lives and the iocounts (`outer_step`), to the
thread inside VNodeHook (`inner_step`) and to the maps (`maps_step`).

## Results

* `outer_step` — what a step does to the threads that reclaim and to the lives of the
  vnodes.
* `inner_step` — what it does inside VNodeHook.
* `maps_step` — what it does to the maps.
* `reclaimHooked_advance` — a hooked vector stays hooked until its entry is taken out.
-/

namespace VfsRedirector.VNodeHook

open HookPc

variable {Thread Vnode OpVec : Type}

/-- The vector has an entry in the table and the hook in its reclaim slot. -/
def Hooks.ReclaimHooked (k : VNodeHook.Kernel) (s : Hooks Thread Vnode OpVec) (w : OpVec) : Prop :=
  s.sVnodeHooksHashTable w ≠ none ∧
    s.slots w (k.vnopOffset .reclaim) = .hook .qvrFsdReclaimHookEx2

instance (k : VNodeHook.Kernel) (s : Hooks Thread Vnode OpVec) (w : OpVec) :
    Decidable (s.ReclaimHooked k w) := inferInstanceAs (Decidable (_ ∧ _))

variable [DecidableEq Thread] [DecidableEq Vnode] [DecidableEq OpVec]
variable {k : VNodeHook.Kernel} {initialOps : OpVec → Nat → Nat} {s s' : Hooks Thread Vnode OpVec}
variable {t : Thread} {alloc : Option Nat} {w : OpVec}

/-- A vector has its entry until that is taken out of the table. -/
theorem entry_advance (h : s.advance k t alloc = some s')
    (hw : s.sVnodeHooksHashTable w ≠ none)
    (hremove : ∀ v, s.pc t = .unhookRemove v → v.vOp ≠ w) : s'.sVnodeHooksHashTable w ≠ none := by
  rcases advance_refs h with ⟨-, htable, -⟩ | ⟨e, -, -, htable, -⟩ | ⟨e, -, -, htable, -⟩ |
    ⟨v, e, -, -, -, htable, -⟩ | ⟨v, e, hp, -, -, htable, -⟩
  · rwa [htable]
  · rwa [htable]
  · rwa [htable]
  · rw [htable]
    rcases eq_or_ne w v.vOp with rfl | hne
    · simp
    · rwa [Function.update_of_ne hne]
  · rw [htable, Function.update_of_ne (hremove v hp).symm]
    exact hw

/-- A vector whose reclamations are hooked stays so until its entry is taken
out of the table. -/
theorem reclaimHooked_advance (hs : VectorInv k initialOps s)
    (h : s.advance k t alloc = some s') (hw : s.ReclaimHooked k w)
    (hremove : ∀ v, s.pc t = .unhookRemove v → v.vOp ≠ w) : s'.ReclaimHooked k w := by
  refine ⟨entry_advance h hw.1 hremove, ?_⟩
  have hslot := hw.2
  rcases advance_vectors h with ⟨hsame, -, -⟩ | ⟨v, e, -, -, -, hslots, -⟩ |
    ⟨v, e, -, -, -, hslots, -⟩ | ⟨v, e, desc, descs, hp, rfl⟩ |
    ⟨v, e, -, -, -, hslots, -⟩ | ⟨v, e, desc, descs, hp, rfl⟩
  · rwa [hsame.slots]
  · rwa [hslots]
  · rwa [hslots]
  -- a loop step may write the slot again, with the same hook
  · obtain ⟨hooked, happend, -⟩ := hs.hooking t v e _ hp
    obtain ⟨hmem, -⟩ := not_mem_of_split happend
    rw [hookSlot_listed hmem]
    simp only [Hooks.goto, Hooks.writeSlot, Hooks.modifyEntry]
    rcases eq_or_ne w v.vOp with rfl | hne
    · rw [Function.update_self, Function.update_apply]
      split
      · rename_i heq
        rw [reclaim_listed desc hmem (k.vnopOffset_injective heq.symm)]
      · exact hslot
    · rwa [Function.update_of_ne hne]
  · rwa [hslots]
  -- the vector that is being restored has no entry, so it is another
  · obtain ⟨⟨restored, happend⟩, htable, -, hsave⟩ := hs.unhooking t v e _ hp
    obtain ⟨hmem, -⟩ := not_mem_of_split happend
    have hne : w ≠ v.vOp := fun heq => hw.1 (heq ▸ htable)
    rw [unhookSlot_saved hmem hsave]
    simpa [Hooks.goto, Hooks.writeSlot, hne] using hslot

end VfsRedirector.VNodeHook

namespace VfsRedirector.Reclaim

open Library VNodeHook

variable {Thread Vnode OpVec App : Type}

namespace ReclaimPc

/-- The vnode on which the thread has an iocount for a call. -/
def holds? : ReclaimPc Vnode → Option Vnode
  | .hook v | .unhookParent _ v => some v
  | _ => none

/-- The vnode that the thread is reclaiming. -/
def reclaims? : ReclaimPc Vnode → Option Vnode
  | .getOriginal v | .unhook v | .unhookParent v _ | .removeVnodeAppData v | .removeVnodeIo v
  | .removeShadowReverse v | .origVnop v => some v
  | .idle | .hook _ => none

end ReclaimPc

open ReclaimPc

variable [DecidableEq Thread] [DecidableEq Vnode] [DecidableEq OpVec]
variable {k : VNodeHook.Kernel} {s s' : Vnodes Thread Vnode OpVec App}
variable {a : VnodeAction Thread Vnode OpVec App} {t u : Thread}

/-- What a step does to the iocounts and to the lives of vnodes: a thread moves
and does nothing to them, takes or drops an iocount, starts or ends the
reclamation of a vnode; or no thread moves. -/
inductive OuterStep (k : VNodeHook.Kernel) (s s' : Vnodes Thread Vnode OpVec App) : Prop
  | stay (t : Thread) (hother : ∀ u, u ≠ t → s'.pc u = s.pc u)
      (hholds : (s'.pc t).holds? = (s.pc t).holds?)
      (hreclaims : (s'.pc t).reclaims? = (s.pc t).reclaims?) (hlife : s'.life = s.life)
      (hiocount : s'.iocount = s.iocount) (harg : s'.arg = s.arg)
  | get (t : Thread) (hother : ∀ u, u ≠ t → s'.pc u = s.pc u) (v : Vnode)
      (hnone : (s.pc t).holds? = none) (hholds : (s'.pc t).holds? = some v)
      (hreclaims : (s'.pc t).reclaims? = (s.pc t).reclaims?) (hlive : s.life v = .live)
      (hlife : s'.life = s.life)
      (hiocount : s'.iocount = Function.update s.iocount v (s.iocount v + 1))
      (harg : s'.arg = s.arg)
  | put (t : Thread) (hother : ∀ u, u ≠ t → s'.pc u = s.pc u) (v : Vnode)
      (hsome : (s.pc t).holds? = some v) (hholds : (s'.pc t).holds? = none)
      (hreclaims : (s'.pc t).reclaims? = (s.pc t).reclaims?) (hlife : s'.life = s.life)
      (hiocount : s'.iocount = Function.update s.iocount v (s.iocount v - 1))
      (harg : s'.arg = s.arg)
  | reclaim (t : Thread) (hother : ∀ u, u ≠ t → s'.pc u = s.pc u) (v : Vnode)
      (hidle : s.pc t = .idle) (hp : s'.pc t = .getOriginal v)
      (hlive : s.life v = .live) (hzero : s.iocount v = 0)
      (hlife : s'.life = Function.update s.life v .reclaiming) (hiocount : s'.iocount = s.iocount)
      (harg : s'.arg = s.arg)
  | finish (t : Thread) (hother : ∀ u, u ≠ t → s'.pc u = s.pc u) (v : Vnode)
      (hp : s.pc t = .origVnop v) (hidle : s'.pc t = .idle)
      (hlife : s'.life = Function.update s.life v .reclaimed) (hiocount : s'.iocount = s.iocount)
      (harg : s'.arg = s.arg)
  | maps (hpc : s'.pc = s.pc) (hlife : s'.life = s.life) (hiocount : s'.iocount = s.iocount)
      (harg : s'.arg = s.arg)
  | lose (v : Vnode) (hpc : s'.pc = s.pc) (hlive : s.life v = .live)
      (hzero : s.iocount v = 0)
      (hslot : s.hooks.slots (s.vOp v) (k.vnopOffset .reclaim) ≠ .hook .qvrFsdReclaimHookEx2)
      (hlife : s'.life = Function.update s.life v .reclaimed)
      (hiocount : s'.iocount = s.iocount) (harg : s'.arg = s.arg)
  | recycle (v : Vnode) (hpc : s'.pc = s.pc) (hreclaimed : s.life v = .reclaimed)
      (hlife : s'.life = Function.update s.life v .live) (hiocount : s'.iocount = s.iocount)
      (harg : ∀ u, u ≠ v → s'.arg u = s.arg u)

/-- A call of VNodeHook is a step there, and changes nothing else. -/
theorem callHooks_eq {b : VNodeHook.HookAction Thread Vnode OpVec}
    (h : s.callHooks k b = some s') : ∃ hooks, s.hooks.step k b = some hooks ∧
      s' = { s with hooks := hooks } := by
  unfold Vnodes.callHooks at h
  rw [Option.map_eq_some_iff] at h
  obtain ⟨hooks, hstep, rfl⟩ := h
  exact ⟨hooks, hstep, rfl⟩

omit [DecidableEq Vnode] [DecidableEq OpVec] in
/-- A thread that goes on leaves the others where they are. -/
theorem goto_other {p : ReclaimPc Vnode} (u : Thread) (hu : u ≠ t) :
    (s.goto t p).pc u = s.pc u :=
  Function.update_of_ne hu _ _

/-- The next operation of a thread is one of the outer steps. -/
theorem advance_outer {parent : Option Vnode} (h : s.advance k t parent = some s') :
    OuterStep k s s' := by
  unfold Vnodes.advance at h
  cases hp : s.pc t with
  | idle =>
    rw [hp] at h
    cases h
  | hook v =>
    rw [hp] at h
    cases h
    refine .put t goto_other v ?_ ?_ ?_ rfl rfl rfl <;>
      simp [Vnodes.goto, hp, holds?, reclaims?]
  -- the start of a call holds no vnode
  | getOriginal v =>
    rw [hp] at h
    obtain ⟨hooks, -, rfl⟩ := callHooks_eq h
    refine .stay t goto_other ?_ ?_ rfl rfl rfl <;>
      simp [Vnodes.goto, hp, holds?, reclaims?]
  | unhook v =>
    rw [hp] at h
    cases parent with
    | none =>
      cases h
      refine .stay t goto_other ?_ ?_ rfl rfl rfl <;>
        simp [Vnodes.goto, hp, holds?, reclaims?]
    -- vnode_getparent: an iocount on a live vnode
    | some parent =>
      simp only at h
      split at h
      · rename_i hlive
        obtain ⟨hooks, -, rfl⟩ := callHooks_eq h
        refine .get t goto_other parent ?_ ?_ ?_ hlive rfl rfl rfl <;>
          simp [Vnodes.goto, hp, holds?, reclaims?]
      · cases h
  | unhookParent v parent =>
    rw [hp] at h
    cases h
    refine .put t goto_other parent ?_ ?_ ?_ rfl rfl rfl <;>
      simp [Vnodes.goto, hp, holds?, reclaims?]
  -- the original reclaim hook has run; the vnode is reclaimed
  | origVnop v =>
    rw [hp] at h
    cases h
    refine .finish t goto_other v hp ?_ rfl rfl rfl
    simp [Vnodes.goto]
  | _ =>
    rw [hp] at h
    cases h
    refine .stay t goto_other ?_ ?_ rfl rfl rfl <;>
      simp [Vnodes.goto, hp, holds?, reclaims?]

/-- The next operation of a thread moves no other one. -/
theorem advance_other {parent : Option Vnode} (h : s.advance k t parent = some s') (hu : u ≠ t) :
    s'.pc u = s.pc u := by
  revert h
  fun_cases Vnodes.advance k s t parent <;> intro h
  all_goals first
    | cases h
      exact goto_other u hu
    | obtain ⟨hooks, -, rfl⟩ := callHooks_eq h
      exact goto_other u hu
    | cases h

/-- Every step is one of the outer steps. -/
theorem outer_step (h : s.step k a = some s') : OuterStep k s s' := by
  cases a with
  | advance t parent =>
    simp only [Vnodes.step] at h
    split at h
    · exact advance_outer h
    · cases h
  | inner t alloc =>
    obtain ⟨hooks, -, rfl⟩ := callHooks_eq h
    exact .maps rfl rfl rfl rfl
  -- a hook on a live vnode takes an iocount on it
  | hook t v isRecycled =>
    simp only [Vnodes.step] at h
    split at h
    · rename_i hidle
      obtain ⟨hooks, -, rfl⟩ := callHooks_eq h
      refine .get t goto_other v ?_ ?_ ?_ hidle.2 rfl rfl rfl <;>
        simp [Vnodes.goto, hidle.1, holds?, reclaims?]
    · cases h
  | reclaim t v =>
    simp only [Vnodes.step] at h
    split at h
    · rename_i hidle
      -- the kernel reclaims only a live vnode without iocounts
      obtain ⟨hpc, hlive, hzero⟩ := hidle
      split at h
      · obtain ⟨hooks, -, rfl⟩ := callHooks_eq h
        exact .reclaim t goto_other v hpc (by simp [Vnodes.goto]) hlive hzero rfl rfl rfl
      · cases h
        exact .lose v rfl hlive hzero ‹_› rfl rfl rfl
    · cases h
  | recycle v vOp vtype =>
    simp only [Vnodes.step] at h
    split at h <;> cases h
    rename_i hreclaimed
    refine .recycle v rfl hreclaimed rfl rfl fun u hu => ?_
    simp [Vnodes.arg, hu]
  -- calls on the maps, of hooks that are not modelled in their steps
  | _ =>
    simp only [Vnodes.step] at h
    split at h <;> cases h
    exact .maps rfl rfl rfl rfl

/-- How an action begins a call of a function of VNodeHook. -/
inductive Call (s' : Vnodes Thread Vnode OpVec App) (t : Thread) : HookPc Vnode OpVec → Prop
  | none (v : Vnode) (hp : s'.pc t = .hook v) : Call s' t .idle
  | hook (v : Vnode) (hp : s'.pc t = .hook v) (hreg : s'.vtype v = .vreg) :
      Call s' t (.hookRetrieve (s'.arg v))
  | getOriginal (v : Vnode) (indx : QvrVopEnum) (hp : s'.pc t = .getOriginal v) :
      Call s' t (.getRetrieve (s'.arg v) indx)
  | unhook (v : Vnode) (hp : s'.pc t = .unhook v) : Call s' t (.unhookTest (s'.arg v))
  | unhookParent (v parent : Vnode) (hp : s'.pc t = .unhookParent v parent) :
      Call s' t (.unhookTest (s'.arg parent))

/-- What a step does inside VNodeHook: it is a step of a thread there, the start
of a call by a thread that was not there, or nothing. A thread that is there
does not move outside. -/
theorem inner_step (h : s.step k a = some s') :
    (∃ t alloc, a = .inner t alloc ∧ s.hooks.advance k t alloc = some s'.hooks ∧
      s' = { s with hooks := s'.hooks }) ∨
    (∃ t p, s.hooks.pc t = .idle ∧ Call s' t p ∧ s'.hooks = s.hooks.goto t p ∧
      ∀ u, u ≠ t → s'.pc u = s.pc u) ∨
    (s'.hooks = s.hooks ∧
      ∀ u, (s.hooks.pc u = .idle ∧ ∀ v, s'.pc u ≠ .unhook v) ∨ s'.pc u = s.pc u) := by
  cases a with
  | inner t alloc =>
    obtain ⟨hooks, hadv, rfl⟩ := callHooks_eq h
    exact .inl ⟨t, alloc, rfl, hadv, rfl⟩
  | hook t v isRecycled =>
    simp only [Vnodes.step] at h
    split at h
    · obtain ⟨hooks, hcall, rfl⟩ := callHooks_eq h
      obtain ⟨hidle, rfl | ⟨hreg, rfl⟩⟩ := step_hook hcall
      · exact .inr (.inl ⟨t, _, hidle, .none v (by simp [Vnodes.goto]), rfl, goto_other⟩)
      · exact .inr (.inl ⟨t, _, hidle, .hook v (by simp [Vnodes.goto]) hreg, rfl, goto_other⟩)
    · cases h
  | advance t parent =>
    simp only [Vnodes.step] at h
    split at h
    · rename_i hidle
      -- a step of the hooks around the calls, without a call
      have hmoved : ∀ {s₁ : Vnodes Thread Vnode OpVec App}, (∀ u, u ≠ t → s₁.pc u = s.pc u) →
          (∀ v, s₁.pc t ≠ .unhook v) →
          ∀ u, (s.hooks.pc u = .idle ∧ ∀ v, s₁.pc u ≠ .unhook v) ∨ s₁.pc u = s.pc u := by
        intro s₁ hother hnot u
        rcases eq_or_ne u t with rfl | hu
        · exact .inl ⟨hidle, hnot⟩
        · exact .inr (hother u hu)
      unfold Vnodes.advance at h
      cases hp : s.pc t with
      | idle =>
        rw [hp] at h
        cases h
      -- the vnode is unhooked in a call of its own
      | getOriginal v =>
        rw [hp] at h
        obtain ⟨hooks, hcall, rfl⟩ := callHooks_eq h
        obtain ⟨-, rfl⟩ := step_unhook hcall
        exact .inr (.inl ⟨t, _, hidle, .unhook v (by simp [Vnodes.goto]), rfl, goto_other⟩)
      | unhook v =>
        rw [hp] at h
        cases parent with
        | none =>
          cases h
          exact .inr (.inr ⟨rfl, hmoved goto_other (by simp [Vnodes.goto])⟩)
        -- the parent was found live, and a call unhooks it
        | some parent =>
          simp only at h
          split at h
          · obtain ⟨hooks, hcall, rfl⟩ := callHooks_eq h
            obtain ⟨-, rfl⟩ := step_unhook hcall
            exact .inr (.inl ⟨t, _, hidle, .unhookParent v parent (by simp [Vnodes.goto]), rfl,
              goto_other⟩)
          · cases h
      | _ =>
        rw [hp] at h
        cases h
        exact .inr (.inr ⟨rfl, hmoved goto_other (by simp [Vnodes.goto])⟩)
    · cases h
  | reclaim t v =>
    simp only [Vnodes.step] at h
    split at h
    · split at h
      · obtain ⟨hooks, hcall, rfl⟩ := callHooks_eq h
        obtain ⟨hidle, rfl⟩ := step_getOriginal hcall
        exact .inr (.inl ⟨t, _, hidle, .getOriginal v .reclaim (by simp [Vnodes.goto]), rfl,
          goto_other⟩)
      · cases h
        exact .inr (.inr ⟨rfl, fun u => .inr rfl⟩)
    · cases h
  | _ =>
    simp only [Vnodes.step] at h
    split at h <;> cases h
    exact .inr (.inr ⟨rfl, fun u => .inr rfl⟩)

/-- What a step does to the maps: nothing; add an entry for a live vnode; or
remove, in a reclamation, what one of them has for the vnode. -/
theorem maps_step (h : s.step k a = some s') :
    s'.maps = s.maps ∨
    (∃ v data alloc, a = .addVnodeAppData v data alloc ∧ s.life v = .live ∧
      s' = { s with maps := s.maps.addVnodeAppData v data alloc }) ∨
    (∃ v vnodeIo alloc, a = .addVnodeIo v vnodeIo alloc ∧ s.life v = .live ∧
      s' = { s with maps := (s.maps.addVnodeIo v vnodeIo alloc).1 }) ∨
    (∃ vnodeShadow v alloc, a = .addVnodeShadowReverse vnodeShadow v alloc ∧
      s.life vnodeShadow = .live ∧
      s' = { s with maps := (s.maps.addVnodeShadowReverse vnodeShadow v alloc).1 }) ∨
    (∃ t v, s.pc t = .removeVnodeAppData v ∧
      s' = { s.goto t (.removeVnodeIo v) with maps := s.maps.removeVnodeAppData v }) ∨
    (∃ t v, s.pc t = .removeVnodeIo v ∧
      s' = { s.goto t (.removeShadowReverse v) with maps := (s.maps.removeVnodeIo v).1 }) ∨
    (∃ t v, s.pc t = .removeShadowReverse v ∧
      s' = { s.goto t (.origVnop v) with maps := (s.maps.removeShadowReverse v).1 }) := by
  cases a with
  -- a step of a hooking call leaves the four maps
  | inner t alloc =>
    obtain ⟨hooks, -, rfl⟩ := callHooks_eq h
    exact .inl rfl
  | hook t v isRecycled =>
    simp only [Vnodes.step] at h
    split at h
    · obtain ⟨hooks, -, rfl⟩ := callHooks_eq h
      exact .inl rfl
    · cases h
  | reclaim t v =>
    simp only [Vnodes.step] at h
    split at h
    · split at h
      · obtain ⟨hooks, -, rfl⟩ := callHooks_eq h
        exact .inl rfl
      · cases h
        exact .inl rfl
    · cases h
  | recycle v vOp vtype =>
    simp only [Vnodes.step] at h
    split at h <;> cases h
    exact .inl rfl
  | addVnodeAppData v data alloc =>
    simp only [Vnodes.step] at h
    split at h <;> cases h
    exact .inr (.inl ⟨v, data, alloc, rfl, ‹_›, rfl⟩)
  | addVnodeIo v vnodeIo alloc =>
    simp only [Vnodes.step] at h
    split at h <;> cases h
    exact .inr (.inr (.inl ⟨v, vnodeIo, alloc, rfl, ‹_›, rfl⟩))
  | addVnodeShadowReverse vnodeShadow v alloc =>
    simp only [Vnodes.step] at h
    split at h <;> cases h
    exact .inr (.inr (.inr (.inl ⟨vnodeShadow, v, alloc, rfl, ‹_›, rfl⟩)))
  -- the reclaim hook removes from one map after the other
  | advance t parent =>
    simp only [Vnodes.step] at h
    split at h
    · unfold Vnodes.advance at h
      cases hp : s.pc t <;> rw [hp] at h
      case idle => cases h
      case getOriginal v =>
        obtain ⟨hooks, -, rfl⟩ := callHooks_eq h
        exact .inl rfl
      case unhook v =>
        cases parent with
        | none =>
          cases h
          exact .inl rfl
        | some parent =>
          simp only at h
          split at h
          · obtain ⟨hooks, -, rfl⟩ := callHooks_eq h
            exact .inl rfl
          · cases h
      case removeVnodeAppData v =>
        cases h
        exact .inr (.inr (.inr (.inr (.inl ⟨t, v, hp, rfl⟩))))
      case removeVnodeIo v =>
        cases h
        exact .inr (.inr (.inr (.inr (.inr (.inl ⟨t, v, hp, rfl⟩)))))
      case removeShadowReverse v =>
        cases h
        exact .inr (.inr (.inr (.inr (.inr (.inr ⟨t, v, hp, rfl⟩)))))
      all_goals
        cases h
        exact .inl rfl
    · cases h

end VfsRedirector.Reclaim
