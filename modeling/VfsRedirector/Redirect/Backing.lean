import VfsRedirector.Redirect.Requests

/-!
# The backing vnode under several threads

`QvrGetBackingVnodeForRedirectedIO` looks for the entry of a vnode in
`InstanceForVnodeIO`, finds the file at the redirected path if there is none, and
adds an entry for it. These are three steps, and each is taken without regard to
what other threads did since the last one. `addVnodeIO` leaves an entry that it
finds, and returns nothing: the caller goes on with the vnode that it has.

Here any number of threads make such calls. What `vnode_lookup` finds is up to the
environment, as the file at the path can be renamed or replaced at any time. As long
as an entry is not removed, all calls return the same vnode in every run in which
what is to be added is what is there (`sameBacking`). A call for which it is not
returns what the entry is not, unless the entry changes (`differs_returned`).

## Results

* `obtainedInv_step` — what was obtained is what the map has, after a step.
* `differs_returned` — after a step that does not meet them a call has what the entry is
  not.
* `sameBacking` — in a run that meets the conditions all callers get one vnode.
-/

namespace VfsRedirector

open Library

/-- A call of `QvrGetBackingVnodeForRedirectedIO`. -/
structure BackingRequest (Vnode : Type) where
  vn : Vnode
  appData : ApplicationData
  forceUpdate : Bool

def BackingRequest.code {Vnode : Type} (r : BackingRequest Vnode) : Kernel Vnode (Option Vnode) :=
  qvrGetBackingVnodeForRedirectedIo r.vn r.appData r.forceUpdate

/-- The vnode and the backing vnode of a call of `addVnodeIO`. -/
def KernelOp.addedIo? {Vnode : Type} : KernelOp Vnode → Option (Vnode × Vnode)
  | .addVnodeIo vn vnodeIo => some (vn, vnodeIo)
  | _ => none

abbrev BackingThreads (Thread Vnode : Type) : Type :=
  Threads Thread (Shared Thread Vnode) (@KernelOp.Res Vnode) (BackingRequest Vnode) (Option Vnode)

abbrev BackingAction (Thread Vnode : Type) : Type :=
  ThreadAction Thread (BackingRequest Vnode) (Outcome Vnode) (MapEvent Vnode)

/-- The calls of all threads, and what the ones that are over have returned: the vnode
that they were for, and the backing vnode. -/
structure BackingCalls (Thread Vnode : Type) where
  threads : BackingThreads Thread Vnode
  returned : List (Vnode × Vnode)

section System

variable (Thread Vnode : Type) [DecidableEq Thread] [DecidableEq Vnode]

/-- There may be entries in the beginning. -/
def backingThreadSystem : System (BackingThreads Thread Vnode) (BackingAction Thread Vnode) :=
  threadSystem (fun _ => True) Shared.effect BackingRequest.code fun e s => e.apply s

variable {Thread Vnode}

namespace BackingCalls

abbrev map (s : BackingCalls Thread Vnode) : VNodeMap Vnode ApplicationData := s.threads.shared.map

/-- The call that a thread is about to make. -/
def nextCall (s : BackingCalls Thread Vnode) (t : Thread) : Option (KernelOp Vnode) :=
  (s.threads.stack t).head?.bind fun v => v.code.nextCall

/-- What an action returns to the caller. -/
def returns (s : BackingCalls Thread Vnode) : BackingAction Thread Vnode → List (Vnode × Vnode)
  | .finish t =>
    match s.threads.stack t with
    | ⟨r, .pure (some vnodeIo), _⟩ :: _ => [(r.vn, vnodeIo)]
    | _ => []
  | _ => []

def step (s : BackingCalls Thread Vnode) (a : BackingAction Thread Vnode) :
    Option (BackingCalls Thread Vnode) :=
  ((backingThreadSystem Thread Vnode).step s.threads a).map fun threads =>
    ⟨threads, s.returns a ++ s.returned⟩

end BackingCalls

variable (Thread Vnode)

def backingSystem : System (BackingCalls Thread Vnode) (BackingAction Thread Vnode) where
  init s := (∀ t, s.threads.stack t = []) ∧ s.returned = []
  step := BackingCalls.step

end System

variable {Thread Vnode : Type} [DecidableEq Thread] [DecidableEq Vnode]

/-- The entry of `vn` is not removed. -/
def KeepsEntry (vn : Vnode) (s : BackingCalls Thread Vnode) : BackingAction Thread Vnode → Prop
  | .call t _ => s.nextCall t = some (.removeVnodeIo vn) → s.map.getVnodeIo vn = none
  | .other e => (e.apply s.threads.shared).map.getVnodeIo vn = s.map.getVnodeIo vn
  | _ => True

/-- What is to be added for `vn` is what is there, or there is memory for the first entry. -/
def AddsSame (vn : Vnode) (s : BackingCalls Thread Vnode) : BackingAction Thread Vnode → Prop
  | .call t c => ∀ added ∈ (s.nextCall t).bind KernelOp.addedIo?, added.1 = vn →
      (s.map.getVnodeIo vn = none ∧ c.alloc = true) ∨ s.map.getVnodeIo vn = some added.2
  | _ => True

instance (vn : Vnode) (s : BackingCalls Thread Vnode) (a : BackingAction Thread Vnode) :
    Decidable (KeepsEntry vn s a) :=
  match a with
  | .call .. => inferInstanceAs (Decidable (_ → _))
  | .other _ => inferInstanceAs (Decidable (_ = _))
  | .start .. | .finish _ => inferInstanceAs (Decidable True)

instance (vn : Vnode) (s : BackingCalls Thread Vnode) (a : BackingAction Thread Vnode) :
    Decidable (AddsSame vn s a) :=
  match a with
  | .call .. => inferInstanceAs (Decidable (∀ _ ∈ _, _ → _))
  | .other _ | .start .. | .finish _ => inferInstanceAs (Decidable True)

/-- All calls for `vn` have returned its entry. -/
def SameBacking (vn : Vnode) (s : BackingCalls Thread Vnode) : Prop :=
  ∀ vnodeIo, (vn, vnodeIo) ∈ s.returned → s.map.getVnodeIo vn = some vnodeIo

-- ---------------------------------------------------------------------------
-- Where a backing vnode comes from
-- ---------------------------------------------------------------------------

/-- A call has found `vnodeIo` in the map, or has had it added. -/
def Obtained (vn vnodeIo : Vnode) (log : CallLog Vnode) : Prop :=
  ⟨.getVnodeIoRef vn, some vnodeIo⟩ ∈ log ∨ ⟨.addVnodeIo vn vnodeIo, ()⟩ ∈ log

/-- `r` is what a call has obtained so far. -/
def HasObtained (vn : Vnode) (r : Option Vnode) (log : CallLog Vnode) : Prop :=
  ∀ vnodeIo, Obtained vn vnodeIo log ↔ r = some vnodeIo

/-- The calls that neither find nor add an entry. -/
def KernelOp.ObtainsNone : KernelOp Vnode → Prop
  | .getVnodeIoRef _ | .addVnodeIo .. => False
  | _ => True

/-- Code that returns what it obtains, and adds entries for `vn` only. -/
abbrev Obtains (vn : Vnode) (p : Kernel Vnode (Option Vnode)) (log : CallLog Vnode) : Prop :=
  p.Always (fun _ o => ∀ added ∈ o.addedIo?, added.1 = vn) (fun _ _ _ => True)
    (HasObtained vn) log

section Code

variable {α : Type} {vn : Vnode} {r : Option Vnode} {log : CallLog Vnode}

open Prog

omit [DecidableEq Vnode] in
theorem KernelOp.Releasing.obtainsNone {o : KernelOp Vnode} (h : o.Releasing) : o.ObtainsNone := by
  cases o <;> trivial

omit [DecidableEq Vnode] in
theorem KernelOp.Caching.obtainsNone {o : KernelOp Vnode} (h : o.Caching) : o.ObtainsNone := by
  cases o <;> trivial

omit [DecidableEq Vnode] in
/-- What has been obtained is not changed by a call that obtains nothing. -/
theorem HasObtained.kept {o : KernelOp Vnode} (h : HasObtained vn r log) (ho : o.ObtainsNone)
    (result : o.Res) : HasObtained vn r (log ++ [⟨o, result⟩]) := by
  intro vnodeIo
  have hnot : ¬Obtained vn vnodeIo [⟨o, result⟩] := by
    unfold Obtained
    cases o <;> first | exact ho.elim | simp
  rw [← h vnodeIo]
  unfold Obtained at hnot ⊢
  simp only [List.mem_append]
  tauto

omit [DecidableEq Vnode] in
/-- What the first call of the map finds or adds. -/
theorem HasObtained.of_none {o : KernelOp Vnode} {result : o.Res} (h : HasObtained vn none log)
    (hcall : ∀ vnodeIo, Obtained vn vnodeIo [⟨o, result⟩] ↔ r = some vnodeIo) :
    HasObtained vn r (log ++ [⟨o, result⟩]) := by
  intro vnodeIo
  have hnot : ¬Obtained vn vnodeIo log := by simp [h vnodeIo]
  rw [← hcall vnodeIo]
  unfold Obtained at hnot ⊢
  simp only [List.mem_append]
  tauto

omit [DecidableEq Vnode] in
/-- Code that obtains nothing may come before the code that does. -/
theorem obtains_skip {p : Kernel Vnode α} {f : α → Kernel Vnode (Option Vnode)}
    (hp : p.Calls KernelOp.ObtainsNone) (h : HasObtained vn r log)
    (hf : ∀ a log, HasObtained vn r log → Obtains vn (f a) log) : Obtains vn (p >>= f) log := by
  refine Always.bind (Always.calls hp h (fun log o ho _ added hadded => ?_)
    fun log o result ho h _ => h.kept ho result) hf
  cases o <;> first | exact ho.elim | cases hadded

omit [DecidableEq Vnode] in
/-- A lookup of the backing vnode obtains what it enters in the map. -/
theorem obtains_lookupBackingVnode (vnodePath : List UInt8) (appData : ApplicationData)
    (h : HasObtained vn none log) : Obtains vn (lookupBackingVnode vn vnodePath appData) log := by
  refine obtains_skip ((releasing_convertToRedirectedPath _ _).mono
    fun _ => KernelOp.Releasing.obtainsNone) h fun converted log h => ?_
  obtain ⟨error, redirected⟩ := converted
  cases redirected with
  | none => exact h
  | some redirectedFilePath =>
    have hreleasing : (freePath (some redirectedFilePath) : Kernel Vnode Unit).Calls _ :=
      releasing_freePath _
    have hfree := hreleasing.mono fun _ => KernelOp.Releasing.obtainsNone
    refine obtains_skip (calls_inRecursiveCall trivial trivial (.perform trivial)) h
      fun found log h => ?_
    obtain ⟨error, backing⟩ := found
    dsimp only
    split
    · next _ _ backing =>
      -- the mark, the pages and the path come after the addition
      refine Always.call (by rintro added ⟨⟩; rfl) fun added _ => ?_
      have hadded : HasObtained vn (some backing) (log ++ [⟨.addVnodeIo vn backing, added⟩]) :=
        h.of_none fun vnodeIo => by simp [Obtained, eq_comm]
      refine obtains_skip (calls_inRecursiveCall trivial trivial ((calls_refillCache _ _).mono
        fun _ => KernelOp.Caching.obtainsNone)) hadded fun _ log h => ?_
      exact obtains_skip hfree h fun _ log h => h
    · exact obtains_skip hfree h fun _ log h => h

omit [DecidableEq Vnode] in
/-- The buffer of the path is freed at the end. -/
theorem obtains_findBackingVnode (appData : ApplicationData) (h : HasObtained vn none log) :
    Obtains vn (findBackingVnode vn appData) log := by
  refine obtains_skip (.perform trivial) h fun vnodePath log h => ?_
  cases vnodePath with
  | none => exact h
  | some vnodePath =>
    refine obtains_skip (.perform trivial) h fun found log h => ?_
    obtain ⟨error, path⟩ := found
    dsimp only
    split
    · refine Always.bind (obtains_lookupBackingVnode path appData h) fun r log h => ?_
      exact obtains_skip (.perform trivial) h fun _ log h => h
    · refine Always.bind (Q := HasObtained vn) (Always.pure h) fun r log h => ?_
      exact obtains_skip (.perform trivial) h fun _ log h => h

omit [DecidableEq Vnode] in
/-- A call returns the vnode of the entry that it has found or added. -/
theorem obtains_code (r : BackingRequest Vnode) : Obtains r.vn r.code [] := by
  have hnothing : HasObtained r.vn none [] := fun vnodeIo => by simp [Obtained]
  unfold BackingRequest.code qvrGetBackingVnodeForRedirectedIo
  refine obtains_skip (.perform trivial) hnothing fun type log h => ?_
  split
  · exact h
  · split
    · exact obtains_skip (.perform trivial) h fun _ log h => obtains_findBackingVnode r.appData h
    · refine Always.call (by rintro added ⟨⟩) fun found _ => ?_
      have hfound : HasObtained r.vn found (log ++ [⟨.getVnodeIoRef r.vn, found⟩]) :=
        h.of_none fun vnodeIo => by simp [Obtained, eq_comm]
      cases found with
      | some vnodeIo => exact hfound
      | none => exact obtains_findBackingVnode r.appData hfound

end Code

-- ---------------------------------------------------------------------------
-- The entry in a run
-- ---------------------------------------------------------------------------

section Runs

variable {s s' : BackingCalls Thread Vnode} {a : BackingAction Thread Vnode} {t : Thread}
  {vn vnodeIo : Vnode}

/-- A step of the callers is one of their threads, with what it returns. -/
theorem backing_threads_step (h : (backingSystem Thread Vnode).step s a = some s') :
    (backingThreadSystem Thread Vnode).step s.threads a = some s'.threads ∧
      s'.returned = s.returns a ++ s.returned := by
  obtain ⟨threads, hstep, rfl⟩ := Option.map_eq_some_iff.mp h
  exact ⟨hstep, rfl⟩

/-- An entry that is not removed stays as it is. -/
theorem effect_keeps {s : Shared Thread Vnode} {o : KernelOp Vnode} {c : Outcome Vnode}
    (hentry : s.map.getVnodeIo vn = some vnodeIo) (ho : o ≠ .removeVnodeIo vn) :
    (Shared.effect t s o c).1.map.getVnodeIo vn = some vnodeIo := by
  cases o with
  -- adding over an entry keeps the entry
  | addVnodeIo vn' b =>
    show (s.map.addVnodeIo vn' b c.alloc).1.getVnodeIo vn = some vnodeIo
    rcases eq_or_ne vn vn' with rfl | hvn
    · rw [VNodeMap.getVnodeIo_addVnodeIo_self, hentry]
      simp
    · rw [(VNodeMap.addVnodeIO_other hvn).vnodeIo]
      exact hentry
  | removeVnodeIo vn' =>
    have hvn : vn ≠ vn' := fun heq => ho (heq ▸ rfl)
    show (s.map.removeVnodeIo vn').1.getVnodeIo vn = some vnodeIo
    rw [VNodeMap.getVnodeIO_removeVnodeIo, if_neg hvn]
    exact hentry
  | addVnodeShadowReverse shadow vn' =>
    show (s.map.addVnodeShadowReverse shadow vn' c.alloc).1.getVnodeIo vn = some vnodeIo
    rw [VNodeMap.getVnodeIO_addVnodeShadowReverse]
    exact hentry
  | removeShadowReverse shadow =>
    show (s.map.removeShadowReverse shadow).1.getVnodeIo vn = some vnodeIo
    rw [VNodeMap.getVnodeIO_removeShadowReverse]
    exact hentry
  | _ => exact hentry

/-- A step that meets the condition leaves the entry of the vnode as it is. -/
theorem entry_kept (hstep : (backingSystem Thread Vnode).step s a = some s')
    (hkeeps : KeepsEntry vn s a) (hentry : s.map.getVnodeIo vn = some vnodeIo) :
    s'.map.getVnodeIo vn = some vnodeIo := by
  obtain ⟨hthreads, -⟩ := backing_threads_step hstep
  unfold BackingCalls.map
  obtain ⟨u, request, rfl, hs'⟩ | ⟨u, c, request, o, k, log, stack, rfl, hstack, hs'⟩ |
    ⟨u, request, x, log, stack, rfl, hstack, hs'⟩ | ⟨e, rfl, hs'⟩ :=
    threadSystem_step_cases hthreads
  · rw [hs']
    exact hentry
  · rw [hs', Threads.set_shared]
    refine effect_keeps hentry fun ho => ?_
    have hnext : s.nextCall u = some (.removeVnodeIo vn) := by
      unfold BackingCalls.nextCall
      rw [hstack, ← ho]
      rfl
    have hnone := hkeeps hnext
    rw [hentry] at hnone
    cases hnone
  · rw [hs']
    exact hentry
  · rw [hs']
    exact (hkeeps : _ = _).trans hentry

/-- What a call has obtained is the entry. -/
def ObtainedInv (vn : Vnode) (s : BackingCalls Thread Vnode) : Prop :=
  ∀ t, ∀ v ∈ s.threads.stack t, ∀ vnodeIo, Obtained vn vnodeIo v.log →
    s.map.getVnodeIo vn = some vnodeIo

/-- A call of the map that obtains something has the entry then. -/
theorem entry_of_call {s : BackingCalls Thread Vnode} {c : Outcome Vnode}
    {request : BackingRequest Vnode} {o : KernelOp Vnode}
    {k : o.Res → Kernel Vnode (Option Vnode)} {log : CallLog Vnode}
    {stack : List (Invocation (@KernelOp.Res Vnode) (BackingRequest Vnode) (Option Vnode))}
    (hstack : s.threads.stack t = ⟨request, .call o k, log⟩ :: stack)
    (hadds : AddsSame vn s (.call t c))
    (h : Obtained vn vnodeIo [⟨o, (Shared.effect t s.threads.shared o c).2⟩]) :
    (Shared.effect t s.threads.shared o c).1.map.getVnodeIo vn = some vnodeIo := by
  unfold Obtained at h
  rw [List.mem_singleton, List.mem_singleton, Sigma.mk.injEq, Sigma.mk.injEq] at h
  obtain ⟨rfl, hr⟩ | ⟨rfl, -⟩ := h
  · exact (eq_of_heq hr).symm
  · show (s.map.addVnodeIo vn vnodeIo c.alloc).1.getVnodeIo vn = some vnodeIo
    have hnext : (s.nextCall t).bind KernelOp.addedIo? = some (vn, vnodeIo) := by
      unfold BackingCalls.nextCall
      rw [hstack]
      rfl
    rw [VNodeMap.getVnodeIo_addVnodeIo_self]
    obtain ⟨hnone, halloc⟩ | hentry := hadds (vn, vnodeIo) hnext rfl
    · rw [if_pos ⟨halloc, hnone⟩]
    · rw [hentry]
      simp

/-- Whoever has obtained a backing vnode has obtained that of the entry. -/
theorem obtainedInv_step (hinv : ObtainedInv vn s) (hkeeps : KeepsEntry vn s a)
    (hadds : AddsSame vn s a) (hstep : (backingSystem Thread Vnode).step s a = some s') :
    ObtainedInv vn s' := by
  intro t v hv b hobtained
  obtain ⟨hthreads, -⟩ := backing_threads_step hstep
  obtain hold | ⟨request, rfl, rfl⟩ | ⟨c, request, o, k, log, stack, rfl, hstack, rfl⟩ :=
    mem_stack_step hthreads hv
  · exact entry_kept hstep hkeeps (hinv t v hold b hobtained)
  · exact absurd hobtained (by simp [Obtained])
  -- obtained before, or by the call that returns now
  · have hsplit : Obtained vn b log ∨
        Obtained vn b [⟨o, (Shared.effect t s.threads.shared o c).2⟩] := by
      unfold Obtained at hobtained ⊢
      simp only [List.mem_append] at hobtained
      tauto
    obtain hlog | hcall := hsplit
    · have htop := hinv t ⟨request, .call o k, log⟩ (hstack ▸ List.mem_cons_self) b hlog
      exact entry_kept hstep hkeeps htop
    -- what was just obtained is what the map has
    · have hentry := entry_of_call hstack hadds hcall
      obtain ⟨u, r, ha, -⟩ | ⟨u, c', request', o', k', log', stack', ha, hstack', hs'⟩ |
        ⟨u, r, x, l, st, ha, -⟩ | ⟨e, ha, -⟩ := threadSystem_step_cases hthreads
      · cases ha
      · cases ha
        rw [hstack] at hstack'
        cases hstack'
        unfold BackingCalls.map
        rw [hs', Threads.set_shared]
        exact hentry
      · cases ha
      · cases ha

/-- In every run the code of a caller obtains what its calls say. -/
theorem obtains_of_reachable
    {ok : BackingCalls Thread Vnode → BackingAction Thread Vnode → Prop}
    (h : ReachableBy (backingSystem Thread Vnode) ok s) :
    ∀ t, ∀ v ∈ s.threads.stack t, Obtains v.request.vn v.code v.log := by
  have hinit : ∀ s, (backingSystem Thread Vnode).init s →
      (backingThreadSystem Thread Vnode).init s.threads := fun s hs => ⟨trivial, hs.1⟩
  have hthreads : Reachable (backingThreadSystem Thread Vnode) s.threads :=
    h.map hinit fun s a s' _ _ hstep => .inr ⟨a, trivial, (backing_threads_step hstep).1⟩
  exact hthreads.always (P := fun request _ o => ∀ added ∈ o.addedIo?, added.1 = request.vn)
    (G := fun _ _ _ _ => True)
    (Q := fun request => HasObtained request.vn)
    (fun request => obtains_code request) fun _ _ _ _ _ _ _ _ _ _ => trivial

/-- All that have returned a backing vnode of `vn` have returned the same. -/
theorem sameBacking_step (hinv : ObtainedInv vn s) (hsame : SameBacking vn s)
    (hobtains : ∀ t, ∀ v ∈ s.threads.stack t, Obtains v.request.vn v.code v.log)
    (hkeeps : KeepsEntry vn s a) (hstep : (backingSystem Thread Vnode).step s a = some s') :
    SameBacking vn s' := by
  intro b hreturned
  rw [(backing_threads_step hstep).2, List.mem_append] at hreturned
  obtain hnew | hold := hreturned
  · -- the call that is over has obtained what it returns
    refine entry_kept hstep hkeeps ?_
    unfold BackingCalls.returns at hnew
    split at hnew
    · next t =>
      split at hnew
      · next r x log stack hstack =>
        rw [List.mem_singleton] at hnew
        cases hnew
        have hmem : ⟨r, .pure (some b), log⟩ ∈ s.threads.stack t := hstack ▸ List.mem_cons_self
        exact hinv t _ hmem b ((hobtains t _ hmem b).mpr rfl)
      · cases hnew
    · cases hnew
  · exact entry_kept hstep hkeeps (hsame b hold)

/-- **All calls return the entry** that the vnode has, in every run in which the entry is not
removed and what is to be added is what is there. -/
theorem sameBacking (h : ReachableBy (backingSystem Thread Vnode)
    (fun s a => KeepsEntry vn s a ∧ AddsSame vn s a) s) : SameBacking vn s := by
  have hinit : ∀ s, (backingSystem Thread Vnode).init s → ObtainedInv vn s ∧ SameBacking vn s := by
    rintro s ⟨hstack, hreturned⟩
    refine ⟨fun t v hv => ?_, fun b hb => ?_⟩
    · rw [hstack t] at hv
      cases hv
    · rw [hreturned] at hb
      cases hb
  exact (h.invariant_of (fun s hs => obtains_of_reachable hs) hinit
    fun s a s' hinv hobtains _ hok hstep => ⟨obtainedInv_step hinv.1 hok.1 hok.2 hstep,
      sameBacking_step hinv.1 hinv.2 hobtains hok.1 hstep⟩).2

/-- A call that has had an entry added, or has tried to, returns that vnode. -/
theorem returns_obtained
    {ok : BackingCalls Thread Vnode → BackingAction Thread Vnode → Prop}
    (h : ReachableBy (backingSystem Thread Vnode) ok s)
    {v : Invocation (@KernelOp.Res Vnode) (BackingRequest Vnode) (Option Vnode)}
    (hv : v ∈ s.threads.stack t) (hobtained : Obtained v.request.vn vnodeIo v.log)
    {r : Option Vnode} (hend : v.code = .pure r) : r = some vnodeIo := by
  have hcode := obtains_of_reachable h t v hv
  rw [hend] at hcode
  exact (hcode vnodeIo).mp hobtained

/-- A step that does not meet the condition has a call obtain what the entry is not: the
condition leaves out nothing else. -/
theorem differs_returned
    {ok : BackingCalls Thread Vnode → BackingAction Thread Vnode → Prop}
    (h : ReachableBy (backingSystem Thread Vnode) ok s) (hdiffers : ¬AddsSame vn s a)
    (hstep : (backingSystem Thread Vnode).step s a = some s') :
    ∃ t vnodeIo, ∃ v ∈ s'.threads.stack t, v.request.vn = vn ∧ Obtained vn vnodeIo v.log ∧
      s'.map.getVnodeIo vn ≠ some vnodeIo := by
  cases a with
  | call t c =>
    unfold AddsSame at hdiffers
    push Not at hdiffers
    obtain ⟨⟨vn', vnodeIo⟩, hadded, hvn, hmemory, hentry⟩ := hdiffers
    obtain rfl : vn' = vn := hvn
    obtain ⟨u, r, ha, -⟩ | ⟨u, c', request, o, k, log, stack, ha, hstack, hs'⟩ |
      ⟨u, r, x, l, st, ha, -⟩ | ⟨e, ha, -⟩ := threadSystem_step_cases (backing_threads_step hstep).1
    · cases ha
    · cases ha
      have hcode := obtains_of_reachable h t ⟨request, .call o k, log⟩ (hstack ▸ List.mem_cons_self)
      unfold BackingCalls.nextCall at hadded
      rw [hstack] at hadded
      -- the vnode that is added is the one the request is for
      have hrequest : vn' = request.vn := hcode.1 _ hadded
      cases o <;> cases hadded
      refine ⟨t, vnodeIo, ⟨request, k (), log ++ [⟨.addVnodeIo vn' vnodeIo, ()⟩]⟩, ?_,
        hrequest.symm, .inr (List.mem_append_right _ List.mem_cons_self), ?_⟩
      · rw [hs', Threads.set_stack_self]
        exact List.mem_cons_self
      · unfold BackingCalls.map
        rw [hs', Threads.set_shared]
        show (s.map.addVnodeIo vn' vnodeIo c.alloc).1.getVnodeIo vn' ≠ some vnodeIo
        rw [VNodeMap.getVnodeIo_addVnodeIo_self]
        split
        · next hall => exact absurd hall.1 (hmemory hall.2)
        · exact hentry
    · cases ha
    · cases ha
  | _ => exact (hdiffers trivial).elim

end Runs

-- ---------------------------------------------------------------------------
-- Two threads
-- ---------------------------------------------------------------------------

namespace TwoReaders

def idle : BackingCalls Bool Nat := ⟨⟨⟨.empty, .empty⟩, fun _ => []⟩, []⟩

/-- Every call succeeds, and `backing` is at the redirected path. -/
def finding (backing : Nat) : Outcome Nat where
  result
    | .vnodeLookup .. => (0, some backing)
    | .vnGetpath _ => (0, [47, 100])
    | o => Ledger.success [] o
  alloc := true

def request : BackingRequest Nat := ⟨3, ⟨[47, 114], true⟩, false⟩

/-- Both threads have found no entry; then one finds file 5 at the path. -/
def started (backing : Nat) : List (BackingAction Bool Nat) :=
  [.start false request, .start true request] ++ List.replicate 2 (.call false (finding 5)) ++
  List.replicate 2 (.call true (finding 5)) ++ List.replicate 14 (.call false (finding 5)) ++
  [.finish false] ++ List.replicate 14 (.call true (finding backing)) ++ [.finish true]

/-- The runs of two threads begin with none of them in a call. -/
theorem init_idle : (backingSystem Bool Nat).init idle := ⟨fun _ => rfl, rfl⟩

end TwoReaders

open TwoReaders in
/-- Both find the same file. -/
theorem sameBacking_readers : ∃ s : BackingCalls Bool Nat,
    s.returned = [(3, 5), (3, 5)] ∧ SameBacking 3 s := by
  have hallowed : allowed (backingSystem Bool Nat)
      (fun s a => decide (KeepsEntry 3 s a ∧ AddsSame 3 s a)) idle (started 5) = true := by
    decide +kernel
  have hrun : ((exec (backingSystem Bool Nat) idle (started 5)).any fun s =>
      s.returned = [(3, 5), (3, 5)]) = true := by decide +kernel
  rw [Option.any_eq_true] at hrun
  obtain ⟨s, hexec, hfacts⟩ := hrun
  have hreach : ReachableBy (backingSystem Bool Nat)
      (fun s a => KeepsEntry 3 s a ∧ AddsSame 3 s a) s :=
    ReachableBy.execBy (fun _ _ h => of_decide_eq_true h) (.init init_idle) (started 5) hallowed
      hexec
  exact ⟨s, of_decide_eq_true hfacts, sameBacking hreach⟩

open TwoReaders in
/-- The file is replaced between the lookups: the second reader goes on with file 6. -/
theorem sameBacking_fails : ¬ ∀ (vn : Nat) (s : BackingCalls Bool Nat),
    ReachableBy (backingSystem Bool Nat) (KeepsEntry vn) s → SameBacking vn s := by
  intro h
  have hallowed : allowed (backingSystem Bool Nat) (fun s a => decide (KeepsEntry 3 s a)) idle
      (started 6) = true := by decide +kernel
  have hrun : ((exec (backingSystem Bool Nat) idle (started 6)).any fun s =>
      s.returned = [(3, 6), (3, 5)] ∧ s.map.getVnodeIo 3 = some 5) = true := by decide +kernel
  rw [Option.any_eq_true] at hrun
  obtain ⟨s, hexec, hfacts⟩ := hrun
  obtain ⟨hreturned, hentry⟩ := of_decide_eq_true hfacts
  have hreach : ReachableBy (backingSystem Bool Nat) (KeepsEntry 3) s :=
    ReachableBy.execBy (fun _ _ h => of_decide_eq_true h) (.init init_idle) (started 6) hallowed
      hexec
  have hsame := h 3 s hreach 6 (by rw [hreturned]; exact List.mem_cons_self)
  rw [hentry] at hsame
  cases hsame

end VfsRedirector
