import VfsRedirector.Redirect.Given

/-!
# The reverse entries of lookup and create

An entry of `InstanceForShadowToVnode` has an iocount on the original vnode, and
getattr on the shadow file goes to the original one as long as it is there. The
lookup hook adds it when the shadow file has been found or created, before the
redirected path is converted, the daemon is called and the backing vnode is
looked up; no path out of the hook removes it again. The create hook adds it
when the backing vnode is there.

A lookup adds one entry at most (`registersOnce_lookup`), and a create adds none
if it does not give the shadow vnode (`given_create`), so what a hook leaves in
the map can be read off the calls that it has made.

## Results

* `given_create` — a create registers only what it gives.
* `registersOnce_lookup` — a lookup registers once, or not at all.
* `reverse_kept` — when the reverse entries are as before.
-/

namespace VfsRedirector

open Library Prog Kernel

variable {Vnode : Type}

/-- A request for which the hook can put a shadow vnode in `*a_vpp`. -/
inductive ShadowRequest where
  | lookup
  | create
  deriving DecidableEq

def ShadowRequest.run [DecidableEq Vnode] (ctx : VfsContext) (dvp : Vnode) (cnp : Componentname) :
    ShadowRequest → Kernel Vnode (Int × Option Vnode)
  | .lookup => qvrVnopLookupHookEx2 ctx dvp cnp
  | .create => qvrVnopCreateHookEx2 ctx dvp cnp

/-- The hook has put the shadow vnode in `*a_vpp`. -/
def PutsShadow (log : Log (@KernelOp.Res Vnode)) (cnp : Componentname)
    (r : Int × Option Vnode) : Prop :=
  ∃ shadow, r.2 = some shadow ∧ IsShadowVnode log (shadowCopy cnp.cn_pnbuf) shadow

def reverseEntry : (Σ o : KernelOp Vnode, o.Res) → Option (Vnode × Vnode)
  | ⟨.addVnodeShadowReverse vnodeShadow vn, _⟩ => some (vnodeShadow, vn)
  | _ => none

/-- The entries that the calls were to add. -/
def reverseEntries (log : Log (@KernelOp.Res Vnode)) : List (Vnode × Vnode) :=
  log.filterMap reverseEntry

/-- The entries are those of the calls of `addVnodeShadowReverse`. -/
theorem mem_reverseEntries {log : Log (@KernelOp.Res Vnode)} {shadow original : Vnode} :
    (shadow, original) ∈ reverseEntries log ↔
      ⟨.addVnodeShadowReverse shadow original, ()⟩ ∈ log := by
  unfold reverseEntries
  rw [List.mem_filterMap]
  constructor
  · rintro ⟨⟨o, r⟩, hcall, he⟩
    cases o <;> cases he
    exact hcall
  · intro hcall
    exact ⟨_, hcall, rfl⟩

def KernelOp.KeepsReverse : KernelOp Vnode → Prop
  | .addVnodeShadowReverse .. | .removeShadowReverse _ => False
  | _ => True

/-- Whether there is memory for a reverse entry; all else is as it comes. -/
def ReverseAlloc (alloc : Bool) : KernelOp Vnode → Outcome Vnode → Prop
  | .addVnodeShadowReverse .., c => c.alloc = alloc
  | _, _ => True

variable [DecidableEq Vnode] {alloc : Bool}

-- ---------------------------------------------------------------------------
-- What a call of `addVnodeShadowReverse` changes
-- ---------------------------------------------------------------------------

section Add

variable {m m' : VNodeMap Vnode ApplicationData} {shadow original : Vnode}

/-- The entry is there already, or cannot be added. -/
def VNodeMap.HasReverse (m : VNodeMap Vnode ApplicationData) (alloc : Bool)
    (shadow original : Vnode) : Prop :=
  m.getVnodeShadowReverse shadow = some original ∨
    (m.getVnodeShadowReverse shadow = none ∧ alloc = false)

/-- What a call does to the reverse map depends on that map only. -/
theorem addVnodeShadowReverse_congr
    (h : m.instanceForShadowToVnode = m'.instanceForShadowToVnode) :
    (m.addVnodeShadowReverse shadow original alloc).1.instanceForShadowToVnode =
      (m'.addVnodeShadowReverse shadow original alloc).1.instanceForShadowToVnode := by
  have hget : m.getVnodeShadowReverse shadow = m'.getVnodeShadowReverse shadow := by
    rw [VNodeMap.getVnodeShadowReverse, h, VNodeMap.getVnodeShadowReverse]
  unfold VNodeMap.addVnodeShadowReverse
  rw [hget, h]
  cases hreverse : m'.getVnodeShadowReverse shadow with
  | none => rfl
  | some current =>
    dsimp only
    split
    · rfl
    · exact h

/-- A call for an entry changes nothing just if the entry is there, or there is none and no memory.
-/
theorem addVnodeShadowReverse_same_iff :
    (m.addVnodeShadowReverse shadow original alloc).1.instanceForShadowToVnode =
      m.instanceForShadowToVnode ↔ m.HasReverse alloc shadow original := by
  unfold VNodeMap.HasReverse VNodeMap.addVnodeShadowReverse
  cases hreverse : m.getVnodeShadowReverse shadow with
  -- no entry: it is made unless memory is short
  | none =>
    cases alloc with
    | false => simp [DataMap.addDataByKey]
    | true =>
      constructor
      · intro hsame
        have hget : (m.instanceForShadowToVnode.addDataByKey shadow original true).1.getDataByKey
            shadow = m.getVnodeShadowReverse shadow := congrArg (·.getDataByKey shadow) hsame
        rw [hreverse] at hget
        simp at hget
      · rintro (h | ⟨-, h⟩) <;> cases h
  -- an entry of another vnode is replaced, or lost where memory is short
  | some current =>
    by_cases hcurrent : original = current
    · simp [hcurrent]
    · have hne : ¬(some current = some original ∨ some current = none ∧ alloc = false) := by
        simp [Ne.symm hcurrent]
      refine iff_of_false (fun hsame => ?_) hne
      dsimp only at hsame
      rw [if_pos hcurrent] at hsame
      have hget : (((m.instanceForShadowToVnode.removeKey shadow).addDataByKey shadow original
          alloc).1).getDataByKey shadow ≠ some current := by
        cases alloc with
        | false => simp
        | true => simpa using hcurrent
      exact hget ((congrArg (·.getDataByKey shadow) hsame).trans hreverse)

end Add

-- ---------------------------------------------------------------------------
-- At most one entry
-- ---------------------------------------------------------------------------

variable {m : VNodeMap Vnode ApplicationData} {α β : Type}

/-- What a program does to the log and to the entries. -/
abbrev Registers (alloc : Bool) (pre : Logged Vnode → Prop) (p : Kernel Vnode α)
    (post : α → Logged Vnode → Prop) : Prop :=
  Triple (logged Ledger.effect) (ReverseAlloc alloc) pre p post

def Unregistered (m : VNodeMap Vnode ApplicationData) (s : Logged Vnode) : Prop :=
  reverseEntries s.2 = [] ∧
    s.1.map.instanceForShadowToVnode = m.instanceForShadowToVnode

/-- One call has been made for an entry. -/
def Registered (m : VNodeMap Vnode ApplicationData) (alloc : Bool) (s : Logged Vnode) : Prop :=
  ∃ shadow original, reverseEntries s.2 = [(shadow, original)] ∧
    s.1.map.instanceForShadowToVnode =
      (m.addVnodeShadowReverse shadow original alloc).1.instanceForShadowToVnode

/-- One call has been made for an entry, or none. -/
def RegistersOnce (m : VNodeMap Vnode ApplicationData) (alloc : Bool) (s : Logged Vnode) : Prop :=
  Unregistered m s ∨ Registered m alloc s

/-- The other calls of lookup and create leave the reverse map as it is. -/
theorem instanceForShadowToVnode_keeps (s : Ledger Vnode) {o : KernelOp Vnode} (c : Outcome Vnode)
    (h : o.KeepsReverse) : (Ledger.effect s o c).1.map.instanceForShadowToVnode =
      s.map.instanceForShadowToVnode := by
  cases o with
  | ioMalloc size =>
    rw [Ledger.effect]
    split <;> rfl
  | addVnodeIo vn vnodeIo =>
    show (s.map.addVnodeIo vn vnodeIo c.alloc).1.instanceForShadowToVnode = _
    unfold VNodeMap.addVnodeIo
    split <;> rfl
  | removeVnodeIo vn =>
    show (s.map.removeVnodeIo vn).1.instanceForShadowToVnode = _
    unfold VNodeMap.removeVnodeIo
    split <;> rfl
  | addVnodeShadowReverse | removeShadowReverse => exact h.elim
  | _ => rfl

/-- A program that makes no call for an entry. -/
theorem registers_keeps {p : Kernel Vnode α} (hp : p.Calls KernelOp.KeepsReverse)
    (L : List (Vnode × Vnode)) (M : DataMap Vnode Vnode) :
    Registers alloc (fun s => reverseEntries s.2 = L ∧ s.1.map.instanceForShadowToVnode = M) p
      fun _ s => reverseEntries s.2 = L ∧ s.1.map.instanceForShadowToVnode = M := by
  refine hp.triple fun s o c ho hs => ⟨?_, ?_⟩
  · have hnone : reverseEntry ⟨o, (Ledger.effect s.1 o c).2⟩ = none := by
      cases o <;> first | rfl | exact ho.elim
    show List.filterMap reverseEntry (s.2 ++ [⟨o, (Ledger.effect s.1 o c).2⟩]) = L
    rw [List.filterMap_append, List.filterMap_cons_none hnone, List.filterMap_nil, List.append_nil]
    exact hs.1
  · exact (instanceForShadowToVnode_keeps s.1 c ho).trans hs.2

/-- Code without a call for an entry leaves none behind it. -/
theorem keeps_unregistered {p : Kernel Vnode α} (hp : p.Calls KernelOp.KeepsReverse) :
    Registers alloc (Unregistered m) p fun _ => Unregistered m :=
  registers_keeps hp _ _

/-- Code without a call for an entry does not take back one that was made. -/
theorem keeps_registered {p : Kernel Vnode α} (hp : p.Calls KernelOp.KeepsReverse) :
    Registers alloc (Registered m alloc) p fun _ => Registered m alloc := by
  rintro s a s' ⟨shadow, original, hs⟩ hrun
  exact ⟨shadow, original, registers_keeps hp _ _ s a s' hs hrun⟩

/-- Code without a call for an entry leaves at most one entry at most one. -/
theorem keeps_registersOnce {p : Kernel Vnode α} (hp : p.Calls KernelOp.KeepsReverse) :
    Registers alloc (RegistersOnce m alloc) p fun _ => RegistersOnce m alloc :=
  fun s a s' hs hrun => hs.imp (fun h => keeps_unregistered hp s a s' h hrun)
    fun h => keeps_registered hp s a s' h hrun

/-- The call makes the one entry. -/
theorem registers_addVnodeShadowReverse (shadow original : Vnode) :
    Registers alloc (Unregistered m) (addVnodeShadowReverse shadow original)
      fun _ => Registered m alloc := by
  refine .perform fun s c hc hs => ⟨shadow, original, ?_, ?_⟩
  · show List.filterMap reverseEntry (s.2 ++ [⟨.addVnodeShadowReverse shadow original, ()⟩]) = _
    rw [List.filterMap_append]
    exact congrArg (· ++ [(shadow, original)]) hs.1
  · show (s.1.map.addVnodeShadowReverse shadow original c.alloc).1.instanceForShadowToVnode = _
    rw [show c.alloc = alloc from hc]
    exact addVnodeShadowReverse_congr hs.2

-- ---------------------------------------------------------------------------
-- The lookup hook
-- ---------------------------------------------------------------------------

omit [DecidableEq Vnode] in
/-- To release vnodes and buffers changes no reverse entry. -/
theorem keepsReverse_releasing {p : Kernel Vnode α} (hp : p.Calls KernelOp.Releasing) :
    p.Calls KernelOp.KeepsReverse :=
  hp.mono fun o ho => by cases o <;> trivial

omit [DecidableEq Vnode] in
/-- To connect a vnode with its backing vnode changes no reverse entry. -/
theorem keepsReverse_connecting {p : Kernel Vnode α} (hp : p.Calls KernelOp.Connecting) :
    p.Calls KernelOp.KeepsReverse :=
  hp.mono fun o ho => by cases o <;> trivial

/-- The entry is made unless there was an error. -/
theorem registersOnce_connectReverse (error : Int) (shadow original : Vnode) :
    Registers alloc (Unregistered m) (connectReverse error shadow original)
      fun _ => RegistersOnce m alloc := by
  rw [connectReverse]
  split
  · exact (registers_addVnodeShadowReverse shadow original).weaken fun _ _ => .inr
  · exact .pure fun _ => .inl

/-- Whether the shadow file is found or opened, one entry is made at most. -/
theorem registersOnce_openShadowFile (shadowPath : List UInt8) (original : Vnode) :
    Registers alloc (Unregistered m) (openShadowFile shadowPath original)
      fun _ => RegistersOnce m alloc := by
  -- whichever way the file was opened, it is registered last
  have hafter : ∀ (error : Int) (shadow : Vnode) (r : Int × Option Vnode × Bool),
      Registers alloc (Unregistered m) (do
        connectReverse error shadow original
        Pure.pure r) fun _ => RegistersOnce m alloc :=
    fun error shadow r => .bind (registersOnce_connectReverse error shadow original) fun _ =>
      .pure fun _ hs => hs
  refine .bind (keeps_unregistered (.perform trivial)) fun r => ?_
  obtain ⟨error, found⟩ := r
  dsimp only
  split
  · exact hafter _ _ _
  · refine .bind (keeps_unregistered (.perform trivial)) fun r => ?_
    obtain ⟨error, opened⟩ := r
    dsimp only
    split
    · next shadow =>
      have hinit : (initShadowFile original shadow).Calls KernelOp.KeepsReverse := by
        refine .bind (.perform trivial) fun _ => .bind (.perform trivial) fun _ => ?_
        split
        · exact .pure
        · exact (calls_equalizeFileSizes ..).mono fun o ho => by
            cases o <;> trivial
      exact .bind (keeps_unregistered hinit) fun error => hafter error shadow _
    · exact .pure fun _ => .inl

/-- The entry is made before the steps that may fail, which do not take it back. -/
theorem registersOnce_lookupShadow (appData : ApplicationData) (cnp : Componentname)
    (original : Vnode) :
    Registers alloc (Unregistered m) (lookupShadow appData cnp original)
      fun _ => RegistersOnce m alloc := by
  refine .bind (keeps_unregistered (.perform trivial)) fun _ =>
    .bind (keeps_unregistered (.perform trivial)) fun _ =>
    .bind (keeps_unregistered (keepsReverse_releasing (releasing_convertToShadowCopyPath _)))
      fun r => ?_
  obtain ⟨error, shadowPath⟩ := r
  dsimp only
  split
  · exact .pure fun _ => .inl
  · refine .bind (keeps_unregistered (keepsReverse_releasing
      (releasing_convertToShadowCopyPath _))) fun r => ?_
    obtain ⟨error, shadowName⟩ := r
    split
    · exact .pure fun _ => .inl
    -- the shadow file is opened and registered in one recursive call
    · have hopen : ∀ path, Registers alloc (Unregistered m)
          (inRecursiveCall .currentThread (openShadowFile path original))
          fun _ => RegistersOnce m alloc :=
        fun path => .bind (keeps_unregistered (.perform trivial)) fun _ =>
          .bind (registersOnce_openShadowFile path original) fun _ =>
          .bind (keeps_registersOnce (.perform trivial)) fun _ => .pure fun _ hs => hs
      refine .bind (hopen _) fun r => ?_
      obtain ⟨error, shadow, daemon⟩ := r
      split
      · refine .bind (keeps_registersOnce (keepsReverse_connecting
          (connecting_connectShadowFile ..))) fun result => ?_
        split <;> exact .pure fun _ hs => hs
      · exact .pure fun _ hs => hs

/-- The original lookup before it makes none. -/
theorem registersOnce_lookupRedirectIo (appData : ApplicationData) (dvp : Vnode)
    (cnp : Componentname) :
    Registers alloc (Unregistered m) (lookupRedirectIo appData dvp cnp)
      fun _ => RegistersOnce m alloc := by
  refine .bind (keeps_unregistered (calls_inRecursiveCall trivial trivial (.perform trivial)))
    fun r => ?_
  obtain ⟨error, a_vpp⟩ := r
  dsimp only
  split
  · refine .bind (keeps_unregistered (.perform trivial)) fun appDataVnode => ?_
    split
    · exact .pure fun _ => .inl
    · refine .bind (keeps_unregistered (.perform trivial)) fun type => ?_
      split
      · exact .pure fun _ => .inl
      · refine .bind (keeps_unregistered (.perform trivial)) fun isControlledFile => ?_
        split
        · exact registersOnce_lookupShadow appData cnp _
        · exact .pure fun _ => .inl
  · exact .pure fun _ => .inl

omit [DecidableEq Vnode] in
/-- The redirected vnode in place of the original one gets no entry. -/
theorem keepsReverse_mergeLookups (appData : ApplicationData) (l : LookupLocals Vnode)
    (found : Int × Option Vnode) :
    (mergeLookups appData l found).Calls KernelOp.KeepsReverse := by
  rw [mergeLookups.eq_def]
  split
  · exact .bind (keepsReverse_releasing (releasing_putIfAny _)) fun _ =>
      .bind (.perform trivial) fun _ => .pure
  · split <;> exact .pure
  · split
    · exact .pure
    · split <;> exact .pure

omit [DecidableEq Vnode] in
/-- Path redirection makes no entry. -/
theorem keepsReverse_lookupRedirectPath (appData : ApplicationData) (dvp : Vnode)
    (cnp : Componentname) (l : LookupLocals Vnode) :
    (lookupRedirectPath appData dvp cnp l).Calls KernelOp.KeepsReverse := by
  refine .bind (keepsReverse_releasing (releasing_convertToRedirectedPath ..)) fun r => ?_
  obtain ⟨error, path⟩ := r
  dsimp only
  split
  · exact .pure
  · refine .bind (.perform trivial) fun _ =>
      .bind (calls_inRecursiveCall trivial trivial (.perform trivial)) fun r => ?_
    obtain ⟨error, a_vpp⟩ := r
    refine .bind ?_ fun isRegular => ?_
    · rw [isRegularOrNone.eq_def]
      split
      · exact .bind (.perform trivial) fun _ => .pure
      · exact .pure
    · split
      · exact .bind (calls_inRecursiveCall trivial trivial (.perform trivial)) fun _ =>
          keepsReverse_mergeLookups ..
      · exact .pure

/-- A lookup that is redirected makes one entry at most, whichever way it took. -/
theorem registersOnce_lookupRedirected (createNew openExisting : ApplicationData) (dvp : Vnode)
    (cnp : Componentname) :
    Registers alloc (Unregistered m) (lookupRedirected createNew openExisting dvp cnp)
      fun _ => RegistersOnce m alloc := by
  have hexit : ∀ l : LookupLocals Vnode, Registers alloc (RegistersOnce m alloc)
      (lookupExit cnp l) fun _ => RegistersOnce m alloc :=
    fun l => keeps_registersOnce (keepsReverse_releasing (releasing_lookupExit cnp l))
  have hrest : ∀ r : Bool × LookupLocals Vnode, Registers alloc (RegistersOnce m alloc)
      (cond r.1 (Pure.pure r.2 >>= lookupExit cnp)
        (lookupRedirectPath openExisting dvp cnp r.2 >>= lookupExit cnp))
      fun _ => RegistersOnce m alloc := by
    rintro ⟨done, l⟩
    cases done with
    | true => exact .bind (.pure fun _ hs => hs) fun _ => hexit _
    | false =>
      exact .bind (keeps_registersOnce (keepsReverse_lookupRedirectPath ..)) fun _ => hexit _
  unfold lookupRedirected
  split
  · exact .bind (registersOnce_lookupRedirectIo createNew dvp cnp) hrest
  · exact .bind (.pure fun _ => .inl) hrest

omit [DecidableEq Vnode] in
/-- The gate makes no entry. -/
theorem keepsReverse_isRecursiveCallOrUserClient :
    (isRecursiveCallOrUserClient : Kernel Vnode Bool).Calls KernelOp.KeepsReverse := by
  refine .bind (.perform trivial) fun cookie => ?_
  split
  · exact .pure
  · exact .perform trivial

omit [DecidableEq Vnode] in
/-- A lookup that is passed on makes no entry. -/
theorem keepsReverse_lookupOriginal (dvp : Vnode) (cnp : Componentname) :
    (lookupOriginal dvp cnp).Calls KernelOp.KeepsReverse := by
  refine .bind (.perform trivial) fun cookie => ?_
  split
  · exact .perform trivial
  · exact .perform trivial
  · exact .bind (.perform trivial) fun _ => .perform trivial

/-- A run of the lookup hook makes one entry at most. -/
theorem registersOnce_lookup (ctx : VfsContext) (dvp : Vnode) (cnp : Componentname) :
    Registers alloc (Unregistered m) (qvrVnopLookupHookEx2 ctx dvp cnp)
      fun _ => RegistersOnce m alloc := by
  have hlookup : Registers alloc (Unregistered m) (vnopLookup dvp cnp) fun _ => Unregistered m :=
    keeps_unregistered (.perform trivial)
  rw [qvrVnopLookupHookEx2]
  split
  · refine .bind (keeps_unregistered keepsReverse_isRecursiveCallOrUserClient) fun pass => ?_
    split
    · exact (keeps_unregistered (keepsReverse_lookupOriginal ..)).weaken fun _ _ => .inl
    · split
      · exact hlookup.weaken fun _ _ => .inl
      · exact registersOnce_lookupRedirected _ _ dvp cnp
  · exact (keeps_unregistered (keepsReverse_lookupOriginal ..)).weaken fun _ _ => .inl

-- ---------------------------------------------------------------------------
-- The create hook
-- ---------------------------------------------------------------------------

omit [DecidableEq Vnode] in
/-- Where it succeeds the application gets the shadow vnode. -/
theorem returns_useShadowVnode (shadowVnode : Vnode) (appData : ApplicationData) :
    (useShadowVnode shadowVnode appData).Returns fun r =>
      r.1 = 0 → r.2 = some shadowVnode := by
  refine .bind (.trivial _) fun _ _ => .bind (.trivial _) fun backingVnode _ => ?_
  split
  · exact .bind (.trivial _) fun _ _ => .bind (.trivial _) fun _ _ => .bind (.trivial _)
      fun _ _ => .pure fun _ => rfl
  · exact .pure fun h => absurd h (show ENFILE ≠ 0 by decide)

/-- No entry, or the shadow vnode is what the application gets. -/
def UnregisteredOrGiven (m : VNodeMap Vnode ApplicationData) (shadowPath : List UInt8)
    (r : Int × Option Vnode) (s : Logged Vnode) : Prop :=
  Unregistered m s ∨ ∃ shadow, r.2 = some shadow ∧ IsShadowVnode s.2 shadowPath shadow

/-- What follows in create changes no entry. -/
theorem keeps_unregisteredOrGiven {shadowPath : List UInt8} {r : Int × Option Vnode}
    {p : Kernel Vnode α} (hp : p.Calls KernelOp.KeepsReverse) :
    Registers alloc (UnregisteredOrGiven m shadowPath r) p
      fun _ => UnregisteredOrGiven m shadowPath r := by
  rintro s a s' (hs | ⟨shadow, hr, hs⟩) hrun
  · exact .inl (keeps_unregistered hp s a s' hs hrun)
  · exact .inr ⟨shadow, hr, triple_isShadowVnode p s a s' hs hrun⟩

/-- The backing vnode for a shadow file that was opened: no entry is made, and the
result is the shadow vnode. -/
theorem uses_openedShadow (appData : ApplicationData) (request : LookupRequest)
    (shadowPath : List UInt8) (shadow : Vnode) :
    Registers alloc
      (fun s => Unregistered m s ∧ ⟨.vnodeOpen shadowPath, ((0 : Int), some shadow)⟩ ∈ s.2)
      (do
        callDaemon request
        useShadowVnode shadow appData)
      fun r s => Unregistered m s ∧
        (r.1 = 0 → r.2 = some shadow ∧ IsShadowVnode s.2 shadowPath shadow) := by
  rintro s r s' ⟨hs, hlog⟩ hrun
  refine ⟨?_, fun hr => ⟨?_, triple_isShadowVnode _ s r s' (.inr hlog) hrun⟩⟩
  · have hcalls : Calls KernelOp.KeepsReverse (do
        callDaemon request
        useShadowVnode shadow appData) :=
      .bind (.perform trivial) fun _ => keepsReverse_connecting (connecting_useShadowVnode ..)
    exact keeps_unregistered hcalls s r s' hs hrun
  · have hreturns : Prog.Returns (fun r => r.1 = 0 → r.2 = some shadow) (do
        callDaemon request
        useShadowVnode shadow appData) :=
      .bind (.trivial _) fun _ _ => returns_useShadowVnode shadow appData
    exact hreturns.of_runs hrun hr

/-- The entry is made last, when the shadow vnode is what the application gets. -/
theorem given_createShadowFile (appData : ApplicationData) (cnp : Componentname)
    (shadowPath redirectedShadowPath : List UInt8) (original : Vnode) :
    Registers alloc (Unregistered m)
      (createShadowFile appData cnp shadowPath redirectedShadowPath original)
      (UnregisteredOrGiven m shadowPath) := by
  refine .bind (keeps_unregistered (.perform trivial)) fun _ =>
    .bind (keeps_unregistered (.perform trivial)) fun _ => ?_
  have hkeeps : Registers alloc (Unregistered m) (vnodeOpen shadowPath) fun _ => Unregistered m :=
    keeps_unregistered (.perform trivial)
  have hlogged : Registers alloc (Unregistered m) (vnodeOpen shadowPath) fun r s =>
      ⟨.vnodeOpen shadowPath, r⟩ ∈ s.2 := triple_perform_log _
  -- opening the shadow file is logged and registers nothing
  have hopen : Registers alloc (Unregistered m) (vnodeOpen shadowPath) fun r s =>
      Unregistered m s ∧ ⟨.vnodeOpen shadowPath, r⟩ ∈ s.2 :=
    fun s r s' hs hrun => ⟨hkeeps s r s' hs hrun, hlogged s r s' hs hrun⟩
  refine .bind hopen fun r => ?_
  obtain ⟨error, opened⟩ := r
  dsimp only
  split
  · next shadow =>
    rintro s r s' hs hrun
    obtain ⟨⟨⟩, s₁, hdaemon, hrun⟩ := runs_bind.mp hrun
    obtain ⟨⟨error, a_vpp⟩, s₂, hrun₂, hrun⟩ := runs_bind.mp hrun
    obtain ⟨hunregistered, hgiven⟩ :=
      uses_openedShadow appData _ shadowPath shadow s (error, a_vpp) s₂ hs
        (runs_bind.mpr ⟨(), s₁, hdaemon, hrun₂⟩)
    dsimp only at hrun
    split at hrun
    -- registered, and the shadow vnode is given
    · next herror =>
      obtain ⟨hvpp, hshadow⟩ := hgiven herror
      have hr : r.2 = a_vpp := by
        have hreturns : Prog.Returns (fun r => r.2 = a_vpp) (do
            addVnodeShadowReverse shadow original
            vnodeClose shadow
            vnodePut original
            Pure.pure (error, a_vpp) : Kernel Vnode (Int × Option Vnode)) :=
          .bind (.trivial _) fun _ _ => .bind (.trivial _) fun _ _ => .bind (.trivial _)
            fun _ _ => .pure rfl
        exact hreturns.of_runs hrun
      exact .inr ⟨shadow, hr.trans hvpp, triple_isShadowVnode _ s₂ r s' hshadow hrun⟩
    -- the connection failed: nothing was registered
    · have hcalls : Calls KernelOp.KeepsReverse (do
          vnodeClose shadow
          vnodePut original
          Pure.pure (error, a_vpp) : Kernel Vnode (Int × Option Vnode)) :=
        .bind (.perform trivial) fun _ => .bind (.perform trivial) fun _ => .pure
      exact .inl (keeps_unregistered hcalls s₂ r s' hunregistered hrun)
  · have hput : Registers alloc (Unregistered m) (vnodePut original) fun _ => Unregistered m :=
      keeps_unregistered (.perform trivial)
    exact .bind (hput.strengthen fun _ hs => hs.1) fun _ => .pure fun _ => .inl

/-- The original create makes no entry. -/
theorem given_createOriginalAndShadow (appData : ApplicationData) (dvp : Vnode)
    (cnp : Componentname) (shadowPath redirectedShadowPath : List UInt8) :
    Registers alloc (Unregistered m)
      (createOriginalAndShadow appData dvp cnp shadowPath redirectedShadowPath)
      (UnregisteredOrGiven m shadowPath) := by
  refine .bind (keeps_unregistered (.perform trivial)) fun r => ?_
  obtain ⟨error, a_vpp⟩ := r
  dsimp only
  split
  · exact given_createShadowFile appData cnp shadowPath redirectedShadowPath _
  · exact .pure fun _ => .inl

/-- The conversions before the files are created make no entry. -/
theorem given_createRedirected (appData : ApplicationData) (dvp : Vnode) (cnp : Componentname) :
    Registers alloc (Unregistered m) (createRedirected appData dvp cnp)
      (UnregisteredOrGiven m (shadowCopy cnp.cn_pnbuf)) := by
  -- the conversions register nothing
  have hconvert : Registers alloc (Unregistered m) (convertToShadowCopyPath cnp.cn_pnbuf)
      fun r s => Unregistered m s ∧ ConvertsTo (shadowCopy cnp.cn_pnbuf) r :=
    fun s r s' hs hrun => ⟨keeps_unregistered (keepsReverse_releasing
      (releasing_convertToShadowCopyPath _)) s r s' hs hrun,
      (returns_convertToShadowCopyPath _).of_runs hrun⟩
  refine .bind hconvert fun r => ?_
  rintro s a s' ⟨hs, rfl | ⟨shadowPath, rfl, hstring, -⟩⟩ hrun
  · exact .inl (keeps_unregistered .pure s a s' hs hrun)
  · rw [← hstring]
    have hredirected : Registers alloc (Unregistered m)
        (convertToRedirectedPath shadowPath.string appData.redirectTo) fun _ => Unregistered m :=
      keeps_unregistered (keepsReverse_releasing (releasing_convertToRedirectedPath ..))
    refine hredirected.bind (fun r => ?_) s a s' hs hrun
    obtain ⟨error, redirectedShadowPath⟩ := r
    dsimp only
    split
    · exact .bind (keeps_unregistered (keepsReverse_releasing (releasing_freePath _))) fun _ =>
        .pure fun _ => .inl
    · have hleave : ∀ r, Registers alloc (UnregisteredOrGiven m shadowPath.string r)
          leaveRecursiveCall fun _ => UnregisteredOrGiven m shadowPath.string r :=
        fun _ => keeps_unregisteredOrGiven (.perform trivial)
      -- the files are made in a recursive call; only there is anything registered
      have hregion : ∀ path, Registers alloc (Unregistered m)
          (inRecursiveCall .currentThread
            (createOriginalAndShadow appData dvp cnp shadowPath.string path))
          (UnregisteredOrGiven m shadowPath.string) :=
        fun path => .bind (keeps_unregistered (.perform trivial)) fun _ =>
          .bind (given_createOriginalAndShadow appData dvp cnp _ path) fun r =>
          .bind (hleave r) fun _ => .pure fun _ hs => hs
      refine .bind (hregion _) fun r => ?_
      -- what comes after keeps what was registered and given
      have hfree : ∀ path path', Registers alloc (UnregisteredOrGiven m shadowPath.string r) (do
          freePath path
          freePath path'
          Pure.pure r) (UnregisteredOrGiven m shadowPath.string) :=
        fun path path' =>
          .bind (keeps_unregisteredOrGiven (keepsReverse_releasing (releasing_freePath _)))
            fun _ => .bind (keeps_unregisteredOrGiven (keepsReverse_releasing
              (releasing_freePath _))) fun _ => .pure fun _ hs => hs
      obtain ⟨error, a_vpp⟩ := r
      dsimp only
      split
      · have haudit : ∀ record, Registers alloc
            (UnregisteredOrGiven m shadowPath.string (error, a_vpp)) (audit record)
            fun _ => UnregisteredOrGiven m shadowPath.string (error, a_vpp) :=
          fun _ => keeps_unregisteredOrGiven (.perform trivial)
        exact .bind (haudit _) fun _ => hfree _ _
      · exact hfree _ _

/-- A run of the create hook makes an entry only for a shadow vnode that it gives. -/
theorem given_create (ctx : VfsContext) (dvp : Vnode) (cnp : Componentname) :
    Registers alloc (Unregistered m) (qvrVnopCreateHookEx2 ctx dvp cnp)
      (UnregisteredOrGiven m (shadowCopy cnp.cn_pnbuf)) := by
  have hcreate : Registers alloc (Unregistered m) (vnopCreate dvp cnp)
      (UnregisteredOrGiven m (shadowCopy cnp.cn_pnbuf)) := by
    have hkeeps : Registers alloc (Unregistered m) (vnopCreate dvp cnp) fun _ => Unregistered m :=
      keeps_unregistered (.perform trivial)
    exact hkeeps.weaken fun _ _ => .inl
  rw [qvrVnopCreateHookEx2]
  split
  · exact hcreate
  · refine .bind (keeps_unregistered keepsReverse_isRecursiveCallOrUserClient) fun pass => ?_
    split
    · exact hcreate
    · refine .bind (keeps_unregistered (.perform trivial)) fun isControlledFile => ?_
      split
      · exact given_createRedirected _ dvp { cnp with makeEntry := false }
      · exact hcreate

-- ---------------------------------------------------------------------------
-- A hook that does not give the shadow vnode
-- ---------------------------------------------------------------------------

/-- **The reverse entries** when the shadow vnode is not what the application gets: they
are as before exactly for a create, and for a lookup that has not come to add an entry, or
whose entry was there or could not be added. -/
theorem reverse_kept (request : ShadowRequest) (ctx : VfsContext) (dvp : Vnode)
    (cnp : Componentname) {alloc : Bool} {s s' : Ledger Vnode} {log : Log (@KernelOp.Res Vnode)}
    {r : Int × Option Vnode}
    (hrun : Runs (logged Ledger.effect) (ReverseAlloc alloc) (request.run ctx dvp cnp) (s, []) r
      (s', log))
    (hput : ¬ PutsShadow log cnp r) :
    s'.map.instanceForShadowToVnode = s.map.instanceForShadowToVnode ↔
      request = .create ∨ ∀ shadow original,
        ⟨.addVnodeShadowReverse shadow original, ()⟩ ∈ log →
          s.map.HasReverse alloc shadow original := by
  have hbefore : Unregistered s.map (s, []) := ⟨rfl, rfl⟩
  cases request with
  -- create registers only a vnode that it gives
  | create =>
    refine iff_of_true ?_ (.inl rfl)
    obtain ⟨-, hsame⟩ | ⟨shadow, hshadow⟩ := given_create ctx dvp cnp _ r _ hbefore hrun
    · exact hsame
    · exact absurd ⟨shadow, hshadow⟩ hput
  -- lookup registers once or not at all, whatever it gives
  | lookup =>
    rw [or_iff_right (by simp)]
    obtain ⟨hnone, hsame⟩ | ⟨shadow, original, hone, hadded⟩ :=
      registersOnce_lookup ctx dvp cnp _ r _ hbefore hrun
    · refine iff_of_true hsame fun shadow original hcall => ?_
      have hmem := mem_reverseEntries.mpr hcall
      rw [show reverseEntries log = [] from hnone] at hmem
      cases hmem
    · dsimp only at hone hadded
      rw [hadded, addVnodeShadowReverse_same_iff]
      constructor
      · intro hhas shadow' original' hcall
        have hmem := mem_reverseEntries.mpr hcall
        rw [hone, List.mem_singleton, Prod.mk.injEq] at hmem
        rw [hmem.1, hmem.2]
        exact hhas
      · intro hall
        refine hall shadow original (mem_reverseEntries.mp ?_)
        rw [hone]
        exact List.mem_singleton_self _

namespace LookupWithoutStorage

/-- The component `a` of `/d/a`. -/
def cnp : Componentname := ⟨[47, 100, 47, 97], 4, [97], 1, .LOOKUP, true, 0⟩

/-- The shadow file is there, and there is no file in the protected storage. -/
def answer : Outcome Nat where
  result
    | .vnodeLookup path _ =>
      if path = shadowCopy cnp.cn_pnbuf then (0, some 4) else (ENOENT, none)
    | o => Ledger.success (shadowCopy cnp.cn_pnbuf) o
  alloc := true

/-- The hook in an empty `VNodeMap`. -/
def run (request : ShadowRequest) : (Ledger Nat × Log (@KernelOp.Res Nat)) × Int × Option Nat :=
  (request.run ⟨some [47, 114]⟩ 2 cnp).exec (logged Ledger.effect) (fun _ _ => answer) 0
    (Ledger.empty, [])

/-- The hook runs like this. -/
theorem runs (request : ShadowRequest) : Runs (logged Ledger.effect) (ReverseAlloc true)
    (request.run ⟨some [47, 114]⟩ 2 cnp) (Ledger.empty, []) (run request).2
    ((run request).1.1, (run request).1.2) :=
  runs_exec (fun _ o => by cases o <;> first | rfl | trivial) _ 0 _

end LookupWithoutStorage

open LookupWithoutStorage in
/-- A create in the same place fails, and leaves nothing. -/
theorem reverse_kept_withoutStorage : (run .create).2 = (ENFILE, none) ∧
    ((run .create).1.1.map.instanceForShadowToVnode =
        (Ledger.empty : Ledger Nat).map.instanceForShadowToVnode ↔
      ShadowRequest.create = .create ∨ ∀ shadow original,
        ⟨.addVnodeShadowReverse shadow original, ()⟩ ∈ (run .create).1.2 →
          (Ledger.empty : Ledger Nat).map.HasReverse true shadow original) := by
  have hresult : (run .create).2 = (ENFILE, none) := by decide +kernel
  refine ⟨hresult, reverse_kept .create ⟨some [47, 114]⟩ 2 cnp (runs .create) ?_⟩
  rintro ⟨shadow, hshadow, -⟩
  rw [hresult] at hshadow
  cases hshadow

open LookupWithoutStorage in
/-- A lookup finds the shadow vnode and goes back to the original one, as there is no backing
file; the entry of the shadow vnode stays. -/
theorem reverse_left : ¬ ∀ (request : ShadowRequest) (ctx : VfsContext) (dvp : Nat)
    (cnp : Componentname) (alloc : Bool) (s s' : Ledger Nat) (log : Log (@KernelOp.Res Nat))
    (r : Int × Option Nat),
    Runs (logged Ledger.effect) (ReverseAlloc alloc) (request.run ctx dvp cnp) (s, []) r (s', log) →
    ¬ PutsShadow log cnp r →
    s'.map.instanceForShadowToVnode = s.map.instanceForShadowToVnode := by
  intro h
  have hresult : (run .lookup).2 = (0, some 3) ∧
      (run .lookup).1.1.map.getVnodeShadowReverse 4 = some 3 ∧
      ⟨.vnodeLookup (shadowCopy cnp.cn_pnbuf) .superUser, ((0 : Int), some 3)⟩ ∉
        (run .lookup).1.2 ∧
      ⟨.vnodeOpen (shadowCopy cnp.cn_pnbuf), ((0 : Int), some 3)⟩ ∉ (run .lookup).1.2 := by
    decide +kernel
  obtain ⟨hresult, hreverse, hfound, hopened⟩ := hresult
  have hput : ¬ PutsShadow (run .lookup).1.2 cnp (run .lookup).2 := by
    rintro ⟨shadow, hshadow, hshadowVnode⟩
    rw [hresult] at hshadow
    cases hshadow
    exact hshadowVnode.elim hfound hopened
  have hsame := h _ _ _ _ _ _ _ _ _ (runs .lookup) hput
  rw [VNodeMap.getVnodeShadowReverse, hsame] at hreverse
  cases hreverse

end VfsRedirector
