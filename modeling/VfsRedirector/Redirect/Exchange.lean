import VfsRedirector.Redirect.Dispatch

/-!
# The two levels of an exchange

Exchange of two vnodes is done twice: the file system exchanges the shadow files,
and the daemon the backing files, with `exchangedata` on the paths that
`vn_getpath` gives for the backing vnodes. The daemon's half goes through
`QvrPreOperationCallbackAndWaitForReply`, which returns nothing. Without a client
nothing is sent; the handler prints the result of `exchangedata`, and its reply
(`ClientAction.exchange`) has no place for it.

The hook calls the original operation unless memory or a path is missing, so the
levels are in step exactly when that is so, or when the daemon has done its part
(`exchanged_iff`).

## Results

* `trace_exchangeRedirectIo` — which half of an exchange is called, and when.
* `exchanged_iff` — when the two levels of an exchange are in step.
-/

namespace VfsRedirector

open Library Prog Kernel

variable {Vnode : Type}

/-- What is on the other side of `QvrPreOperationCallbackAndWaitForReply`. -/
structure Daemon where
  /-- `getClient()` returns the client, and the message gets to it. -/
  connected : Bool
  exchangedata : List UInt8 → List UInt8 → Int

/-- The daemon exchanges two files that it is sent. -/
def Daemon.Exchanges (d : Daemon) (source target : List UInt8) : Prop :=
  d.connected = true ∧ d.exchangedata source target = 0

/-- The calls of an exchange with `redirectIO` data that is not recursive and not of the
daemon; `io` is `InstanceForVnodeIO`. -/
structure RedirectedExchange (ctx : VfsContext) (ap : ExchangeArgs Vnode)
    (io : Vnode → Option Vnode) (log : List (KernelCall Vnode)) : Prop where
  appData : ∀ data, ⟨.getVnodeAppData ap.a_fvp, data⟩ ∈ log →
    ∃ appData, data.or ctx.openExisting = some appData ∧ appData.redirectIo = true
  notRecursive : ∀ cookie, ⟨.cookieForRecursiveCall, cookie⟩ ∈ log → cookie = none
  notUserClient : ∀ client, ⟨.isUserClient, client⟩ ∈ log → client = false
  io : ∀ vn backing, ⟨.getVnodeIoRef vn, backing⟩ ∈ log → backing = io vn

/-- The hook has called the original exchange. -/
def OriginalExchanged (ap : ExchangeArgs Vnode) (log : List (KernelCall Vnode)) : Prop :=
  ∃ error : Int, ⟨.vnopExchange ap, error⟩ ∈ log

/-- The daemon has exchanged the files at the paths of the backing vnodes. -/
def BackingExchanged (d : Daemon) (ap : ExchangeArgs Vnode) (io : Vnode → Option Vnode)
    (log : List (KernelCall Vnode)) : Prop :=
  ∃ backingFvp backingTvp source target,
    io ap.a_fvp = some backingFvp ∧ io ap.a_tvp = some backingTvp ∧
    ⟨.vnGetpath backingFvp, ((0 : Int), source)⟩ ∈ log ∧
    ⟨.vnGetpath backingTvp, ((0 : Int), target)⟩ ∈ log ∧
    ⟨.exchangeFiles source target, ()⟩ ∈ log ∧ d.Exchanges source target

/-- There was no memory for a path, or `vn_getpath` failed. -/
def PathFailed (log : List (KernelCall Vnode)) : Prop :=
  ⟨.ioMalloc MAXPATHLEN, none⟩ ∈ log ∨
    ∃ vn path, ∃ error : Int, error ≠ 0 ∧ ⟨.vnGetpath vn, (error, path)⟩ ∈ log

/-- Both vnodes have a backing vnode, and either there is a failure before the daemon is
called, or the daemon exchanges the files that it is sent. -/
def ExchangeInStep (d : Daemon) (ap : ExchangeArgs Vnode) (io : Vnode → Option Vnode)
    (log : List (KernelCall Vnode)) : Prop :=
  io ap.a_fvp ≠ none ∧ io ap.a_tvp ≠ none ∧
    (PathFailed log ∨
      ∀ source target, ⟨.exchangeFiles source target, ()⟩ ∈ log → d.Exchanges source target)

-- ---------------------------------------------------------------------------
-- The daemon's half
-- ---------------------------------------------------------------------------

/-- A path is asked for unless there was an error. -/
theorem trace_getpathUnless {error : Int} {vp : Vnode} {log : List (KernelCall Vnode)}
    {r : Int × List UInt8} (h : (getpathUnless error vp).Trace log r) :
    (error ≠ 0 ∧ log = [] ∧ r = (error, [])) ∨ (error = 0 ∧ log = [⟨.vnGetpath vp, r⟩]) := by
  unfold getpathUnless at h
  split at h
  · obtain ⟨rfl, rfl⟩ := trace_pure.mp h
    exact .inl ⟨‹_›, rfl, rfl⟩
  · exact .inr ⟨not_not.mp ‹_›, trace_perform.mp h⟩

/-- The calls free buffers, and do nothing else. -/
def OnlyFrees (log : List (KernelCall Vnode)) : Prop :=
  ∀ call ∈ log, ∃ addr, call = ⟨.ioFree addr MAXPATHLEN, ()⟩

/-- A buffer that may not be there is freed at most. -/
theorem trace_freeIfAny {addr : Option Nat} {log : List (KernelCall Vnode)} {u : Unit}
    (h : (freeIfAny addr : Kernel Vnode Unit).Trace log u) : OnlyFrees log := by
  cases addr with
  | none =>
    obtain ⟨rfl, -⟩ := trace_pure.mp h
    exact fun call hcall => nomatch hcall
  | some a =>
    obtain rfl := trace_perform.mp h
    exact fun call hcall => ⟨a, List.mem_singleton.mp hcall⟩

/-- After the daemon's half only the two buffers are freed, and the error is returned. -/
theorem trace_freeBuffers {fromBuffer toBuffer : Option Nat} {log : List (KernelCall Vnode)}
    {e error : Int} (h : (do
      freeIfAny fromBuffer
      freeIfAny toBuffer
      Pure.pure e : Kernel Vnode Int).Trace log error) : error = e ∧ OnlyFrees log := by
  obtain ⟨_, first, log₁, rfl, hfirst, h₁⟩ := trace_bind.mp h
  obtain ⟨_, second, log₂, rfl, hsecond, h₂⟩ := trace_bind.mp h₁
  obtain ⟨rfl, rfl⟩ := trace_pure.mp h₂
  refine ⟨rfl, fun call hcall => ?_⟩
  rw [List.append_nil, List.mem_append] at hcall
  rcases hcall with hcall | hcall
  · exact trace_freeIfAny hfirst call hcall
  · exact trace_freeIfAny hsecond call hcall

/-- What the calls for the daemon's half were, from the error that they end with. -/
structure DaemonHalf (backingFvp backingTvp : Vnode) (error : Int)
    (log : List (KernelCall Vnode)) : Prop where
  failed : error ≠ 0 → PathFailed log ∧ ∀ source target, ⟨.exchangeFiles source target, ()⟩ ∉ log
  called : error = 0 → ¬PathFailed log ∧ ∃ source target,
    ⟨.vnGetpath backingFvp, ((0 : Int), source)⟩ ∈ log ∧
    ⟨.vnGetpath backingTvp, ((0 : Int), target)⟩ ∈ log ∧
    ∀ source' target', ⟨.exchangeFiles source' target', ()⟩ ∈ log ↔
      source' = source ∧ target' = target

/-- The calls that `DaemonHalf` is about. -/
def KernelOp.ForPaths : KernelOp Vnode → Prop
  | .ioMalloc _ | .vnGetpath _ | .exchangeFiles .. => True
  | _ => False

/-- The frees are none of them. -/
theorem OnlyFrees.notForPaths {frees : List (KernelCall Vnode)} (h : OnlyFrees frees) :
    (∀ source target, ⟨.exchangeFiles source target, ()⟩ ∉ frees) ∧
    (∀ vn r, ⟨.vnGetpath vn, r⟩ ∉ frees) ∧ ⟨.ioMalloc MAXPATHLEN, none⟩ ∉ frees := by
  refine ⟨fun _ _ hcall => ?_, fun _ _ hcall => ?_, fun hcall => ?_⟩ <;>
    obtain ⟨addr, haddr⟩ := h _ hcall <;> cases haddr

theorem DaemonHalf.congr {backingFvp backingTvp : Vnode} {error : Int}
    {half log : List (KernelCall Vnode)} (h : DaemonHalf backingFvp backingTvp error half)
    (hsame : ∀ o : KernelOp Vnode, o.ForPaths → ∀ r, (⟨o, r⟩ ∈ log ↔ ⟨o, r⟩ ∈ half)) :
    DaemonHalf backingFvp backingTvp error log := by
  have hmalloc : ∀ size r, _ ↔ _ := fun size r => hsame (.ioMalloc size) trivial r
  have hgetpath : ∀ vn r, _ ↔ _ := fun vn r => hsame (.vnGetpath vn) trivial r
  have hexchange : ∀ source target, _ ↔ _ :=
    fun source target => hsame (.exchangeFiles source target) trivial ()
  have hpath : PathFailed log ↔ PathFailed half := by
    unfold PathFailed
    rw [hmalloc]
    exact or_congr Iff.rfl (exists_congr fun vn => exists_congr fun path => exists_congr
      fun e => and_congr Iff.rfl (hgetpath vn _))
  refine ⟨fun herror => ?_, fun herror => ?_⟩
  · obtain ⟨hfailed, hnone⟩ := h.failed herror
    exact ⟨hpath.mpr hfailed, fun source target hcall =>
      hnone source target ((hexchange source target).mp hcall)⟩
  · obtain ⟨hnot, source, target, hsource, htarget, hcalled⟩ := h.called herror
    exact ⟨fun hfailed => hnot (hpath.mp hfailed), source, target, (hgetpath _ _).mpr hsource,
      (hgetpath _ _).mpr htarget, fun s t => (hexchange s t).trans (hcalled s t)⟩

/-- The exchange of the backing files does the daemon's half, and no more. -/
theorem trace_exchangeBacking {backingFvp backingTvp : Vnode} {error : Int}
    {log : List (KernelCall Vnode)}
    (h : (exchangeBacking backingFvp backingTvp).Trace log error) :
    DaemonHalf backingFvp backingTvp error log := by
  obtain ⟨fromBuffer, log₁, rfl, h₁⟩ := trace_perform_bind.mp h
  obtain ⟨toBuffer, log₂, rfl, h₂⟩ := trace_perform_bind.mp h₁
  obtain ⟨⟨e₁, source⟩, getSource, log₃, rfl, hsource, h₃⟩ := trace_bind.mp h₂
  obtain ⟨⟨e₂, target⟩, getTarget, log₄, rfl, htarget, h₄⟩ := trace_bind.mp h₃
  dsimp only at htarget h₄
  split at h₄
  · next hzero =>
    -- both paths are there
    subst hzero
    obtain ⟨u, frees, rfl, h₅⟩ := trace_perform_bind.mp h₄
    obtain ⟨rfl, honly⟩ := trace_freeBuffers h₅
    obtain ⟨hexchange, hgetpath, hmalloc⟩ := honly.notForPaths
    rcases trace_getpathUnless htarget with ⟨hne, -, hr⟩ | ⟨hzero, rfl⟩
    · exact absurd (congrArg Prod.fst hr).symm hne
    · subst hzero
      rcases trace_getpathUnless hsource with ⟨hne, -, hr⟩ | ⟨hbuffers, rfl⟩
      · exact absurd (congrArg Prod.fst hr).symm hne
      · have hfrom : fromBuffer ≠ none := by
          rintro rfl
          rw [if_pos (.inl rfl)] at hbuffers
          exact absurd hbuffers (by decide)
        have hto : toBuffer ≠ none := by
          rintro rfl
          rw [if_pos (.inr rfl)] at hbuffers
          exact absurd hbuffers (by decide)
        refine ⟨fun hne => absurd rfl hne, fun _ => ⟨?_, source, target, ?_, ?_, ?_⟩⟩
        · rintro (hnone | ⟨vn, path, error, herror, hpath⟩)
          · simp [hmalloc, hfrom, hto, eq_comm] at hnone
          · simp [hgetpath] at hpath
            omega
        · simp
        · simp
        · simp [hexchange]
  · next hnonzero =>
    obtain ⟨rfl, honly⟩ := trace_freeBuffers h₄
    obtain ⟨hexchange, -, -⟩ := honly.notForPaths
    refine ⟨fun _ => ⟨?_, ?_⟩, fun hzero => absurd hzero hnonzero⟩
    · rcases trace_getpathUnless htarget with ⟨hne, rfl, hr⟩ | ⟨-, rfl⟩
      · rcases trace_getpathUnless hsource with ⟨hbuffers, rfl, -⟩ | ⟨-, rfl⟩
        · refine .inl ?_
          by_cases hnone : fromBuffer.isNone ∨ toBuffer.isNone
          · rcases hnone with hnone | hnone
            · rw [Option.isNone_iff_eq_none.mp hnone]
              exact List.mem_cons_self
            · rw [Option.isNone_iff_eq_none.mp hnone]
              exact List.mem_cons_of_mem _ List.mem_cons_self
          · rw [if_neg hnone] at hbuffers
            exact absurd rfl hbuffers
        · exact .inr ⟨backingFvp, source, e₁, hne, by simp⟩
      · exact .inr ⟨backingTvp, target, error, hnonzero, by simp⟩
    · intro s t
      rcases trace_getpathUnless htarget with ⟨-, rfl, -⟩ | ⟨-, rfl⟩ <;>
        rcases trace_getpathUnless hsource with ⟨-, rfl, -⟩ | ⟨-, rfl⟩ <;> simp [hexchange]

-- ---------------------------------------------------------------------------
-- The whole of it
-- ---------------------------------------------------------------------------

/-- The exchange of the backing files does not call the original one. -/
theorem calls_exchangeBacking (backingFvp backingTvp : Vnode) :
    (exchangeBacking backingFvp backingTvp).Calls KernelOp.NoVnop := by
  have hfree : ∀ addr, (freeIfAny addr : Kernel Vnode Unit).Calls KernelOp.NoVnop := by
    intro addr
    cases addr with
    | none => exact .pure
    | some addr => exact .perform trivial
  have hgetpath : ∀ error vp, (getpathUnless error vp : Kernel Vnode _).Calls
      KernelOp.NoVnop := by
    intro error vp
    unfold getpathUnless
    split
    · exact .pure
    · exact .perform trivial
  refine .bind (.perform trivial) fun fromBuffer => .bind (.perform trivial) fun toBuffer =>
    .bind (hgetpath _ _) fun r => ?_
  refine .bind (hgetpath _ _) fun r' => ?_
  dsimp only
  split
  · exact .bind (.perform trivial) fun _ => .bind (hfree _) fun _ => .bind (hfree _) fun _ => .pure
  · exact .bind (hfree _) fun _ => .bind (hfree _) fun _ => .pure

/-- The original exchange, if there was no error, and the put of the backing vnodes. -/
theorem trace_exchangeOriginal {ap : ExchangeArgs Vnode} {error result : Int}
    {backingFvp backingTvp : Option Vnode} {log : List (KernelCall Vnode)} (h : (do
      let error ← if error = 0 then vnopExchange ap else Pure.pure error
      putIfAny backingFvp
      putIfAny backingTvp
      Pure.pure error : Kernel Vnode Int).Trace log result) :
    (OriginalExchanged ap log ↔ error = 0) ∧ ∀ call ∈ log, ¬call.1.ForPaths := by
  -- the references are put without an operation or a path
  have hputs : ∀ {e : Int} {rest : List (KernelCall Vnode)}, (do
      putIfAny backingFvp
      putIfAny backingTvp
      Pure.pure e : Kernel Vnode Int).Trace rest result →
      ∀ call ∈ rest, call.1.NoVnop ∧ ¬call.1.ForPaths := by
    intro e rest hrest
    have hput : ∀ vp : Option Vnode, (putIfAny vp).Calls fun o => o.NoVnop ∧ ¬o.ForPaths := by
      intro vp
      cases vp with
      | none => exact .pure
      | some vp => exact .perform ⟨trivial, id⟩
    have hcalls : Prog.Calls (fun o => o.NoVnop ∧ ¬o.ForPaths) (do
        putIfAny backingFvp
        putIfAny backingTvp
        Pure.pure e : Kernel Vnode Int) :=
      .bind (hput _) fun _ => .bind (hput _) fun _ => .pure
    exact hcalls.of_trace hrest
  split at h
  · next hzero =>
    obtain ⟨e, rest, rfl, hrest⟩ := trace_perform_bind.mp h
    refine ⟨iff_of_true ⟨e, List.mem_cons_self⟩ hzero, ?_⟩
    exact List.forall_mem_cons.mpr ⟨id, fun call hcall => (hputs hrest call hcall).2⟩
  · next hnonzero =>
    obtain ⟨e, first, rest, rfl, hpure, hrest⟩ := trace_bind.mp h
    obtain ⟨rfl, rfl⟩ := trace_pure.mp hpure
    rw [List.nil_append]
    refine ⟨iff_of_false ?_ hnonzero, fun call hcall => (hputs hrest call hcall).2⟩
    rintro ⟨e, hcall⟩
    exact (hputs hrest _ hcall).1

/-- The calls of an exchange with `redirectIO` data. -/
theorem trace_exchangeRedirectIo {ap : ExchangeArgs Vnode} {error : Int}
    {log : List (KernelCall Vnode)} {io : Vnode → Option Vnode}
    (hio : ∀ vn backing, ⟨.getVnodeIoRef vn, backing⟩ ∈ log → backing = io vn)
    (h : (exchangeRedirectIo ap).Trace log error) :
    ((io ap.a_fvp = none ∨ io ap.a_tvp = none) ∧ OriginalExchanged ap log ∧
      ∀ call ∈ log, ¬call.1.ForPaths) ∨
    ∃ backingFvp backingTvp e, io ap.a_fvp = some backingFvp ∧ io ap.a_tvp = some backingTvp ∧
      DaemonHalf backingFvp backingTvp e log ∧ (OriginalExchanged ap log ↔ e = 0) := by
  obtain ⟨backingFvp, log₁, rfl, h₁⟩ := trace_perform_bind.mp h
  have hfvp : backingFvp = io ap.a_fvp := hio _ _ List.mem_cons_self
  dsimp only at h₁
  cases backingFvp with
  -- without a backing vnode of the source the original is called alone
  | none =>
    obtain ⟨_, _, log₂, rfl, hnone, h₂⟩ := trace_bind.mp h₁
    obtain ⟨rfl, rfl⟩ := trace_pure.mp hnone
    obtain ⟨_, _, log₃, rfl, hzero, h₃⟩ := trace_bind.mp h₂
    obtain ⟨rfl, rfl⟩ := trace_pure.mp hzero
    obtain ⟨horiginal, hpaths⟩ := trace_exchangeOriginal h₃
    obtain ⟨e, hcall⟩ := horiginal.mpr rfl
    refine .inl ⟨.inl hfvp.symm, ⟨e, ?_⟩, ?_⟩
    · exact List.mem_cons_of_mem _ hcall
    · exact List.forall_mem_cons.mpr ⟨id, hpaths⟩
  | some backingFvp =>
    obtain ⟨backingTvp, log₂, rfl, h₂⟩ := trace_perform_bind.mp h₁
    have htvp : backingTvp = io ap.a_tvp :=
      hio _ _ (List.mem_cons_of_mem _ List.mem_cons_self)
    cases backingTvp with
    -- without one of the target too
    | none =>
      obtain ⟨_, _, log₃, rfl, hzero, h₃⟩ := trace_bind.mp h₂
      obtain ⟨rfl, rfl⟩ := trace_pure.mp hzero
      obtain ⟨horiginal, hpaths⟩ := trace_exchangeOriginal h₃
      obtain ⟨e, hcall⟩ := horiginal.mpr rfl
      refine .inl ⟨.inr htvp.symm, ⟨e, ?_⟩, ?_⟩
      · exact List.mem_cons_of_mem _ (List.mem_cons_of_mem _ hcall)
      · exact List.forall_mem_cons.mpr ⟨id, List.forall_mem_cons.mpr ⟨id, hpaths⟩⟩
    -- the daemon exchanges the backing files before the original is called
    | some backingTvp =>
      obtain ⟨e, half, rest, rfl, hhalf, hrest⟩ := trace_bind.mp h₂
      obtain ⟨horiginal, hpaths⟩ := trace_exchangeOriginal hrest
      have hnoVnop := (calls_exchangeBacking backingFvp backingTvp).of_trace hhalf
      refine .inr ⟨backingFvp, backingTvp, e, hfvp.symm, htvp.symm, ?_, ?_⟩
      · refine (trace_exchangeBacking hhalf).congr fun o ho r => ?_
        -- the calls around the daemon's half are none of its own
        have hget : ∀ vn backing, (⟨o, r⟩ : KernelCall Vnode) ≠ ⟨.getVnodeIoRef vn, backing⟩ := by
          rintro vn backing heq
          cases heq
          exact ho
        have hafter : (⟨o, r⟩ : KernelCall Vnode) ∉ rest := fun hcall => hpaths _ hcall ho
        rw [List.mem_cons, List.mem_cons, List.mem_append]
        simp only [hget, hafter, false_or, or_false]
      · rw [← horiginal]
        refine exists_congr fun e' => ?_
        have hhalf : ⟨.vnopExchange ap, e'⟩ ∉ half := fun hcall => hnoVnop _ hcall
        simp [hhalf]

/-- The calls before the exchange itself. -/
theorem trace_redirectedExchange {ctx : VfsContext} {ap : ExchangeArgs Vnode} {error : Int}
    {log : List (KernelCall Vnode)} {io : Vnode → Option Vnode}
    (hredirected : RedirectedExchange ctx ap io log)
    (h : (qvrVnopExchangeHookEx2 ctx ap).Trace log error) :
    ∃ data rest, log = ⟨.getVnodeAppData ap.a_fvp, data⟩ :: ⟨.cookieForRecursiveCall, none⟩ ::
      ⟨.isUserClient, false⟩ :: rest ∧ (exchangeRedirectIo ap).Trace rest error := by
  obtain ⟨data, log₁, rfl, h₁⟩ := trace_perform_bind.mp h
  obtain ⟨appData, hdata, hio⟩ := hredirected.appData data List.mem_cons_self
  rw [hdata] at h₁
  dsimp only at h₁
  rw [hio] at h₁
  obtain ⟨skip, first, rest, rfl, hskip, hrest⟩ := trace_bind.mp h₁
  obtain ⟨cookie, rfl, -⟩ | rfl := trace_isRecursiveCallOrUserClient hskip
  · have hnone := hredirected.notRecursive (some cookie) (by simp)
    cases hnone
  · obtain rfl : skip = false := hredirected.notUserClient skip (by simp)
    exact ⟨data, rest, rfl, hrest⟩

/-- **The two levels of an exchange** are in step, that is, the original exchange is called
if and only if the daemon has exchanged the backing files, exactly under `ExchangeInStep`. -/
theorem exchanged_iff (d : Daemon) {ctx : VfsContext} {ap : ExchangeArgs Vnode} {error : Int}
    {log : List (KernelCall Vnode)} {io : Vnode → Option Vnode}
    (hredirected : RedirectedExchange ctx ap io log)
    (h : (qvrVnopExchangeHookEx2 ctx ap).Trace log error) :
    (OriginalExchanged ap log ↔ BackingExchanged d ap io log) ↔ ExchangeInStep d ap io log := by
  obtain ⟨data, rest, rfl, hrest⟩ := trace_redirectedExchange hredirected h
  have horiginal : OriginalExchanged ap (⟨.getVnodeAppData ap.a_fvp, data⟩ ::
      ⟨.cookieForRecursiveCall, none⟩ :: ⟨.isUserClient, false⟩ :: rest) ↔
      OriginalExchanged ap rest := exists_congr fun e => by simp
  have hio : ∀ vn backing, ⟨.getVnodeIoRef vn, backing⟩ ∈ rest → backing = io vn :=
    fun vn backing hcall => hredirected.io vn backing (by simp [hcall])
  rw [horiginal]
  obtain ⟨hnone, hcalled, -⟩ | ⟨backingFvp, backingTvp, e, hfvp, htvp, hhalf, hcalled⟩ :=
    trace_exchangeRedirectIo hio hrest
  · -- a vnode has no backing vnode: the daemon is not asked
    refine iff_of_false (fun hiff => ?_) fun hstep => ?_
    · obtain ⟨_, _, _, _, hfvp, htvp, -⟩ := hiff.mp hcalled
      rcases hnone with hnone | hnone
      · rw [hnone] at hfvp
        cases hfvp
      · rw [hnone] at htvp
        cases htvp
    · exact hnone.elim hstep.1 hstep.2.1
  · have hfull : DaemonHalf backingFvp backingTvp e (⟨.getVnodeAppData ap.a_fvp, data⟩ ::
        ⟨.cookieForRecursiveCall, none⟩ :: ⟨.isUserClient, false⟩ :: rest) := by
      refine hhalf.congr fun o ho r => ?_
      cases o <;> first | exact ho.elim | simp
    rw [hcalled]
    by_cases he : e = 0
    · obtain ⟨hpath, source, target, hsource, htarget, hexchange⟩ := hfull.called he
      rw [iff_true_left he]
      constructor
      · rintro ⟨_, _, s, t, -, -, -, -, hcall, hdaemon⟩
        refine ⟨by simp [hfvp], by simp [htvp], .inr fun s' t' hcall' => ?_⟩
        obtain ⟨rfl, rfl⟩ := (hexchange s t).mp hcall
        obtain ⟨rfl, rfl⟩ := (hexchange s' t').mp hcall'
        exact hdaemon
      · rintro ⟨-, -, hfailed | hdaemon⟩
        · exact absurd hfailed hpath
        · have hcall := (hexchange source target).mpr ⟨rfl, rfl⟩
          exact ⟨backingFvp, backingTvp, source, target, hfvp, htvp, hsource, htarget, hcall,
            hdaemon source target hcall⟩
    · -- memory or a path is missing: neither level is exchanged
      obtain ⟨hpath, hexchange⟩ := hfull.failed he
      refine iff_of_true (iff_of_false he ?_) ⟨by simp [hfvp], by simp [htvp], .inl hpath⟩
      rintro ⟨_, _, s, t, -, -, -, -, hcall, -⟩
      exact hexchange s t hcall

namespace ExchangeOfSaved

/-- A save: the temporary file, vnode 1, is exchanged with the document, vnode 2. -/
def ap : ExchangeArgs Nat := ⟨1, 2, 0, .caller⟩

def ctx : VfsContext := ⟨some [47, 114]⟩

/-- The calls when both have a backing vnode. -/
def calls : List (KernelCall Nat) :=
  [⟨.getVnodeAppData 1, some ⟨[47, 114], true⟩⟩, ⟨.cookieForRecursiveCall, none⟩,
    ⟨.isUserClient, false⟩, ⟨.getVnodeIoRef 1, some 11⟩, ⟨.getVnodeIoRef 2, some 12⟩,
    ⟨.ioMalloc MAXPATHLEN, some 0⟩, ⟨.ioMalloc MAXPATHLEN, some 1⟩,
    ⟨.vnGetpath 11, (0, [47, 97])⟩, ⟨.vnGetpath 12, (0, [47, 98])⟩,
    ⟨.exchangeFiles [47, 97] [47, 98], ()⟩, ⟨.ioFree 0 MAXPATHLEN, ()⟩,
    ⟨.ioFree 1 MAXPATHLEN, ()⟩, ⟨.vnopExchange ap, (0 : Int)⟩, ⟨.vnodePut 11, ()⟩,
    ⟨.vnodePut 12, ()⟩]

def io : Nat → Option Nat
  | 1 => some 11
  | 2 => some 12
  | _ => none

/-- The hook makes these calls and returns 0. -/
theorem trace : (qvrVnopExchangeHookEx2 ctx ap).Trace calls 0 :=
  .call (.call (.call (.call (.call (.call (.call (.call (.call (.call (.call (.call (.call
    (.call (.call .pure))))))))))))))

/-- The exchange is to be redirected, with these backing vnodes. -/
theorem redirectedExchange : RedirectedExchange ctx ap io calls := by
  refine ⟨?_, ?_, ?_, ?_⟩
  · intro data hcall
    exact ⟨⟨[47, 114], true⟩, by simp [calls, ap] at hcall; rw [hcall]; rfl, rfl⟩
  · intro cookie hcall
    simpa [calls, ap] using hcall
  · intro client hcall
    simpa [calls, ap] using hcall
  · intro vn backing hcall
    simp [calls, ap] at hcall
    rcases hcall with ⟨rfl, hbacking⟩ | ⟨rfl, hbacking⟩ <;> exact hbacking

end ExchangeOfSaved

open ExchangeOfSaved in
/-- The daemon is there, and `exchangedata` succeeds. -/
theorem exchanged_iff_saved :
    (OriginalExchanged ap calls ↔ BackingExchanged ⟨true, fun _ _ => 0⟩ ap io calls) ↔
      ExchangeInStep ⟨true, fun _ _ => 0⟩ ap io calls :=
  exchanged_iff ⟨true, fun _ _ => 0⟩ redirectedExchange trace

open ExchangeOfSaved in
/-- No client is connected: the original exchange is called all the same. -/
theorem exchanged_alone : ¬ ∀ (d : Daemon) (ctx : VfsContext) (ap : ExchangeArgs Nat)
    (io : Nat → Option Nat) (log : List (KernelCall Nat)) (error : Int),
    RedirectedExchange ctx ap io log → (qvrVnopExchangeHookEx2 ctx ap).Trace log error →
      (OriginalExchanged ap log ↔ BackingExchanged d ap io log) := by
  intro h
  have hiff := h ⟨false, fun _ _ => 0⟩ ctx ap io calls 0 redirectedExchange trace
  obtain ⟨_, _, _, _, -, -, -, -, -, hconnected, -⟩ := hiff.mp ⟨0, by simp [calls]⟩
  cases hconnected

end VfsRedirector
