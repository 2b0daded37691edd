import VfsRedirector.Library.Trace
import VfsRedirector.Redirect.Requests

/-!
# Requests that the hooks leave alone

The driver sits between the kernel and every file system, and most of what it sees
is none of its business: requests of processes that are not controlled, those of
the daemon, and those that a hook makes itself. Such a request is passed on: the
original operation is called, once and with the request as it came, what it returns
is returned, and besides this the hook only looks at what the driver keeps.

There are three exceptions, whoever asks:

* close and inactive push the clusters of a backing vnode, and inactive recycles it and
  removes its entry of `InstanceForVnodeIO`, before they call the original operation
  (`Request.endOfUse`);
* a lookup on a thread that has the mark of a rename is passed on with the `cn_nameiop` that
  stands at the cookie (`FoundByHook.nameInRename`);
* pageout returns `ENODATA` whatever comes of the original operation (`Request.passed`).

The results are about traces, so that they hold in every environment and for any
number of threads.

## Results

* `passes_lookup` … `passes_rename` — a hook on its own.
* `hook_passes` — every hook, for each of the three reasons.
-/

namespace VfsRedirector

open Library Prog Kernel

variable {Vnode : Type}

-- ---------------------------------------------------------------------------
-- Requests and results
-- ---------------------------------------------------------------------------

/-- What a hook gives back: its error, with the vnode of a lookup or create, or with
the request where the hook writes to it. -/
inductive HookResult (Vnode : Type) where
  | error (error : Int)
  | vnode (error : Int) (a_vpp : Option Vnode)
  | getattr (error : Int) (ap : GetattrArgs Vnode)
  | rename (error : Int) (ap : RenameArgs Vnode)

/-- What a hook finds: `InstanceForVnodeIO`, the mark of its thread, and what is in memory at
the cookies of a rename. -/
structure FoundByHook (Vnode : Type) where
  vnodeIo : Vnode → Option Vnode
  mark : Option Cookie
  nameiop : Cookie → NameiOp

/-- If the mark is that of a rename, the name operation is the one at the cookie. -/
def FoundByHook.nameInRename (found : FoundByHook Vnode) (cnp : Componentname) : Componentname :=
  match found.mark with
  | none | some .currentThread => cnp
  | some cookie => { cnp with cn_nameiop := found.nameiop cookie }

namespace Request

def context : Request Vnode → VfsContext
  | lookup ctx _ _ => ctx
  | create ctx _ _ => ctx
  | other ctx _ => ctx

/-- The hook, with all that it gives back. -/
def hook [DecidableEq Vnode] : Request Vnode → Kernel Vnode (HookResult Vnode)
  | lookup ctx dvp cnp => do
    let r ← qvrVnopLookupHookEx2 ctx dvp cnp
    return .vnode r.1 r.2
  | create ctx dvp cnp => do
    let r ← qvrVnopCreateHookEx2 ctx dvp cnp
    return .vnode r.1 r.2
  | other _ (.close a_vp a_fflag) => do return .error (← qvrVnopCloseHookEx2 a_vp a_fflag)
  | other _ (.inactive a_vp) => do return .error (← qvrVnopInactiveHookEx2 a_vp)
  | other _ (.read ap) => do return .error (← qvrVnopReadHookEx2 ap)
  | other _ (.write ap) => do return .error (← qvrVnopWriteHookEx2 ap)
  | other _ (.pagein ap) => do return .error (← qvrVnopPageinHookEx2 ap)
  | other _ (.pageout ap) => do return .error (← qvrVnopPageoutHookEx2 ap)
  | other ctx (.exchange ap) => do return .error (← qvrVnopExchangeHookEx2 ctx ap)
  | other _ (.getattr ap) => do
    let r ← qvrVnopGetattrHookEx2 ap
    return .getattr r.1 r.2
  | other ctx (.rename fvp ap _) => do
    let r ← qvrVnopRenameHookEx2 ctx fvp ap
    return .rename r.1 r.2

/-- The operation of the file system, with the request as it came; only the name of a lookup in a
rename is another one. -/
def original (found : FoundByHook Vnode) : Request Vnode → KernelOp Vnode
  | lookup _ dvp cnp => .vnopLookup dvp (found.nameInRename cnp)
  | create _ dvp cnp => .vnopCreate dvp cnp
  | other _ (.close a_vp a_fflag) => .vnopClose a_vp a_fflag
  | other _ (.inactive a_vp) => .vnopInactive a_vp
  | other _ (.read ap) => .vnopRead (.original ap.a_vp) ap
  | other _ (.write ap) => .vnopWrite (.original ap.a_vp) ap
  | other _ (.pagein ap) => .vnopPagein (.original ap.a_vp) ap
  | other _ (.pageout ap) => .vnopPageout (.original ap.a_vp) ap
  | other _ (.exchange ap) => .vnopExchange ap
  | other _ (.getattr ap) => .vnopGetattr (.original ap.a_vp) ap
  | other _ (.rename fvp ap _) => .vnopRename (.original fvp) ap

/-- What close and inactive do with the backing vnode before the original operation. -/
def endOfUse (found : FoundByHook Vnode) : Request Vnode → CallLog Vnode
  | other _ (.close a_vp _) =>
    match found.vnodeIo a_vp with
    | some vnodeIo => [⟨.clusterPush vnodeIo, ()⟩]
    | none => []
  | other _ (.inactive a_vp) =>
    match found.vnodeIo a_vp with
    | some vnodeIo =>
      [⟨.clusterPush vnodeIo, ()⟩, ⟨.vnodeRecycle vnodeIo, ()⟩, ⟨.removeVnodeIo a_vp, ()⟩]
    | none => []
  | _ => []

/-- What the original operation has returned, as the hook hands it on. -/
def passed (found : FoundByHook Vnode) :
    (request : Request Vnode) → (request.original found).Res → HookResult Vnode
  | lookup .., r => .vnode r.1 r.2
  | create .., r => .vnode r.1 r.2
  | other _ (.close ..), e => .error e
  | other _ (.inactive _), e => .error e
  | other _ (.read _), e => .error e
  | other _ (.write _), e => .error e
  | other _ (.pagein _), e => .error e
  | other _ (.pageout _), _ => .error ENODATA -- the error of the original is dropped
  | other _ (.exchange _), e => .error e
  | other _ (.getattr ap), r => .getattr r.1 { ap with a_vap := r.2 }
  | other _ (.rename _ ap _), e => .rename e ap

end Request

/-- Looks at what the driver keeps, or gives back a reference that this took. -/
def KernelOp.observes : KernelOp Vnode → Bool
  | .getVnodeAppData _ | .getVnodeIoRef _ | .getVnodeShadowReverseRef _ | .vnodePut _
  | .cookieForRecursiveCall | .nameiopAt _ | .isUserClient => true
  | _ => false

/-- The calls that do something. -/
def effects (log : CallLog Vnode) : CallLog Vnode := log.filter fun call => !call.1.observes

/-- What two parts of a log do is done one after the other. -/
theorem effects_append (log log' : CallLog Vnode) :
    effects (log ++ log') = effects log ++ effects log' := List.filter_append _ _

/-- Besides the end of use of a backing vnode, the one call that does something is the original
operation, and `a` is what it returned. -/
def PassedOn (found : FoundByHook Vnode) (request : Request Vnode) (a : HookResult Vnode)
    (log : CallLog Vnode) : Prop :=
  ∃ r, a = request.passed found r ∧
    effects log = request.endOfUse found ++ [⟨request.original found, r⟩]

-- ---------------------------------------------------------------------------
-- Reasons
-- ---------------------------------------------------------------------------

/-- Why a request is left alone. -/
inductive LeftAlone where
  /-- The thread is in a recursive call. -/
  | recursiveCall
  /-- The daemon asks. -/
  | userClient
  /-- Neither the process nor the vnodes are controlled. -/
  | uncontrolled
  deriving DecidableEq

/-- What a request is answered then, if it asks. -/
def LeftAlone.Answers (why : LeftAlone) (found : FoundByHook Vnode) :
    (o : KernelOp Vnode) → o.Res → Prop
  | .getVnodeIoRef vn, vnodeIo => vnodeIo = found.vnodeIo vn
  | .cookieForRecursiveCall, cookie => cookie = found.mark
  | .nameiopAt cookie, nameiop => nameiop = found.nameiop cookie
  | .isUserClient, isClient => why = .userClient → isClient = true
  | .getVnodeAppData _, appData => why = .uncontrolled → appData = none
  | .getVnodeShadowReverseRef _, real => why = .uncontrolled → real = none
  | _, _ => True

/-- What is known before anything is asked: a thread in a recursive call has a mark, and a process
that is not controlled has no application data. -/
structure LeftAlone.Applies (why : LeftAlone) (found : FoundByHook Vnode) (ctx : VfsContext) :
    Prop where
  marked : why = .recursiveCall → found.mark ≠ none
  uncontrolled : why = .uncontrolled → ctx.application = none

/-- What holds of code whose calls return that. -/
abbrev Goes (why : LeftAlone) (found : FoundByHook Vnode) {α : Type} (p : Kernel Vnode α)
    (Q : α → CallLog Vnode → Prop) (log : CallLog Vnode) : Prop :=
  p.Always (fun _ _ => True) (fun _ => why.Answers found) Q log

variable {why : LeftAlone} {found : FoundByHook Vnode} {log : CallLog Vnode} {α β : Type}

/-- A call goes on with every answer that the reason allows. -/
theorem goes_call {o : KernelOp Vnode} {f : o.Res → Kernel Vnode β} {Q : β → CallLog Vnode → Prop}
    (h : ∀ r, why.Answers found o r → Goes why found (f r) Q (log ++ [⟨o, r⟩])) :
    Goes why found (perform o >>= f) Q log :=
  Always.call trivial h

/-- Behind the end of use and calls that only look, the original operation. -/
theorem goes_original (request : Request Vnode) (hlog : effects log = request.endOfUse found) :
    Goes why found (perform (request.original found))
      (fun r => PassedOn found request (request.passed found r)) log := by
  refine .perform trivial fun r _ => ⟨r, rfl, ?_⟩
  have hlooks : (request.original found).observes = false := by
    cases request with
    | lookup ctx dvp cnp => rfl
    | create ctx dvp cnp => rfl
    | other ctx request => cases request <;> rfl
  rw [effects_append, hlog, effects, List.filter_cons_of_pos]
  · rfl
  · show (!(request.original found).observes) = true
    rw [hlooks]
    rfl

/-- In a recursive call, and for the daemon. -/
theorem goes_isRecursiveCallOrUserClient (hmark : why = .recursiveCall → found.mark ≠ none)
    (hwhy : why ≠ .uncontrolled) (hlog : effects log = []) :
    Goes why found (isRecursiveCallOrUserClient : Kernel Vnode Bool)
      (fun skip log => skip = true ∧ effects log = []) log := by
  refine goes_call fun cookie hcookie => ?_
  obtain rfl : cookie = found.mark := hcookie
  cases hfound : found.mark with
  | some cookie =>
    refine .pure ⟨rfl, ?_⟩
    rw [effects_append, hlog]
    rfl
  | none =>
    refine ⟨trivial, fun isClient hclient => ⟨?_, ?_⟩⟩
    · refine hclient ?_
      cases why with
      | recursiveCall => exact absurd hfound (hmark rfl)
      | userClient => rfl
      | uncontrolled => exact absurd rfl hwhy
    · rw [effects_append, effects_append, hlog]
      rfl

/-- Read, write and pageout do not look for a backing vnode. -/
theorem goes_backingVnodeForIo (hmark : why = .recursiveCall → found.mark ≠ none) (op : HookedOp)
    (a_vp : Vnode) :
    Goes why found (backingVnodeForIo op a_vp)
      (fun vnodeIo log => vnodeIo = none ∧ effects log = []) [] := by
  refine goes_call fun appData happData => ?_
  cases appData with
  | none => exact .pure ⟨rfl, rfl⟩
  | some appData =>
    have hwhy : why ≠ .uncontrolled := fun hwhy => Option.some_ne_none _ (happData hwhy)
    refine .bind (goes_isRecursiveCallOrUserClient hmark hwhy rfl) ?_
    rintro skip log ⟨rfl, hlog⟩
    exact .pure ⟨rfl, hlog⟩

-- ---------------------------------------------------------------------------
-- The hooks
-- ---------------------------------------------------------------------------

/-- The hook for a request, by what it does with it. -/
abbrev Passes (why : LeftAlone) (found : FoundByHook Vnode) (request : Request Vnode) {α : Type}
    (p : Kernel Vnode α) (result : α → HookResult Vnode) : Prop :=
  Goes why found p (fun a => PassedOn found request (result a)) []

variable {ctx : VfsContext}

/-- Close looks for a backing vnode whoever asks. -/
theorem passes_close (a_vp : Vnode) (a_fflag : Int) :
    Passes why found (.other ctx (.close a_vp a_fflag)) (qvrVnopCloseHookEx2 a_vp a_fflag)
      .error := by
  refine goes_call fun vnodeIo hvnodeIo => ?_
  cases vnodeIo with
  | none =>
    refine goes_original (.other ctx (.close a_vp a_fflag)) ?_
    rw [Request.endOfUse, ← hvnodeIo]
    rfl
  | some vnodeIo =>
    refine goes_call fun _ _ => goes_call fun _ _ => ?_
    refine goes_original (.other ctx (.close a_vp a_fflag)) ?_
    rw [Request.endOfUse, ← hvnodeIo]
    rfl

/-- Inactive passes its request on. -/
theorem passes_inactive (a_vp : Vnode) :
    Passes why found (.other ctx (.inactive a_vp)) (qvrVnopInactiveHookEx2 a_vp) .error := by
  refine goes_call fun vnodeIo hvnodeIo => ?_
  cases vnodeIo with
  | none =>
    refine goes_original (.other ctx (.inactive a_vp)) ?_
    rw [Request.endOfUse, ← hvnodeIo]
    rfl
  | some vnodeIo =>
    refine goes_call fun _ _ => goes_call fun _ _ => goes_call fun _ _ => goes_call fun _ _ => ?_
    refine goes_original (.other ctx (.inactive a_vp)) ?_
    rw [Request.endOfUse, ← hvnodeIo]
    rfl

/-- Read passes its request on. -/
theorem passes_read (h : why.Applies found ctx) (ap : IoArgs Vnode) :
    Passes why found (.other ctx (.read ap)) (qvrVnopReadHookEx2 ap) .error := by
  refine .bind (goes_backingVnodeForIo h.marked .read ap.a_vp) ?_
  rintro vnodeIo log ⟨rfl, hlog⟩
  exact goes_original (.other ctx (.read ap)) hlog

/-- Write passes its request on. -/
theorem passes_write (h : why.Applies found ctx) (ap : IoArgs Vnode) :
    Passes why found (.other ctx (.write ap)) (qvrVnopWriteHookEx2 ap) .error := by
  refine .bind (goes_backingVnodeForIo h.marked .write ap.a_vp) ?_
  rintro vnodeIo log ⟨rfl, hlog⟩
  exact goes_original (.other ctx (.write ap)) hlog

/-- What the original pageout returns is dropped. -/
theorem passes_pageout (h : why.Applies found ctx) (ap : PagingArgs Vnode) :
    Passes why found (.other ctx (.pageout ap)) (qvrVnopPageoutHookEx2 ap) .error := by
  refine .bind (goes_backingVnodeForIo h.marked .write ap.a_vp) ?_
  rintro vnodeIo log ⟨rfl, hlog⟩
  refine .bind (goes_original (.other ctx (.pageout ap)) hlog) ?_
  rintro e log ⟨r, -, heffects⟩
  exact .pure ⟨r, rfl, heffects⟩

/-- `IsUserClient()` behind a condition: asked where it does not hold. -/
theorem goes_orUserClient (condition : Bool) {c : CallLog Vnode} (hlog : effects log = c) :
    Goes why found (orUserClient condition)
      (fun b log => (condition = true ∨ why = .userClient → b = true) ∧ effects log = c)
      log := by
  cases condition with
  | true => exact .pure ⟨fun _ => rfl, hlog⟩
  | false =>
    refine ⟨trivial, fun isClient hclient => ⟨?_, ?_⟩⟩
    · rintro (h | h)
      · cases h
      · exact hclient h
    · rw [effects_append, hlog]
      exact List.append_nil _

/-- The client is asked up to twice; without application data the second answer does
not matter, as there is nothing to page in from elsewhere. -/
theorem passes_pagein (h : why.Applies found ctx) (ap : PagingArgs Vnode) :
    Passes why found (.other ctx (.pagein ap)) (qvrVnopPageinHookEx2 ap) .error := by
  refine goes_call fun cookie hcookie => goes_call fun appData happData => ?_
  obtain rfl : cookie = found.mark := hcookie
  refine .bind (goes_orUserClient (c := []) _ rfl) ?_
  rintro callOriginal log ⟨hcall, hlog⟩
  have hcallOriginal : callOriginal = true := by
    apply hcall
    cases why with
    | recursiveCall =>
      obtain ⟨cookie, hcookie⟩ := Option.ne_none_iff_exists'.mp (h.marked rfl)
      exact .inl (by simp [hcookie])
    | userClient => exact .inr rfl
    | uncontrolled =>
      obtain rfl := happData rfl
      exact .inl rfl
  subst hcallOriginal
  refine .bind (goes_original (.other ctx (.pagein ap)) hlog) ?_
  rintro error log ⟨r, herror, hpassed⟩
  obtain rfl : error = r := HookResult.error.inj herror
  refine .bind (goes_orUserClient _ hpassed) ?_
  rintro done log ⟨hdone, hlog⟩
  have hresult : PassedOn found (.other ctx (.pagein ap)) (.error error) log := ⟨error, rfl, hlog⟩
  cases done with
  | true => exact .pure hresult
  | false =>
    -- nobody's request: there is no application data, and no error
    have hnot : ¬ ((decide (error ≠ 0) || found.mark.isSome) = true ∨ why = .userClient) :=
      fun h => Bool.false_ne_true (hdone h)
    rw [not_or, Bool.or_eq_true, not_or, decide_eq_true_eq, not_not] at hnot
    obtain ⟨⟨rfl, hnone⟩, hwhy⟩ := hnot
    have hnotControlled : why = .uncontrolled := by
      cases why with
      | recursiveCall => exact absurd (Option.isSome_iff_ne_none.mpr (h.marked rfl)) hnone
      | userClient => exact absurd rfl hwhy
      | uncontrolled => rfl
    obtain rfl := happData hnotControlled
    exact .pure hresult

/-- A controlled vnode or process is not there, or the hook asks for the mark and the client. -/
theorem passes_exchange (h : why.Applies found ctx) (ap : ExchangeArgs Vnode) :
    Passes why found (.other ctx (.exchange ap)) (qvrVnopExchangeHookEx2 ctx ap) .error := by
  refine goes_call fun appDataVnode happData => ?_
  cases hdata : appDataVnode.or ctx.openExisting with
  | none => exact goes_original (.other ctx (.exchange ap)) rfl
  | some appData =>
    have hwhy : why ≠ .uncontrolled := by
      rintro rfl
      rw [happData rfl, VfsContext.openExisting, h.uncontrolled rfl] at hdata
      cases hdata
    cases hio : appData.redirectIo with
    | false =>
      simp only [hio]
      exact goes_original (.other ctx (.exchange ap)) rfl
    | true =>
      simp only [hio]
      refine .bind (goes_isRecursiveCallOrUserClient h.marked hwhy rfl) ?_
      rintro skip log ⟨rfl, hlog⟩
      exact goes_original (.other ctx (.exchange ap)) hlog

/-- The reference to the original vnode is given back before the operation. -/
theorem passes_getattr (h : why.Applies found ctx) (ap : GetattrArgs Vnode) :
    Passes why found (.other ctx (.getattr ap)) (qvrVnopGetattrHookEx2 ap)
      fun r => .getattr r.1 r.2 := by
  refine goes_call fun real hreal => ?_
  have hpass : ∀ log : CallLog Vnode, effects log = [] → Goes why found (getattrOriginal ap)
      (fun r => PassedOn found (.other ctx (.getattr ap)) (.getattr r.1 r.2)) log := by
    intro log hlog
    refine .bind (goes_original (.other ctx (.getattr ap)) hlog) ?_
    rintro ⟨error, a_vap⟩ log hpassed
    exact .pure hpassed
  cases real with
  | none => exact hpass _ rfl
  | some real =>
    have hwhy : why ≠ .uncontrolled := fun hwhy => Option.some_ne_none _ (hreal hwhy)
    refine .bind (goes_isRecursiveCallOrUserClient h.marked hwhy rfl) ?_
    rintro skip log ⟨rfl, hlog⟩
    refine goes_call fun _ _ => hpass _ ?_
    rw [effects_append, hlog]
    rfl

/-- Rename passes its request on, with the vnodes that it has. -/
theorem passes_rename (h : why.Applies found ctx) {fvp : Vnode} {ap : RenameArgs Vnode}
    (hfvp : ap.a_fvp = some fvp) :
    Passes why found (.other ctx (.rename fvp ap hfvp)) (qvrVnopRenameHookEx2 ctx fvp ap)
      fun r => .rename r.1 r.2 := by
  refine goes_call fun appDataVnode happData => ?_
  have hpass : ∀ log : CallLog Vnode, effects log = [] → Goes why found (renameUnchanged fvp ap)
      (fun r => PassedOn found (.other ctx (.rename fvp ap hfvp)) (.rename r.1 r.2)) log := by
    intro log hlog
    refine .bind (goes_original (.other ctx (.rename fvp ap hfvp)) hlog) ?_
    intro error log hpassed
    exact .pure hpassed
  cases hdata : appDataVnode.or ctx.openExisting with
  | none => exact hpass _ rfl
  | some appData =>
    have hwhy : why ≠ .uncontrolled := by
      rintro rfl
      rw [happData rfl, VfsContext.openExisting, h.uncontrolled rfl] at hdata
      cases hdata
    refine .bind (goes_isRecursiveCallOrUserClient h.marked hwhy rfl) ?_
    rintro skip log ⟨rfl, hlog⟩
    exact hpass log hlog

/-- A lookup looks for the mark of a rename even where it redirects nothing, and takes over the
operation at the cookie. -/
theorem goes_lookupOriginal {dvp : Vnode} {cnp : Componentname} (hlog : effects log = []) :
    Goes why found (lookupOriginal dvp cnp)
      (fun r => PassedOn found (.lookup ctx dvp cnp) (.vnode r.1 r.2)) log := by
  -- what the hook asks for besides is no effect
  have hpass : ∀ log, effects log = [] →
      Goes why found (vnopLookup dvp (found.nameInRename cnp))
        (fun r => PassedOn found (.lookup ctx dvp cnp) (.vnode r.1 r.2)) log :=
    fun log hlog => goes_original (.lookup ctx dvp cnp) hlog
  refine goes_call fun cookie hcookie => ?_
  obtain rfl : cookie = found.mark := hcookie
  have hseen : effects (log ++ [⟨.cookieForRecursiveCall, found.mark⟩]) = [] := by
    rw [effects_append, hlog]
    rfl
  unfold FoundByHook.nameInRename at hpass
  cases hmark : found.mark with
  | none =>
    rw [hmark] at hpass hseen
    exact hpass _ hseen
  | some cookie =>
    rw [hmark] at hpass hseen
    cases cookie with
    | currentThread => exact hpass _ hseen
    | a_fcnp =>
      refine goes_call fun nameiop hnameiop => ?_
      obtain rfl : nameiop = found.nameiop .a_fcnp := hnameiop
      refine hpass _ ?_
      rw [effects_append, hseen]
      rfl
    | a_tcnp =>
      refine goes_call fun nameiop hnameiop => ?_
      obtain rfl : nameiop = found.nameiop .a_tcnp := hnameiop
      refine hpass _ ?_
      rw [effects_append, hseen]
      rfl

variable [DecidableEq Vnode]

/-- Lookup passes its request on, within a rename with the operation of its cookie. -/
theorem passes_lookup (h : why.Applies found ctx) (dvp : Vnode) (cnp : Componentname) :
    Passes why found (.lookup ctx dvp cnp) (qvrVnopLookupHookEx2 ctx dvp cnp)
      fun r => .vnode r.1 r.2 := by
  cases happ : ctx.application with
  | none =>
    have hhook : qvrVnopLookupHookEx2 ctx dvp cnp = lookupOriginal dvp cnp := by
      rw [qvrVnopLookupHookEx2, VfsContext.createNew, VfsContext.openExisting, happ]
      rfl
    rw [hhook]
    exact goes_lookupOriginal rfl
  | some redirectTo =>
    have hwhy : why ≠ .uncontrolled := by
      rintro rfl
      rw [h.uncontrolled rfl] at happ
      cases happ
    rw [qvrVnopLookupHookEx2, VfsContext.createNew, VfsContext.openExisting, happ]
    refine .bind (goes_isRecursiveCallOrUserClient h.marked hwhy rfl) ?_
    rintro skip log ⟨rfl, hlog⟩
    exact goes_lookupOriginal hlog

omit [DecidableEq Vnode] in
/-- Create passes its request on. -/
theorem passes_create (h : why.Applies found ctx) (dvp : Vnode) (cnp : Componentname) :
    Passes why found (.create ctx dvp cnp) (qvrVnopCreateHookEx2 ctx dvp cnp)
      fun r => .vnode r.1 r.2 := by
  rw [qvrVnopCreateHookEx2]
  cases happ : ctx.createNew with
  | none => exact goes_original (.create ctx dvp cnp) rfl
  | some appData =>
    have hwhy : why ≠ .uncontrolled := by
      rintro rfl
      rw [VfsContext.createNew, h.uncontrolled rfl] at happ
      cases happ
    refine .bind (goes_isRecursiveCallOrUserClient h.marked hwhy rfl) ?_
    rintro skip log ⟨rfl, hlog⟩
    exact goes_original (.create ctx dvp cnp) hlog

end VfsRedirector
