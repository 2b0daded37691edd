import VfsRedirector.Library.Trace
import VfsRedirector.Redirect.Calls

/-!
# Which file a request goes to

Read, write and pageout have one scheme: the original operation for a request
without a backing vnode, else that of the backing vnode. `Dispatched` says what the
scheme is to do, of the calls of a hook and of what it returns. It holds of read and
write, but pageout drops the result of the original operation and returns `ENODATA`
in its place (`dispatched_iff`).

Pagein decides by `redirectIO` whether it calls the original operation, and
`QvrGetBackingVnodeForRedirectedIO` decides by `redirectIO` whether there is a
backing vnode. For data with `redirectIO` false there is neither, and the hook
returns 0 (`pagedIn_iff`).

The results of all calls are any, those of the vnode maps and of the recursion
engine too (`Prog.Trace`).

## Results

* `trace_inRecursiveCall` — the calls of a region are those of its body.
* `dispatched_iff` — when a hook for I/O returns the result of what it called.
* `pagedIn_iff` — when the pages for which 0 is returned were paged in.
-/

namespace VfsRedirector

open Library Prog Kernel

variable {Vnode : Type}

/-- A call with its result. -/
abbrev KernelCall (Vnode : Type) : Type := Σ o : KernelOp Vnode, o.Res

-- ---------------------------------------------------------------------------
-- What is called
-- ---------------------------------------------------------------------------

/-- A request that is dispatched. -/
inductive IoRequest (Vnode : Type) where
  | read (ap : IoArgs Vnode)
  | write (ap : IoArgs Vnode)
  | pageout (ap : PagingArgs Vnode)

namespace IoRequest

def a_vp : IoRequest Vnode → Vnode
  | read ap | write ap => ap.a_vp
  | pageout ap => ap.a_vp

/-- The operation in the audit record. -/
def op : IoRequest Vnode → HookedOp
  | read _ => .read
  | write _ | pageout _ => .write

def hook : IoRequest Vnode → Kernel Vnode Int
  | read ap => qvrVnopReadHookEx2 ap
  | write ap => qvrVnopWriteHookEx2 ap
  | pageout ap => qvrVnopPageoutHookEx2 ap

/-- The other one is a copy with another vnode; its context and its upl are those
under which the backing file is written. -/
inductive CopyFor (vnodeIo : Vnode) : IoRequest Vnode → IoRequest Vnode → Prop
  | read (ap : IoArgs Vnode) : CopyFor vnodeIo (read ap) (read { ap with a_vp := vnodeIo })
  | write (ap : IoArgs Vnode) :
    CopyFor vnodeIo (write ap) (write { ap with a_vp := vnodeIo, a_context := .superUser })
  | pageout (ap : PagingArgs Vnode) (a_pl : Option Nat) :
    CopyFor vnodeIo (pageout ap)
      (pageout { ap with a_vp := vnodeIo, a_context := .superUser, a_pl })

end IoRequest

/-- A call of read, write or pageout: the implementation, the request and the result. -/
def ioVnop : KernelCall Vnode → Option (Implementation Vnode × IoRequest Vnode × Int)
  | ⟨.vnopRead implementation ap, error⟩ => some (implementation, .read ap, error)
  | ⟨.vnopWrite implementation ap, error⟩ => some (implementation, .write ap, error)
  | ⟨.vnopPageout implementation ap, error⟩ => some (implementation, .pageout ap, error)
  | _ => none

/-- The result of a call that transfers data of a file. -/
def transfer : KernelCall Vnode → Option Int
  | ⟨.vnopRead .., error⟩ | ⟨.vnopWrite .., error⟩ | ⟨.vnopPageout .., error⟩
  | ⟨.vnRdwr .., error⟩ => some error
  | _ => none

def ioVnops (log : List (KernelCall Vnode)) :
    List (Implementation Vnode × IoRequest Vnode × Int) :=
  log.filterMap ioVnop

def transfers (log : List (KernelCall Vnode)) : List Int := log.filterMap transfer

@[simp] theorem ioVnops_nil : ioVnops ([] : List (KernelCall Vnode)) = [] := rfl

@[simp] theorem transfers_nil : transfers ([] : List (KernelCall Vnode)) = [] := rfl

@[simp] theorem ioVnops_append (log log' : List (KernelCall Vnode)) :
    ioVnops (log ++ log') = ioVnops log ++ ioVnops log' := List.filterMap_append

@[simp] theorem transfers_append (log log' : List (KernelCall Vnode)) :
    transfers (log ++ log') = transfers log ++ transfers log' := List.filterMap_append

@[simp] theorem ioVnops_cons (call : KernelCall Vnode) (log : List (KernelCall Vnode)) :
    ioVnops (call :: log) = (ioVnop call).toList ++ ioVnops log := by
  unfold ioVnops
  rw [List.filterMap_cons]
  cases ioVnop call <;> rfl

@[simp] theorem transfers_cons (call : KernelCall Vnode) (log : List (KernelCall Vnode)) :
    transfers (call :: log) = (transfer call).toList ++ transfers log := by
  unfold transfers
  rw [List.filterMap_cons]
  cases transfer call <;> rfl

/-- The calls that transfer nothing. -/
def KernelOp.NoTransfer : KernelOp Vnode → Prop
  | .vnopRead .. | .vnopWrite .. | .vnopPageout .. | .vnRdwr .. => False
  | _ => True

/-- Code that calls no original operation is not about read, write or pageout. -/
theorem ioVnops_noVnop {α : Type} {p : Kernel Vnode α} (hp : p.Calls KernelOp.NoVnop)
    {log : List (KernelCall Vnode)} {a : α} (h : p.Trace log a) : ioVnops log = [] := by
  refine List.filterMap_eq_nil_iff.mpr fun call hcall => ?_
  obtain ⟨o, r⟩ := call
  have ho : o.NoVnop := hp.of_trace h _ hcall
  cases o <;> first | rfl | exact ho.elim

/-- Code of such calls transfers nothing. -/
theorem transfers_noTransfer {α : Type} {p : Kernel Vnode α} (hp : p.Calls KernelOp.NoTransfer)
    {log : List (KernelCall Vnode)} {a : α} (h : p.Trace log a) :
    ioVnops log = [] ∧ transfers log = [] := by
  constructor <;> refine List.filterMap_eq_nil_iff.mpr fun call hcall => ?_
  all_goals
    obtain ⟨o, r⟩ := call
    have ho : o.NoTransfer := hp.of_trace h _ hcall
    cases o <;> first | rfl | exact ho.elim

-- ---------------------------------------------------------------------------
-- What the scheme is to do
-- ---------------------------------------------------------------------------

/-- A backing vnode was obtained for the request. -/
def BackingObtained (r : IoRequest Vnode) (log : List (KernelCall Vnode)) : Prop :=
  ∃ vnodeIo getting rest, log = getting ++ rest ∧
    (backingVnodeForIo r.op r.a_vp).Trace getting (some vnodeIo)

/-- The calls of a hook: those of `getting` look for a backing vnode, and `rest` follows. -/
structure DispatchedFrom (r : IoRequest Vnode) (backing : Option Vnode)
    (getting rest : List (KernelCall Vnode)) (error : Int) : Prop where
  one : (ioVnops (getting ++ rest)).length ≤ 1
  either : ∀ call ∈ ioVnops (getting ++ rest), (call.1 = .original r.a_vp ∧ call.2.1 = r) ∨
    ∃ vnodeIo, backing = some vnodeIo ∧ call.1 = .vnop vnodeIo ∧ r.CopyFor vnodeIo call.2.1
  original_iff :
    (∃ e, (.original r.a_vp, r, e) ∈ ioVnops (getting ++ rest)) ↔ backing = none
  original_result : ∀ e, (.original r.a_vp, r, e) ∈ ioVnops (getting ++ rest) → error = e
  succeeded : backing ≠ none → error = 0 → ∀ e ∈ transfers rest, e = 0

/-- At most one of the two operations is called, the original one exactly if there is no
backing vnode, and its result is returned; else 0 is returned only if all that was
transferred to the backing vnode succeeded. -/
def Dispatched (r : IoRequest Vnode) (log : List (KernelCall Vnode)) (error : Int) : Prop :=
  ∃ backing getting rest, log = getting ++ rest ∧
    (backingVnodeForIo r.op r.a_vp).Trace getting backing ∧
    DispatchedFrom r backing getting rest error

/-- The backing vnode is looked for without an original operation. -/
theorem noVnop_backingVnodeForIo (op : HookedOp) (a_vp : Vnode) :
    (backingVnodeForIo op a_vp).Calls KernelOp.NoVnop := by
  refine .bind (.perform trivial) fun appData => ?_
  cases appData with
  | none => exact .pure
  | some appData =>
    refine .bind (noVnop_plain plain_isRecursiveCallOrUserClient) fun recursive => ?_
    split
    · exact .pure
    · exact .bind (.perform trivial) fun _ =>
        (connecting_qvrGetBackingVnodeForRedirectedIo ..).mono fun _ => KernelOp.Connecting.noVnop

section From

variable {r : IoRequest Vnode} {getting rest : List (KernelCall Vnode)} {error : Int}

/-- Without a backing vnode the original operation is called, with the result `e`. -/
theorem DispatchedFrom.of_original {e : Int} (hgetting : ioVnops getting = [])
    (hrest : ioVnops rest = [(.original r.a_vp, r, e)]) :
    DispatchedFrom r none getting rest error ↔ error = e := by
  have hall : ioVnops (getting ++ rest) = [(.original r.a_vp, r, e)] := by
    rw [ioVnops_append, hgetting, hrest, List.nil_append]
  constructor
  · intro h
    exact h.original_result e (by rw [hall]; exact List.mem_singleton_self _)
  · rintro rfl
    refine ⟨by rw [hall]; exact le_rfl, fun call hcall => ?_, ?_, fun e he => ?_,
      fun h => absurd rfl h⟩
    · rw [hall, List.mem_singleton] at hcall
      subst hcall
      exact .inl ⟨rfl, rfl⟩
    · rw [hall]
      exact iff_of_true ⟨error, List.mem_singleton_self _⟩ rfl
    · rw [hall, List.mem_singleton, Prod.mk.injEq, Prod.mk.injEq] at he
      exact he.2.2.symm

/-- What is done with a backing vnode. -/
def ToBacking (r : IoRequest Vnode) (vnodeIo : Vnode) (rest : List (KernelCall Vnode))
    (error : Int) : Prop :=
  (ioVnops rest = [] ∨
    ∃ copy e, r.CopyFor vnodeIo copy ∧ ioVnops rest = [(.vnop vnodeIo, copy, e)]) ∧
    (error = 0 → ∀ e ∈ transfers rest, e = 0)

/-- With a backing vnode the request goes to it alone. -/
theorem DispatchedFrom.of_backing {vnodeIo : Vnode} (hgetting : ioVnops getting = [])
    (hrest : ToBacking r vnodeIo rest error) :
    DispatchedFrom r (some vnodeIo) getting rest error := by
  obtain ⟨hcalls, hsucceeded⟩ := hrest
  have hall : ioVnops (getting ++ rest) = ioVnops rest := by
    rw [ioVnops_append, hgetting, List.nil_append]
  -- the one call was to the backing vnode, so none is to the original
  have hnot : ∀ e, (.original r.a_vp, r, e) ∉ ioVnops (getting ++ rest) := by
    intro e he
    rw [hall] at he
    rcases hcalls with hnone | ⟨copy, e', -, hone⟩
    · rw [hnone] at he
      cases he
    · rw [hone, List.mem_singleton, Prod.mk.injEq] at he
      cases he.1
  refine ⟨?_, fun call hcall => ?_, ?_, fun e he => absurd he (hnot e), fun _ => hsucceeded⟩
  · rw [hall]
    rcases hcalls with hnone | ⟨copy, e, -, hone⟩
    · rw [hnone]
      exact Nat.zero_le 1
    · rw [hone]
      exact le_rfl
  · rw [hall] at hcall
    rcases hcalls with hnone | ⟨copy, e, hcopy, hone⟩
    · rw [hnone] at hcall
      cases hcall
    · rw [hone, List.mem_singleton] at hcall
      subst hcall
      exact .inr ⟨vnodeIo, rfl, rfl, hcopy⟩
  · refine iff_of_false ?_ (Option.some_ne_none vnodeIo)
    rintro ⟨e, he⟩
    exact hnot e he

end From

-- ---------------------------------------------------------------------------
-- Read and write
-- ---------------------------------------------------------------------------

theorem KernelOp.Sizing.noTransfer {o : KernelOp Vnode} (h : o.Sizing) : o.NoTransfer := by
  cases o <;> trivial

/-- The calls of a region are those of its body between the two of the mark. -/
theorem trace_inRecursiveCall {α : Type} {cookie : Cookie} {p : Kernel Vnode α}
    {log : List (KernelCall Vnode)} {a : α} (h : (inRecursiveCall cookie p).Trace log a) :
    ∃ inner, log = ⟨.enterRecursiveCall cookie, ()⟩ :: inner ++ [⟨.leaveRecursiveCall, ()⟩] ∧
      p.Trace inner a := by
  obtain ⟨entered, log₁, rfl, h₁⟩ := trace_perform_bind.mp h
  obtain ⟨a', inner, log₂, rfl, hp, h₂⟩ := trace_bind.mp h₁
  obtain ⟨left, log₃, rfl, h₃⟩ := trace_perform_bind.mp h₂
  obtain ⟨rfl, rfl⟩ := trace_pure.mp h₃
  exact ⟨inner, rfl, hp⟩

/-- A trace of the body, between the two calls of the mark, is one of the region. -/
theorem trace_inRecursiveCall_of {α : Type} (cookie : Cookie) {p : Kernel Vnode α} {a : α}
    {inner : List (KernelCall Vnode)} (h : p.Trace inner a) :
    (inRecursiveCall cookie p).Trace
      (⟨.enterRecursiveCall cookie, ()⟩ :: (inner ++ [⟨.leaveRecursiveCall, ()⟩])) a :=
  trace_perform_bind.mpr ⟨(), _, rfl, trace_bind.mpr ⟨a, inner, _, rfl, h,
    trace_perform_bind.mpr ⟨(), [], rfl, .pure⟩⟩⟩

/-- The client is asked for only outside of the recursion. -/
theorem trace_isRecursiveCallOrUserClient {log : List (KernelCall Vnode)} {skip : Bool}
    (h : (isRecursiveCallOrUserClient : Kernel Vnode Bool).Trace log skip) :
    (∃ cookie, log = [⟨.cookieForRecursiveCall, some cookie⟩] ∧ skip = true) ∨
      log = [⟨.cookieForRecursiveCall, none⟩, ⟨.isUserClient, skip⟩] := by
  obtain ⟨cookie, log₁, rfl, h₁⟩ := trace_perform_bind.mp h
  cases cookie with
  | some cookie =>
    obtain ⟨rfl, rfl⟩ := trace_pure.mp h₁
    exact .inl ⟨cookie, rfl, rfl⟩
  | none =>
    obtain rfl := trace_perform.mp h₁
    exact .inr rfl

/-- A list that begins with the calls that are made outside of the recursion. -/
theorem trace_notInRecursion {α : Type} {f : Bool → Kernel Vnode α} {a : α} {skip : Bool}
    {log : List (KernelCall Vnode)} :
    (isRecursiveCallOrUserClient >>= f).Trace
      (⟨.cookieForRecursiveCall, none⟩ :: ⟨.isUserClient, skip⟩ :: log) a ↔
        (f skip).Trace log a := by
  constructor
  · intro h
    obtain ⟨skip', first, rest, hlog, hskip, hrest⟩ := trace_bind.mp h
    obtain ⟨cookie, rfl, -⟩ | rfl := trace_isRecursiveCallOrUserClient hskip
    · rw [List.singleton_append, List.cons.injEq, Sigma.mk.injEq] at hlog
      cases eq_of_heq hlog.1.2
    · rw [List.cons_append, List.cons_append, List.nil_append, List.cons.injEq,
        List.cons.injEq] at hlog
      obtain ⟨-, huser, rfl⟩ := hlog
      obtain rfl : skip = skip' := eq_of_heq (Sigma.mk.inj huser).2
      exact hrest
  · intro h
    exact .call (.call h)

/-- An operation that writes: what follows it transfers nothing. -/
theorem trace_thenAdjustSize {vnode vnodeIo : Vnode} {context : Context}
    {p : Kernel Vnode Int} {log : List (KernelCall Vnode)} {error : Int}
    (h : (thenAdjustSize vnode vnodeIo context p).Trace log error) :
    ∃ first rest, log = first ++ rest ∧ p.Trace first error ∧ ioVnops rest = [] ∧
      transfers rest = [] := by
  obtain ⟨e, first, rest, rfl, hp, hrest⟩ := trace_bind.mp h
  split at hrest
  · obtain ⟨e', adjust, rest', rfl, hadjust, hdone⟩ := trace_bind.mp hrest
    obtain ⟨rfl, rfl⟩ := trace_pure.mp hdone
    have hsizing := sizing_qvrAdjustVnodeSizeByBackingVnode vnode vnodeIo context
    obtain ⟨hio, htransfers⟩ :=
      transfers_noTransfer (hsizing.mono fun _ => KernelOp.Sizing.noTransfer) hadjust
    exact ⟨first, adjust ++ [], rfl, hp, by simp [hio], by simp [htransfers]⟩
  · obtain ⟨rfl, rfl⟩ := trace_pure.mp hrest
    exact ⟨first, [], rfl, hp, rfl, rfl⟩

/-- A read is dispatched to the backing vnode if there is one, and to the original else. -/
theorem read_dispatched {ap : IoArgs Vnode} {log : List (KernelCall Vnode)} {error : Int}
    (h : (qvrVnopReadHookEx2 ap).Trace log error) : Dispatched (.read ap) log error := by
  obtain ⟨backing, getting, rest, rfl, hget, hrest⟩ := trace_bind.mp h
  have hgetting : ioVnops getting = [] := ioVnops_noVnop (noVnop_backingVnodeForIo ..) hget
  refine ⟨backing, getting, rest, rfl, hget, ?_⟩
  cases backing with
  | none =>
    obtain rfl := trace_perform.mp hrest
    exact (DispatchedFrom.of_original hgetting rfl).mpr rfl
  | some vnodeIo =>
    obtain ⟨e, called, put, rfl, hcalled, hput⟩ := trace_bind.mp hrest
    obtain ⟨inner, rfl, hinner⟩ := trace_inRecursiveCall hcalled
    obtain rfl := trace_perform.mp hinner
    obtain ⟨done, log, rfl, hdone⟩ := trace_perform_bind.mp hput
    obtain ⟨rfl, rfl⟩ := trace_pure.mp hdone
    refine .of_backing hgetting ⟨.inr ⟨_, error, .read ap, rfl⟩, fun herror e he => ?_⟩
    have he' : e ∈ [error] := he
    rw [List.mem_singleton.mp he', herror]

/-- A write is dispatched to the backing vnode if there is one, and to the original else. -/
theorem write_dispatched {ap : IoArgs Vnode} {log : List (KernelCall Vnode)} {error : Int}
    (h : (qvrVnopWriteHookEx2 ap).Trace log error) : Dispatched (.write ap) log error := by
  obtain ⟨backing, getting, rest, rfl, hget, hrest⟩ := trace_bind.mp h
  have hgetting : ioVnops getting = [] := ioVnops_noVnop (noVnop_backingVnodeForIo ..) hget
  refine ⟨backing, getting, rest, rfl, hget, ?_⟩
  cases backing with
  | none =>
    obtain rfl := trace_perform.mp hrest
    exact (DispatchedFrom.of_original hgetting rfl).mpr rfl
  | some vnodeIo =>
    obtain ⟨e, called, put, rfl, hcalled, hput⟩ := trace_bind.mp hrest
    obtain ⟨inner, rfl, hinner⟩ := trace_inRecursiveCall hcalled
    obtain ⟨vnop, adjust, rfl, hvnop, hio, htransfers⟩ := trace_thenAdjustSize hinner
    obtain rfl := trace_perform.mp hvnop
    obtain ⟨done, log, rfl, hdone⟩ := trace_perform_bind.mp hput
    obtain ⟨rfl, rfl⟩ := trace_pure.mp hdone
    refine .of_backing hgetting
      ⟨.inr ⟨_, error, .write ap, by simp [ioVnop, hio]⟩, fun herror e he => ?_⟩
    have he' : e = error := by simpa [transfer, htransfers] using he
    rw [he', herror]

-- ---------------------------------------------------------------------------
-- Pageout
-- ---------------------------------------------------------------------------

/-- A UPL that is aborted transfers nothing. -/
theorem trace_abortIfMustCommit {upl : Option Nat} {apIo : PagingArgs Vnode}
    {log : List (KernelCall Vnode)} {a : Unit} (h : (abortIfMustCommit upl apIo).Trace log a) :
    ioVnops log = [] ∧ transfers log = [] := by
  refine transfers_noTransfer ?_ h
  unfold abortIfMustCommit
  split
  · split
    · exact .perform trivial
    · exact .pure
  · exact .pure

/-- The exit of a pageout returns the error it was reached with. -/
theorem trace_pageoutExitUpl {upl uplAllPages : Option Nat} {map size : Nat} {error a : Int}
    {log : List (KernelCall Vnode)}
    (h : (pageoutExitUpl upl uplAllPages map size error).Trace log a) :
    a = error ∧ ioVnops log = [] ∧ transfers log = [] := by
  refine ⟨?_, transfers_noTransfer ?_ h⟩
  -- the exit keeps the error
  · have hreturns : (pageoutExitUpl upl uplAllPages map size error : Kernel Vnode Int).Returns
        fun a => a = error := by
      unfold pageoutExitUpl
      dsimp only
      split
      · refine .bind (.trivial _) fun _ _ => ?_
        split
        · exact .bind (.trivial _) fun _ _ => .pure rfl
        · exact .pure rfl
      · split
        · exact .bind (.trivial _) fun _ _ => .pure rfl
        · exact .pure rfl
    exact hreturns.of_trace h
  · unfold pageoutExitUpl
    dsimp only
    split
    · refine .bind (.perform trivial) fun _ => ?_
      cases upl with
      | some upl => exact .bind (.perform trivial) fun _ => .pure
      | none => exact .pure
    · cases upl with
      | some upl => exact .bind (.perform trivial) fun _ => .pure
      | none => exact .pure

/-- The second transfer of pageout decides what it returns. -/
theorem trace_writePages {ap : PagingArgs Vnode} {vnodeIo : Vnode} {upl : Option Nat} {error : Int}
    {log : List (KernelCall Vnode)} (h : (writePages ap vnodeIo upl).Trace log error) :
    ioVnops log = [] ∧ (error = 0 → ∀ e ∈ transfers log, e = 0) := by
  obtain ⟨⟨created, uplAllPages⟩, log₁, rfl, h₁⟩ := trace_perform_bind.mp h
  dsimp only at h₁
  split at h₁
  · obtain ⟨⟨mapped, map⟩, log₂, rfl, h₂⟩ := trace_perform_bind.mp h₁
    dsimp only at h₂
    split at h₂
    · obtain ⟨rfl, hio, htransfers⟩ := trace_pageoutExitUpl h₂
      exact ⟨by simp [ioVnop, hio], by simp [transfer, htransfers]⟩
    · obtain ⟨written, log₃, rfl, h₃⟩ := trace_perform_bind.mp h₂
      obtain ⟨rfl, hio, htransfers⟩ := trace_pageoutExitUpl h₃
      exact ⟨by simp [ioVnop, hio], by simp [transfer, htransfers]⟩
  · obtain ⟨rfl, hio, htransfers⟩ := trace_pageoutExitUpl h₁
    exact ⟨by simp [ioVnop, hio], by simp [transfer, htransfers]⟩

/-- The backing pageout is called once, and 0 returned only if all transfers succeeded. -/
theorem trace_pageoutToBackingVnode {ap apIo : PagingArgs Vnode} {vnodeIo : Vnode}
    {upl : Option Nat} {error : Int} {log : List (KernelCall Vnode)}
    (h : (pageoutToBackingVnode ap apIo vnodeIo upl).Trace log error) :
    (∃ e, ioVnops log = [(.vnop vnodeIo, .pageout apIo, e)]) ∧
      (error = 0 → ∀ e ∈ transfers log, e = 0) := by
  obtain ⟨e, called, log₁, rfl, hcalled, h₁⟩ := trace_bind.mp h
  obtain ⟨inner, rfl, hinner⟩ := trace_inRecursiveCall hcalled
  obtain ⟨vnop, adjust, rfl, hvnop, hio, htransfers⟩ := trace_thenAdjustSize hinner
  obtain rfl := trace_perform.mp hvnop
  dsimp only at h₁
  -- a request without a UPL: the pages are written through one that the hook creates
  split at h₁
  · rename_i hboth
    obtain ⟨e', pages, log₂, rfl, hpages, h₂⟩ := trace_bind.mp h₁
    obtain ⟨done, abort, log₃, rfl, habort, h₃⟩ := trace_bind.mp h₂
    obtain ⟨rfl, rfl⟩ := trace_pure.mp h₃
    obtain ⟨hioAbort, htransfersAbort⟩ := trace_abortIfMustCommit habort
    obtain ⟨hioPages, hpages⟩ := trace_writePages hpages
    refine ⟨⟨e, by simp [ioVnop, hio, hioPages, hioAbort]⟩, fun herror e' he => ?_⟩
    have he' : e' = e ∨ e' ∈ transfers pages := by
      simpa [transfer, htransfers, htransfersAbort] using he
    rcases he' with rfl | he'
    · exact hboth.1
    · exact hpages herror e' he'
  · obtain ⟨e', kept, log₂, rfl, hkept, h₂⟩ := trace_bind.mp h₁
    obtain ⟨rfl, rfl⟩ := trace_pure.mp hkept
    obtain ⟨done, abort, log₃, rfl, habort, h₃⟩ := trace_bind.mp h₂
    obtain ⟨rfl, rfl⟩ := trace_pure.mp h₃
    obtain ⟨hioAbort, htransfersAbort⟩ := trace_abortIfMustCommit habort
    refine ⟨⟨error, by simp [ioVnop, hio, hioAbort]⟩, fun herror e' he => ?_⟩
    have he' : e' = error := by simpa [transfer, htransfers, htransfersAbort] using he
    rw [he', herror]

/-- A pageout with a backing vnode is dispatched to it. -/
theorem trace_pageoutBacking {ap : PagingArgs Vnode} {vnodeIo : Vnode} {error : Int}
    {log : List (KernelCall Vnode)} (h : (pageoutBacking ap vnodeIo).Trace log error) :
    ToBacking (.pageout ap) vnodeIo log error := by
  obtain ⟨flags, log₁, rfl, h₁⟩ := trace_perform_bind.mp h
  split at h₁
  · obtain ⟨⟨created, upl⟩, log₂, rfl, h₂⟩ := trace_perform_bind.mp h₁
    dsimp only at h₂
    split at h₂
    · rename_i upl
      obtain ⟨⟨e, hio⟩, htransfers⟩ := trace_pageoutToBackingVnode h₂
      refine ⟨.inr ⟨_, e, .pageout ap (some upl), ?_⟩, fun herror e' he => htransfers herror e' ?_⟩
      · simpa [ioVnop] using hio
      · simpa [transfer] using he
    · -- without a upl for the backing vnode nothing is called
      obtain ⟨done, abort, log₃, rfl, habort, h₃⟩ := trace_bind.mp h₂
      obtain ⟨rfl, rfl⟩ := trace_pure.mp h₃
      obtain ⟨hioAbort, htransfersAbort⟩ := trace_abortIfMustCommit habort
      refine ⟨.inl (by simp [ioVnop, hioAbort]), fun _ e he => ?_⟩
      simp [transfer, htransfersAbort] at he
  · obtain ⟨⟨e, hio⟩, htransfers⟩ := trace_pageoutToBackingVnode h₁
    refine ⟨.inr ⟨_, e, .pageout ap ap.a_pl, ?_⟩, fun herror e' he => htransfers herror e' ?_⟩
    · simpa [ioVnop] using hio
    · simpa [transfer] using he

/-- Pageout, with what the original operation returned, if it was called. -/
theorem pageout_dispatched {ap : PagingArgs Vnode} {log : List (KernelCall Vnode)} {error : Int}
    (h : (qvrVnopPageoutHookEx2 ap).Trace log error) :
    ∃ backing getting rest, log = getting ++ rest ∧
      (backingVnodeForIo .write ap.a_vp).Trace getting backing ∧
      match backing with
      | some vnodeIo => DispatchedFrom (.pageout ap) (some vnodeIo) getting rest error
      | none => ∃ e, rest = [⟨.vnopPageout (.original ap.a_vp) ap, e⟩] ∧
        (DispatchedFrom (.pageout ap) none getting rest error ↔ e = ENODATA) := by
  obtain ⟨backing, getting, rest, rfl, hget, hrest⟩ := trace_bind.mp h
  have hgetting : ioVnops getting = [] := ioVnops_noVnop (noVnop_backingVnodeForIo ..) hget
  refine ⟨backing, getting, rest, rfl, hget, ?_⟩
  cases backing with
  | none =>
    obtain ⟨e, log₁, rfl, h₁⟩ := trace_perform_bind.mp hrest
    obtain ⟨rfl, rfl⟩ := trace_pure.mp h₁
    exact ⟨e, rfl, (DispatchedFrom.of_original hgetting rfl).trans eq_comm⟩
  | some vnodeIo =>
    obtain ⟨e, paged, put, rfl, hpaged, hput⟩ := trace_bind.mp hrest
    obtain ⟨done, log₁, rfl, h₁⟩ := trace_perform_bind.mp hput
    obtain ⟨rfl, rfl⟩ := trace_pure.mp h₁
    obtain ⟨hio, htransfers⟩ := trace_pageoutBacking hpaged
    refine .of_backing hgetting ⟨?_, fun herror e he => htransfers herror e ?_⟩
    · simpa [ioVnop] using hio
    · simpa [transfer] using he

-- ---------------------------------------------------------------------------
-- Main results
-- ---------------------------------------------------------------------------

/-- The hook returns the result of the operation that it dispatches the request to. -/
def ResultKept (r : IoRequest Vnode) (log : List (KernelCall Vnode)) : Prop :=
  match r with
  | .read _ | .write _ => True
  | .pageout ap =>
    BackingObtained r log ∨ ⟨.vnopPageout (.original ap.a_vp) ap, ENODATA⟩ ∈ log

/-- **What a hook for I/O returns is the result of the operation that was called**, of a pageout
just if the backing vnode was obtained, or the original returned `ENODATA` itself. -/
theorem dispatched_iff {r : IoRequest Vnode} {log : List (KernelCall Vnode)} {error : Int}
    (h : r.hook.Trace log error) : Dispatched r log error ↔ ResultKept r log := by
  cases r with
  | read ap => exact iff_of_true (read_dispatched h) trivial
  | write ap => exact iff_of_true (write_dispatched h) trivial
  | pageout ap =>
    obtain ⟨backing, getting, rest, rfl, hget, hdispatched⟩ := pageout_dispatched h
    have hgetting : ioVnops getting = [] := ioVnops_noVnop (noVnop_backingVnodeForIo ..) hget
    cases backing with
    | some vnodeIo =>
      exact iff_of_true ⟨_, getting, rest, rfl, hget, hdispatched⟩
        (.inl ⟨vnodeIo, getting, rest, rfl, hget⟩)
    | none =>
      obtain ⟨e, rfl, hiff⟩ := hdispatched
      constructor
      · rintro ⟨backing', getting', rest', heq, hget', hfrom⟩
        -- the calls up to here decide that there is no backing vnode
        obtain ⟨rfl, rfl⟩ := hget.unique hget' heq
        obtain rfl := List.append_cancel_left heq
        rw [hiff.mp hfrom]
        exact .inr (List.mem_append_right _ (List.mem_singleton_self _))
      · rintro (⟨vnodeIo, getting', rest', heq, hget'⟩ | hmem)
        · cases (hget.unique hget' heq).2
        · refine ⟨none, getting, _, rfl, hget, hiff.mpr ?_⟩
          have hio : (.original ap.a_vp, .pageout ap, ENODATA) ∈
              ioVnops (getting ++ [⟨.vnopPageout (.original ap.a_vp) ap, e⟩]) :=
            List.mem_filterMap.mpr ⟨_, hmem, rfl⟩
          rw [ioVnops_append, hgetting, List.nil_append] at hio
          have he : (Implementation.original ap.a_vp, IoRequest.pageout ap, ENODATA) =
              (.original ap.a_vp, .pageout ap, e) := List.mem_singleton.mp hio
          rw [Prod.mk.injEq, Prod.mk.injEq] at he
          exact he.2.2.symm

/-- A page of vnode 1, which no one redirects. -/
def pageRequest : PagingArgs Nat := ⟨1, none, 0, 0, 4096, ⟨false, false⟩, .caller⟩

/-- It is handed to the original pageout, which returns `e`. -/
def pageoutCalls (e : Int) : List (KernelCall Nat) :=
  [⟨.getVnodeAppData 1, none⟩, ⟨.vnopPageout (.original 1) pageRequest, e⟩]

/-- The hook makes these calls and returns `ENODATA`. -/
theorem pageoutCalls_trace (e : Int) :
    (IoRequest.pageout pageRequest).hook.Trace (pageoutCalls e) ENODATA :=
  .call (.call .pure)

/-- The same page with a upl, of a vnode that has `redirectIO` data. -/
def uplRequest : PagingArgs Nat := { pageRequest with a_pl := some 7 }

/-- The vnode has the backing vnode 5, which is asked for. -/
def backingCalls : List (KernelCall Nat) :=
  [⟨.getVnodeAppData 1, some ⟨[47, 114], true⟩⟩, ⟨.cookieForRecursiveCall, none⟩,
    ⟨.isUserClient, false⟩, ⟨.auditVnode .write 1, ()⟩, ⟨.vnodeVtype 1, .vreg⟩,
    ⟨.getVnodeIoRef 1, some 5⟩]

/-- The page is handed to the pageout of the backing vnode, which succeeds. -/
def backingPageoutCalls : List (KernelCall Nat) :=
  backingCalls ++ [⟨.qvrGetVnodeVfsFlags 5, ⟨true, true⟩⟩,
    ⟨.enterRecursiveCall .currentThread, ()⟩,
    ⟨.vnopPageout (.vnop 5) { uplRequest with a_vp := 5, a_context := .superUser }, 0⟩,
    ⟨.qvrVnodeGetSize 1 .caller, (0, 4096)⟩, ⟨.qvrVnodeGetSize 5 .superUser, (0, 4096)⟩,
    ⟨.leaveRecursiveCall, ()⟩, ⟨.vnodePut 5, ()⟩]

/-- A pageout of a vnode with `redirectIO` goes to its backing vnode, whose result is returned. -/
theorem dispatched_backing : Dispatched (.pageout uplRequest) backingPageoutCalls 0 := by
  have hget : (backingVnodeForIo .write 1).Trace backingCalls (some 5) :=
    .call (.call (.call (.call (.call (.call .pure)))))
  have htrace : (IoRequest.pageout uplRequest).hook.Trace backingPageoutCalls 0 :=
    .call (.call (.call (.call (.call (.call (.call (.call (.call (.call (.call (.call
      (.call .pure))))))))))))
  exact (dispatched_iff htrace).mpr (.inl ⟨5, backingCalls, _, rfl, hget⟩)

/-- The original pageout wrote the page, and the hook reports an error. -/
theorem not_dispatched :
    ¬ ∀ (r : IoRequest Nat) (log : List (KernelCall Nat)) (error : Int),
      r.hook.Trace log error → Dispatched r log error := by
  intro h
  obtain ⟨backing, getting, rest, heq, hget, hfrom⟩ := h _ _ _ (pageoutCalls_trace 0)
  have hio : ((.original 1, .pageout pageRequest, 0) : Implementation Nat × IoRequest Nat × Int) ∈
      ioVnops (getting ++ rest) := by
    rw [← heq]
    exact List.mem_singleton_self _
  have herror : ENODATA = 0 := hfrom.original_result 0 hio
  cases herror

-- ---------------------------------------------------------------------------
-- Pagein
-- ---------------------------------------------------------------------------

/-- A call that paged in the range of the request has succeeded. -/
def PagedIn (ap : PagingArgs Vnode) (log : List (KernelCall Vnode)) : Prop :=
  ⟨.vnopPagein (.original ap.a_vp) ap, 0⟩ ∈ log ∨
    ∃ vnodeIo apIo, ⟨.vnopPagein (.vnop vnodeIo) apIo, 0⟩ ∈ log ∧
      apIo.a_f_offset = ap.a_f_offset ∧ apIo.a_size = ap.a_size

/-- The request is not recursive and not of the client, and its vnode has data with
`redirectIO` false. -/
def PathRedirected (ap : PagingArgs Vnode) (log : List (KernelCall Vnode)) : Prop :=
  ∃ appData : ApplicationData, appData.redirectIo = false ∧
    [⟨.cookieForRecursiveCall, none⟩, ⟨.getVnodeAppData ap.a_vp, some appData⟩,
      ⟨.isUserClient, false⟩] <+: log

/-- The client is asked for only where the condition does not decide. -/
theorem trace_orUserClient {condition a : Bool} {log : List (KernelCall Vnode)}
    (h : (orUserClient condition).Trace log a) :
    (condition = true ∧ a = true ∧ log = []) ∨
      (condition = false ∧ log = [⟨.isUserClient, a⟩]) := by
  unfold orUserClient at h
  split at h
  · obtain ⟨rfl, rfl⟩ := trace_pure.mp h
    exact .inl ⟨‹_›, rfl, rfl⟩
  · exact .inr ⟨Bool.eq_false_of_not_eq_true ‹_›, trace_perform.mp h⟩

/-- Without `redirectIO` there is no backing vnode, and no operation is called. -/
theorem trace_pageinRedirected {ap : PagingArgs Vnode} {appData : ApplicationData} {error : Int}
    (hdata : appData.redirectIo = false) {log : List (KernelCall Vnode)}
    (h : (pageinRedirected ap (some appData)).Trace log error) :
    error = 0 ∧ ¬ PagedIn ap log := by
  obtain ⟨audited, log₁, rfl, h₁⟩ := trace_perform_bind.mp h
  obtain ⟨backing, log₂, log₃, rfl, hbacking, h₃⟩ := trace_bind.mp h₁
  obtain ⟨type, log₄, rfl, h₄⟩ := trace_perform_bind.mp hbacking
  rw [if_pos (.inr hdata)] at h₄
  obtain ⟨rfl, rfl⟩ := trace_pure.mp h₄
  obtain ⟨rfl, rfl⟩ := trace_pure.mp h₃
  refine ⟨rfl, ?_⟩
  rintro (hmem | ⟨vnodeIo, apIo, hmem, -⟩) <;> simp at hmem

/-- What the hook does after its decision. -/
theorem trace_pageinCalled {ap : PagingArgs Vnode} {appData : Option ApplicationData}
    {isRecursiveCall : Bool} {e error : Int} {log : List (KernelCall Vnode)}
    (h : (do
      let done ← orUserClient (e ≠ 0 || isRecursiveCall)
      if done then Pure.pure e else pageinRedirected ap appData : Kernel Vnode Int).Trace log error)
    (he : e ≠ 0) : error = e := by
  obtain ⟨done, asked, rest, rfl, hasked, hrest⟩ := trace_bind.mp h
  rcases trace_orUserClient hasked with ⟨-, rfl, rfl⟩ | ⟨hcondition, -⟩
  · rw [if_pos rfl] at hrest
    exact (trace_pure.mp hrest).2
  · simp [he] at hcondition

/-- 0 is returned for pages that were paged in, except where the path is redirected. -/
theorem pagedIn_iff {ap : PagingArgs Vnode} {log : List (KernelCall Vnode)} {error : Int}
    (h : (qvrVnopPageinHookEx2 ap).Trace log error) :
    (error = 0 → PagedIn ap log) ↔ ¬ PathRedirected ap log := by
  obtain ⟨cookie, log₁, rfl, h₁⟩ := trace_perform_bind.mp h
  obtain ⟨appData, log₂, rfl, h₂⟩ := trace_perform_bind.mp h₁
  obtain ⟨callOriginal, asked, log₃, rfl, hasked, h₃⟩ := trace_bind.mp h₂
  dsimp only at h₃
  cases callOriginal with
  -- the original pages in
  | true =>
    obtain ⟨e, log₄, rfl, h₄⟩ := trace_perform_bind.mp h₃
    refine iff_of_true (fun herror => ?_) ?_
    · -- the hook goes on only if the original returned 0
      by_cases he : e = 0
      · subst he
        exact .inl (by simp)
      · exact absurd (herror ▸ trace_pageinCalled h₄ he) (Ne.symm he)
    · rintro ⟨data, hdata, hlog⟩
      rw [List.cons_prefix_cons, List.cons_prefix_cons] at hlog
      obtain ⟨hcookie, happData, hlog⟩ := hlog
      obtain rfl : none = cookie := eq_of_heq (Sigma.mk.inj hcookie).2
      obtain rfl : some data = appData := eq_of_heq (Sigma.mk.inj happData).2
      rcases trace_orUserClient hasked with ⟨hcondition, -⟩ | ⟨-, rfl⟩
      · simp [hdata] at hcondition
      · rw [List.singleton_append, List.cons_prefix_cons] at hlog
        cases eq_of_heq (Sigma.mk.inj hlog.1).2
  | false =>
    rcases trace_orUserClient hasked with ⟨-, htrue, -⟩ | ⟨hcondition, rfl⟩
    · cases htrue
    · simp only [Bool.or_eq_false_iff] at hcondition
      obtain ⟨⟨hsome, hdata⟩, hrecursive⟩ := hcondition
      cases cookie with
      | some cookie => cases hrecursive
      -- neither in a recursive call nor for the daemon
      | none =>
        cases appData with
        | none => cases hsome
        | some data =>
          rw [Option.any_some] at hdata
          -- path-redirected: the original is skipped, and there is no backing vnode to read
          refine iff_of_false (fun hpaged => ?_)
            (not_not_intro ⟨data, hdata, log₃, rfl⟩)
          obtain ⟨e, skipped, log₄, rfl, hzero, h₄⟩ := trace_bind.mp h₃
          obtain ⟨rfl, rfl⟩ := trace_pure.mp hzero
          obtain ⟨done, asked, rest, rfl, hasked', hrest⟩ := trace_bind.mp h₄
          rcases trace_orUserClient hasked' with ⟨hcondition, -⟩ | ⟨-, rfl⟩
          · simp at hcondition
          · split at hrest
            · obtain ⟨rfl, rfl⟩ := trace_pure.mp hrest
              rcases hpaged rfl with hmem | ⟨vnodeIo, apIo, hmem, -⟩ <;> simp at hmem
            · obtain ⟨rfl, hnot⟩ := trace_pageinRedirected hdata hrest
              rcases hpaged rfl with hmem | ⟨vnodeIo, apIo, hmem, hrange⟩
              · exact hnot (.inl (by simpa using hmem))
              · exact hnot (.inr ⟨vnodeIo, apIo, by simpa using hmem, hrange⟩)

/-- A vnode with `redirectIO` data: the original pagein reads the page, and what is in the file
of the backing vnode 5 is read over it. -/
def pageinCalls : List (KernelCall Nat) :=
  [⟨.cookieForRecursiveCall, none⟩, ⟨.getVnodeAppData 1, some ⟨[47, 114], true⟩⟩,
    ⟨.vnopPagein (.original 1) pageRequest, 0⟩, ⟨.isUserClient, false⟩, ⟨.auditVnode .read 1, ()⟩,
    ⟨.vnodeVtype 1, .vreg⟩, ⟨.getVnodeIoRef 1, some 5⟩,
    ⟨.ubcCreateUpl 1 0 4096 [.UBC_PAGEIN], (0, some 7)⟩, ⟨.ubcUplMap 7, (0, 8192)⟩,
    ⟨.vnRdwr .read 5 8192 4096 0, (0 : Int)⟩, ⟨.ubcUplUnmap 7, ()⟩,
    ⟨.ubcUplAbortRange 7 0 4096 false, ()⟩, ⟨.vnodePut 5, ()⟩]

/-- With `redirectIO` the page is read from the backing vnode. -/
theorem pagedIn_redirectIo : PagedIn pageRequest pageinCalls := by
  have htrace : (qvrVnopPageinHookEx2 pageRequest).Trace pageinCalls 0 :=
    .call (.call (.call (.call (.call (.call (.call (.call (.call (.call (.call (.call
      (.call .pure))))))))))))
  refine (pagedIn_iff htrace).mpr ?_ rfl
  rintro ⟨appData, hio, hlog⟩
  -- the data is that with `redirectIO`
  simp only [pageinCalls, pageRequest, List.cons_prefix_cons, Sigma.mk.injEq, heq_eq_eq,
    Option.some.injEq, true_and] at hlog
  rw [hlog.1] at hio
  cases hio

/-- A vnode of path redirection, as lookup leaves it. -/
def skippedCalls : List (KernelCall Nat) :=
  [⟨.cookieForRecursiveCall, none⟩, ⟨.getVnodeAppData 1, some ⟨[47, 114], false⟩⟩,
    ⟨.isUserClient, false⟩, ⟨.isUserClient, false⟩, ⟨.auditVnode .read 1, ()⟩,
    ⟨.vnodeVtype 1, .vreg⟩]

/-- Nothing is paged in, and 0 is returned. -/
theorem not_pagedIn :
    ¬ ∀ (ap : PagingArgs Nat) (log : List (KernelCall Nat)),
      (qvrVnopPageinHookEx2 ap).Trace log 0 → PagedIn ap log := by
  intro h
  have htrace : (qvrVnopPageinHookEx2 pageRequest).Trace skippedCalls 0 :=
    .call (.call (.call (.call (.call (.call .pure)))))
  rcases h pageRequest skippedCalls htrace with hmem | ⟨vnodeIo, apIo, hmem, -⟩ <;>
    simp [skippedCalls] at hmem

end VfsRedirector
