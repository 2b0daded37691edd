import VfsRedirector.Redirect.Dispatch

/-!
# The UPLs of pageout

`uplStep` follows the UPLs that a hook has created: they are on a list until they
are passed to the backing vnop without `UPL_NOCOMMIT`, which commits or aborts them,
or are aborted. It is `none` when a UPL is aborted that is not on the list, or that is
mapped, or unmapped that is not mapped. `UplsDisposed` says that a list of calls gets
through, and leaves nothing behind.

`QvrReadInCacheFromBackingFile` keeps to it. In pageout the abort of the UPL with all
the pages is guarded by the other UPL, that for a backing file system without the new
interface: with one, `NULL` is aborted when no UPL could be created for the pages;
without one, the UPL that was created is left (`upls_disposed_iff`).

## Results

* `UplEffect.append` — the effects of two lists of calls add up.
* `upls_pageout` — what a pageout does with its UPLs.
* `upls_disposed_iff` — when every UPL is disposed of once.
-/

namespace VfsRedirector

open Library Prog Kernel

variable {Vnode : Type}

-- ---------------------------------------------------------------------------
-- What becomes of a UPL
-- ---------------------------------------------------------------------------

/-- The UPLs that were created and not disposed of, with whether they are mapped. `own`
is the one in the request, which is not the hook's. -/
def uplStep (own : Option Nat) (live : List (Nat × Bool)) :
    KernelCall Vnode → Option (List (Nat × Bool))
  | ⟨.ubcCreateUpl .., (error, upl)⟩ =>
    match error, upl with
    | 0, some upl => some ((upl, false) :: live)
    | _, _ => some live
  | ⟨.ubcUplMap upl, (error, _)⟩ =>
    if error ≠ 0 then some live
    else if (upl, false) ∈ live then some ((upl, true) :: live.erase (upl, false))
    else none
  | ⟨.ubcUplUnmap upl, _⟩ =>
    if (upl, true) ∈ live then some ((upl, false) :: live.erase (upl, true)) else none
  | ⟨.ubcUplAbortRange upl .., _⟩ =>
    if (upl, false) ∈ live then some (live.erase (upl, false)) else none
  | ⟨.vnopPageout (.vnop _) ap, _⟩ =>
    match ap.a_flags.nocommit, ap.a_pl with
    | false, some upl =>
      if (upl, false) ∈ live then some (live.erase (upl, false))
      else if own = some upl then some live
      else none
    | _, _ => some live
  | _ => some live

def uplsAfter (own : Option Nat) (live : List (Nat × Bool)) (log : List (KernelCall Vnode)) :
    Option (List (Nat × Bool)) :=
  log.foldlM (uplStep own) live

/-- Each UPL that was created is disposed of once, unmapped, and no other one is. -/
def UplsDisposed (own : Option Nat) (log : List (KernelCall Vnode)) : Prop :=
  uplsAfter own [] log = some []

/-- What the kernel documents: a UPL is returned on success only, and the address of a
mapping is not 0. -/
def UplKpi : KernelCall Vnode → Prop
  | ⟨.ubcCreateUpl .., (error, upl)⟩ => error = 0 ↔ upl ≠ none
  | ⟨.ubcUplMap _, (error, map)⟩ => error = 0 → map ≠ 0
  | _ => True

section After

variable {own : Option Nat} {live : List (Nat × Bool)} {log : List (KernelCall Vnode)}

@[simp] theorem uplsAfter_nil :
    uplsAfter own live ([] : List (KernelCall Vnode)) = some live := rfl

@[simp] theorem uplsAfter_cons (call : KernelCall Vnode) :
    uplsAfter own live (call :: log) =
      (uplStep own live call).bind fun live => uplsAfter own live log := rfl

@[simp] theorem uplsAfter_append (log' : List (KernelCall Vnode)) :
    uplsAfter own live (log ++ log') =
      (uplsAfter own live log).bind fun live => uplsAfter own live log' := by
  unfold uplsAfter
  rw [List.foldlM_append]
  rfl

end After

@[simp] theorem uplStep_notCreated (own : Option Nat) (live : List (Nat × Bool)) (vp : Vnode)
    (offset : Int) (size : Nat) (flags : List UplFlag) (error : Int) :
    uplStep own live (⟨.ubcCreateUpl vp offset size flags, (error, none)⟩ : KernelCall Vnode) =
      some live := by
  rw [uplStep]
  simp

-- ---------------------------------------------------------------------------
-- What the outcome depends on
-- ---------------------------------------------------------------------------

/-- The UPL with all the pages of the vnode, by its flags. -/
def allPages (flags : List UplFlag) : Bool := flags = [.UBC_PAGEOUT] || flags = [.UBC_MSYNC]

def allPagesCreated : KernelCall Vnode → Bool
  | ⟨.ubcCreateUpl _ _ _ flags, (error, _)⟩ => allPages flags && error = 0
  | _ => false

def backingPageoutSucceeded : KernelCall Vnode → Bool
  | ⟨.vnopPageout (.vnop _) _, error⟩ => error = 0
  | _ => false

/-- The backing file system supports the new interface. -/
def hasPageoutV2 : KernelCall Vnode → Bool
  | ⟨.qvrGetVnodeVfsFlags _, flags⟩ => flags.pageoutV2
  | _ => false

/-- Pages that the backing file system has taken are copied to it, and the UPL for them
is created or not as the cleanup expects: without the new interface, and only then. -/
def CleanupMatches (ap : PagingArgs Vnode) (log : List (KernelCall Vnode)) : Prop :=
  ap.a_pl = none → log.any backingPageoutSucceeded = true →
    log.any hasPageoutV2 = !log.any allPagesCreated

-- ---------------------------------------------------------------------------
-- Code that leaves the UPLs as they are
-- ---------------------------------------------------------------------------

/-- No call in the list decides what `CleanupMatches` says. -/
def Beside (log : List (KernelCall Vnode)) : Prop :=
  log.any backingPageoutSucceeded = false ∧ log.any hasPageoutV2 = false ∧
    log.any allPagesCreated = false

/-- The UPLs on the list are the same afterwards. -/
structure UplNeutral {α : Type} (p : Kernel Vnode α) : Prop where
  keeps : ∀ (own : Option Nat) (live : List (Nat × Bool)) (log : List (KernelCall Vnode)) (a : α),
    p.Trace log a → (∀ call ∈ log, UplKpi call) → uplsAfter own live log = some live ∧ Beside log

/-- The calls that are about no UPL. -/
def KernelOp.NoUpl : KernelOp Vnode → Prop
  | .ubcCreateUpl .. | .ubcUplMap _ | .ubcUplUnmap _ | .ubcUplAbortRange .. | .vnopPageout .. |
    .qvrGetVnodeVfsFlags _ => False
  | _ => True

namespace UplNeutral

variable {α β : Type} {p : Kernel Vnode α} {f : α → Kernel Vnode β}

/-- Code that makes no call is neutral. -/
theorem pure {a : α} : UplNeutral (Pure.pure a : Kernel Vnode α) := by
  refine ⟨fun own live log b h hkpi => ?_⟩
  obtain ⟨rfl, rfl⟩ := trace_pure.mp h
  exact ⟨rfl, rfl, rfl, rfl⟩

/-- A call about no UPL is neutral. -/
theorem perform {o : KernelOp Vnode} (ho : o.NoUpl) : UplNeutral (Prog.perform o) := by
  refine ⟨fun own live log r h hkpi => ?_⟩
  obtain rfl := trace_perform.mp h
  cases o <;> first | exact ho.elim | exact ⟨rfl, rfl, rfl, rfl⟩

/-- Code of two neutral parts is neutral. -/
theorem bind (hp : UplNeutral p) (hf : ∀ a, UplNeutral (f a)) : UplNeutral (p >>= f) := by
  refine ⟨fun own live log b h hkpi => ?_⟩
  obtain ⟨a, first, rest, rfl, hfirst, hrest⟩ := trace_bind.mp h
  obtain ⟨hlive, hbeside⟩ := hp.keeps own live first a hfirst
    fun call hcall => hkpi call (List.mem_append_left _ hcall)
  obtain ⟨hlive', hbeside'⟩ := (hf a).keeps own live rest b hrest
    fun call hcall => hkpi call (List.mem_append_right _ hcall)
  obtain ⟨hpageout, hv2, hcreated⟩ := hbeside
  obtain ⟨hpageout', hv2', hcreated'⟩ := hbeside'
  refine ⟨?_, ?_, ?_, ?_⟩
  · rw [uplsAfter_append, hlive, Option.bind_some, hlive']
  · rw [List.any_append, hpageout, hpageout', Bool.false_or]
  · rw [List.any_append, hv2, hv2', Bool.false_or]
  · rw [List.any_append, hcreated, hcreated', Bool.false_or]

/-- Code is neutral if it makes no call about a UPL. -/
theorem of_calls (hp : p.Calls KernelOp.NoUpl) : UplNeutral p := by
  induction p with
  | pure a => exact .pure
  | call o k ih =>
    have hcall : (Prog.call o k : Kernel Vnode α) = Prog.perform o >>= k := rfl
    rw [hcall]
    exact .bind (.perform hp.1) fun r => ih r (hp.2 r)

end UplNeutral

/-- The end of `QvrReadInCacheFromBackingFile` disposes of the UPL. -/
theorem upls_readInCacheExit (own : Option Nat) (live : List (Nat × Bool)) {size upl map : Nat}
    {error a : Int} {log : List (KernelCall Vnode)}
    (h : (readInCacheExit size upl map error).Trace log a) :
    uplsAfter own ((upl, decide (map ≠ 0)) :: live) log = some live ∧ Beside log := by
  unfold readInCacheExit at h
  dsimp only at h
  by_cases hmap : map = 0
  · subst hmap
    obtain ⟨aborted, log₁, rfl, h₁⟩ := trace_perform_bind.mp h
    obtain ⟨rfl, rfl⟩ := trace_pure.mp h₁
    exact ⟨by simp [uplStep], rfl, rfl, rfl⟩
  · rw [if_pos hmap] at h
    obtain ⟨unmapped, log₁, rfl, h₁⟩ := trace_perform_bind.mp h
    obtain ⟨aborted, log₂, rfl, h₂⟩ := trace_perform_bind.mp h₁
    obtain ⟨rfl, rfl⟩ := trace_pure.mp h₂
    exact ⟨by simp [uplStep, hmap], rfl, rfl, rfl⟩

/-- What is read into the cache goes through a UPL that is disposed of at the exit. -/
theorem uplNeutral_readInCache (vnode vnodeIo : Vnode) (offset : Int) (size : Nat) :
    UplNeutral (qvrReadInCacheFromBackingFile vnode vnodeIo offset size) := by
  refine ⟨fun own live log error h hkpi => ?_⟩
  unfold qvrReadInCacheFromBackingFile at h
  split at h
  · exact UplNeutral.pure.keeps own live log error h hkpi
  · obtain ⟨⟨created, upl⟩, log₁, rfl, h₁⟩ := trace_perform_bind.mp h
    have hcreated : created = 0 ↔ upl ≠ none := hkpi _ List.mem_cons_self
    dsimp only at h₁
    split at h₁
    · rename_i upl
      obtain ⟨⟨mapError, map⟩, log₂, rfl, h₂⟩ := trace_perform_bind.mp h₁
      have hmapped : mapError = 0 → map ≠ 0 :=
        hkpi _ (List.mem_cons_of_mem _ List.mem_cons_self)
      dsimp only at h₂
      split at h₂
      · rename_i hmapError
        obtain ⟨hlive, hpageout, hv2, hall⟩ := upls_readInCacheExit own live h₂
        refine ⟨?_, by simpa [backingPageoutSucceeded] using hpageout,
          by simpa [hasPageoutV2] using hv2, by simpa [allPagesCreated, allPages] using hall⟩
        simpa [uplStep, hmapError] using hlive
      -- the pages are mapped: they are read, unmapped and committed
      · rename_i hmapError
        have hmapError : mapError = 0 := not_not.mp hmapError
        obtain ⟨read, log₃, rfl, h₃⟩ := trace_perform_bind.mp h₂
        obtain ⟨hlive, hpageout, hv2, hall⟩ := upls_readInCacheExit own live h₃
        refine ⟨?_, by simpa [backingPageoutSucceeded] using hpageout,
          by simpa [hasPageoutV2] using hv2, by simpa [allPagesCreated, allPages] using hall⟩
        simpa [uplStep, hmapError, hmapped hmapError] using hlive
    · obtain ⟨rfl, rfl⟩ := trace_pure.mp h₁
      exact ⟨by simp [uplStep], rfl, rfl, by simp [allPagesCreated, allPages]⟩
    · rename_i upl hnot
      exact absurd (hcreated.mpr (Option.some_ne_none upl)) fun hzero => hnot hzero

theorem KernelOp.Light.noUpl {o : KernelOp Vnode} (h : o.Light) : o.NoUpl := by
  cases o <;> trivial

/-- Light code is neutral. -/
theorem uplNeutral_light {α : Type} {p : Kernel Vnode α} (hp : p.Calls KernelOp.Light) :
    UplNeutral p :=
  .of_calls (hp.mono fun _ => KernelOp.Light.noUpl)

/-- A region adds no UPL. -/
theorem UplNeutral.inRecursiveCall {α : Type} {cookie : Cookie} {p : Kernel Vnode α}
    (hp : UplNeutral p) : UplNeutral (inRecursiveCall cookie p) :=
  .bind (.perform trivial) fun _ => .bind hp fun _ => .bind (.perform trivial) fun _ => .pure

/-- The refill of a cache is neutral, as the read into it is. -/
theorem uplNeutral_refillCache (vn backingVnode : Vnode) :
    UplNeutral (refillCache vn backingVnode) := by
  refine .bind (.perform trivial) fun r => ?_
  obtain ⟨error, size⟩ := r
  dsimp only
  split
  · refine .bind (.perform trivial) fun _ => .bind (.perform trivial) fun resident => ?_
    split
    · exact .bind (uplNeutral_readInCache ..) fun _ => .pure
    · exact .pure
  · exact .pure

/-- The lookup of the backing vnode is neutral, with its refill. -/
theorem uplNeutral_lookupBackingVnode (vn : Vnode) (vnodePath : List UInt8)
    (appData : ApplicationData) : UplNeutral (lookupBackingVnode vn vnodePath appData) := by
  refine .bind (uplNeutral_light (light_convertToRedirectedPath ..)) fun r => ?_
  obtain ⟨error, path⟩ := r
  dsimp only
  split
  · exact .pure
  · refine .bind (.inRecursiveCall (.perform trivial)) fun r => ?_
    obtain ⟨error, backingVnode⟩ := r
    dsimp only
    split
    · exact .bind (.perform trivial) fun _ =>
        .bind (.inRecursiveCall (uplNeutral_refillCache ..)) fun _ =>
        .bind (uplNeutral_light (light_freePath _)) fun _ => .pure
    · exact .bind (uplNeutral_light (light_freePath _)) fun _ => .pure

/-- What is done to find the backing vnode is neutral. -/
theorem uplNeutral_findBackingVnode (vn : Vnode) (appData : ApplicationData) :
    UplNeutral (findBackingVnode vn appData) := by
  refine .bind (.perform trivial) fun vnodePath => ?_
  split
  · exact .pure
  · refine .bind (.perform trivial) fun r => ?_
    obtain ⟨error, path⟩ := r
    dsimp only
    split
    · exact .bind (uplNeutral_lookupBackingVnode ..) fun _ => .bind (.perform trivial) fun _ =>
        .pure
    · exact .bind .pure fun _ => .bind (.perform trivial) fun _ => .pure

/-- A hook has no UPL of its own when it has its backing vnode. -/
theorem uplNeutral_backingVnodeForIo (op : HookedOp) (a_vp : Vnode) :
    UplNeutral (backingVnodeForIo op a_vp) := by
  refine .bind (.perform trivial) fun appData => ?_
  cases appData with
  | none => exact .pure
  | some appData =>
    refine .bind ?_ fun recursive => ?_
    · refine .bind (.perform trivial) fun cookie => ?_
      split
      · exact .pure
      · exact .perform trivial
    · split
      · exact .pure
      · refine .bind (.perform trivial) fun _ => .bind (.perform trivial) fun type => ?_
        split
        · exact .pure
        · rw [if_neg Bool.false_ne_true]
          refine .bind (.perform trivial) fun existing => ?_
          split
          · exact .pure
          · exact uplNeutral_findBackingVnode ..

theorem KernelOp.Sizing.noUpl {o : KernelOp Vnode} (h : o.Sizing) : o.NoUpl := by
  cases o <;> trivial

/-- To adjust a size is neutral. -/
theorem uplNeutral_adjust (vnode vnodeIo : Vnode) (context : Context) :
    UplNeutral (qvrAdjustVnodeSizeByBackingVnode vnode vnodeIo context) :=
  .of_calls ((sizing_qvrAdjustVnodeSizeByBackingVnode ..).mono fun _ => KernelOp.Sizing.noUpl)

-- ---------------------------------------------------------------------------
-- Pageout
-- ---------------------------------------------------------------------------

/-- What is done with the UPLs, and what decides it: whether the backing pageout
succeeded, the interface of the backing file system, and whether a UPL was created for
all the pages. -/
structure UplEffect (own : Option Nat) (live : List (Nat × Bool)) (log : List (KernelCall Vnode))
    (result : Option (List (Nat × Bool))) (succeeded v2 created : Bool) : Prop where
  after : uplsAfter own live log = result
  succeeded : log.any backingPageoutSucceeded = succeeded
  v2 : log.any hasPageoutV2 = v2
  created : log.any allPagesCreated = created

section Pageout

variable {own : Option Nat} {live : List (Nat × Bool)} {log : List (KernelCall Vnode)}
  {ap apIo : PagingArgs Vnode} {vnodeIo : Vnode} {upl uplAllPages : Option Nat} {error a : Int}
  {map size : Nat}

/-- Neutral code leaves the list as it is and decides nothing. -/
theorem UplNeutral.effect {α : Type} {p : Kernel Vnode α} (hp : UplNeutral p)
    (own : Option Nat) (live : List (Nat × Bool)) {a : α} (h : p.Trace log a)
    (hkpi : ∀ call ∈ log, UplKpi call) :
    UplEffect own live log (some live) false false false := by
  obtain ⟨hlive, hpageout, hv2, hall⟩ := hp.keeps own live log a h hkpi
  exact ⟨hlive, hpageout, hv2, hall⟩

/-- The effects of two lists add up. -/
theorem UplEffect.append {log' : List (KernelCall Vnode)} {live' : List (Nat × Bool)}
    {result : Option (List (Nat × Bool))} {succeeded v2 created succeeded' v2' created' : Bool}
    (h : UplEffect own live log (some live') succeeded v2 created)
    (h' : UplEffect own live' log' result succeeded' v2' created') :
    UplEffect own live (log ++ log') result (succeeded || succeeded') (v2 || v2')
      (created || created') := by
  refine ⟨?_, ?_, ?_, ?_⟩
  · rw [uplsAfter_append, h.after, Option.bind_some, h'.after]
  · rw [List.any_append, h.succeeded, h'.succeeded]
  · rw [List.any_append, h.v2, h'.v2]
  · rw [List.any_append, h.created, h'.created]

/-- What follows does not depend on what is on the list. -/
theorem UplEffect.bind {log' : List (KernelCall Vnode)}
    {result : Option (List (Nat × Bool))} {f : List (Nat × Bool) → Option (List (Nat × Bool))}
    {succeeded v2 created succeeded' v2' created' : Bool}
    (h : UplEffect own live log result succeeded v2 created)
    (h' : ∀ live', UplEffect own live' log' (f live') succeeded' v2' created') :
    UplEffect own live (log ++ log') (result.bind f) (succeeded || succeeded') (v2 || v2')
      (created || created') := by
  refine ⟨?_, ?_, ?_, ?_⟩
  · rw [uplsAfter_append, h.after]
    exact congrArg result.bind (funext fun live' => (h' live').after)
  · rw [List.any_append, h.succeeded, (h' live).succeeded]
  · rw [List.any_append, h.v2, (h' live).v2]
  · rw [List.any_append, h.created, (h' live).created]

/-- One call in front. -/
theorem UplEffect.cons (call : KernelCall Vnode) {live' : List (Nat × Bool)}
    {result : Option (List (Nat × Bool))} {succeeded v2 created : Bool}
    (hcall : uplStep own live call = some live')
    (h : UplEffect own live' log result succeeded v2 created) :
    UplEffect own live (call :: log) result (backingPageoutSucceeded call || succeeded)
      (hasPageoutV2 call || v2) (allPagesCreated call || created) := by
  refine ⟨?_, ?_, ?_, ?_⟩
  · rw [uplsAfter_cons, hcall, Option.bind_some, h.after]
  · rw [List.any_cons, h.succeeded]
  · rw [List.any_cons, h.v2]
  · rw [List.any_cons, h.created]

/-- Without the other UPL the one with the pages is unmapped, and stays. -/
theorem upls_exit_none (hmap : uplAllPages = none → map = 0)
    (h : (pageoutExitUpl none uplAllPages map size error).Trace log a) :
    UplEffect own ((uplAllPages.map fun all => (all, decide (map ≠ 0))).toList ++ live) log
      (some ((uplAllPages.map fun all => (all, false)).toList ++ live)) false false false := by
  unfold pageoutExitUpl at h
  dsimp only at h
  by_cases hzero : map = 0
  · subst hzero
    obtain ⟨rfl, rfl⟩ := trace_pure.mp h
    exact ⟨by simp, rfl, rfl, rfl⟩
  · rw [if_pos hzero] at h
    obtain ⟨unmapped, log₁, rfl, h₁⟩ := trace_perform_bind.mp h
    obtain ⟨rfl, rfl⟩ := trace_pure.mp h₁
    cases uplAllPages with
    | none => exact absurd (hmap rfl) hzero
    | some all => exact ⟨by simp [uplStep, hzero], rfl, rfl, rfl⟩

/-- With the other UPL the one with the pages is disposed of. -/
theorem upls_exit_created {u all : Nat}
    (h : (pageoutExitUpl (some u) (some all) map size error).Trace log a) :
    UplEffect own ((all, decide (map ≠ 0)) :: live) log (some live) false false false := by
  unfold pageoutExitUpl at h
  dsimp only at h
  by_cases hzero : map = 0
  · subst hzero
    obtain ⟨aborted, log₁, rfl, h₁⟩ := trace_perform_bind.mp h
    obtain ⟨rfl, rfl⟩ := trace_pure.mp h₁
    exact ⟨by simp [uplStep], rfl, rfl, rfl⟩
  · rw [if_pos hzero] at h
    obtain ⟨unmapped, log₁, rfl, h₁⟩ := trace_perform_bind.mp h
    obtain ⟨aborted, log₂, rfl, h₂⟩ := trace_perform_bind.mp h₁
    obtain ⟨rfl, rfl⟩ := trace_pure.mp h₂
    exact ⟨by simp [uplStep, hzero], rfl, rfl, rfl⟩

/-- With the other UPL, and none with the pages, `NULL` is aborted. -/
theorem upls_exit_missing {u : Nat}
    (h : (pageoutExitUpl (some u) none 0 size error).Trace log a) :
    UplEffect own live log (if (0, false) ∈ live then some (live.erase (0, false)) else none)
      false false false := by
  unfold pageoutExitUpl at h
  dsimp only at h
  obtain ⟨aborted, log₁, rfl, h₁⟩ := trace_perform_bind.mp h
  obtain ⟨rfl, rfl⟩ := trace_pure.mp h₁
  refine ⟨?_, rfl, rfl, rfl⟩
  rw [uplsAfter_cons, uplStep, Option.getD_none]
  split <;> rfl

/-- The calls of `writePages`: the UPL is created or not, and mapped or not, before the
cleanup. -/
theorem trace_writePages_exit (hkpi : ∀ call ∈ log, UplKpi call)
    (h : (writePages ap vnodeIo upl).Trace log error) :
    ∃ (before exit : List (KernelCall Vnode)) (uplAllPages : Option Nat) (map : Nat) (e : Int),
      log = before ++ exit ∧ (uplAllPages = none → map = 0) ∧
      (pageoutExitUpl upl uplAllPages map ap.a_size e).Trace exit error ∧
      ∀ own live, UplEffect own live before
        (some ((uplAllPages.map fun all => (all, decide (map ≠ 0))).toList ++ live))
        false false uplAllPages.isSome := by
  have hflags : allPages [msyncOr ap.a_flags .UBC_PAGEOUT] = true := by
    unfold msyncOr
    split <;> rfl
  obtain ⟨⟨created, uplAllPages⟩, log₁, rfl, h₁⟩ := trace_perform_bind.mp h
  -- what was created and mapped is what the exit has to dispose of
  have hcreated : created = 0 ↔ uplAllPages ≠ none := hkpi _ List.mem_cons_self
  dsimp only at h₁
  split at h₁
  · rename_i all
    obtain ⟨⟨mapError, map⟩, log₂, rfl, h₂⟩ := trace_perform_bind.mp h₁
    have hmapped : mapError = 0 → map ≠ 0 :=
      hkpi _ (List.mem_cons_of_mem _ List.mem_cons_self)
    dsimp only at h₂
    split at h₂
    · rename_i hmapError
      refine ⟨[_, _], log₂, some all, 0, mapError, rfl,
        fun hnone => absurd hnone (Option.some_ne_none _), h₂,
        fun own live => ⟨?_, rfl, rfl, ?_⟩⟩
      · simp [uplStep, hmapError]
      · simp [allPagesCreated, hflags]
    · rename_i hmapError
      have hmapError : mapError = 0 := not_not.mp hmapError
      obtain ⟨written, log₃, rfl, h₃⟩ := trace_perform_bind.mp h₂
      refine ⟨[_, _, _], log₃, some all, map, written, rfl,
        fun hnone => absurd hnone (Option.some_ne_none _), h₃,
        fun own live => ⟨?_, rfl, rfl, ?_⟩⟩
      · simp [uplStep, hmapError, hmapped hmapError]
      · simp [allPagesCreated, hflags]
  · rename_i hnot
    -- ubc_create_upl failed: the exit finds no UPL of all pages
    have hfailed : created ≠ 0 := by
      intro hzero
      obtain ⟨all, hall⟩ := Option.ne_none_iff_exists'.mp (hcreated.mp hzero)
      exact hnot all hzero hall
    have hnone : uplAllPages = none := by
      by_contra hsome
      exact hfailed (hcreated.mpr hsome)
    subst hnone
    refine ⟨[_], log₁, none, 0, created, rfl, fun _ => rfl, h₁,
      fun own live => ⟨?_, rfl, rfl, ?_⟩⟩
    · simp [uplStep]
    · simp [allPagesCreated, hfailed]

/-- Without the other UPL the one with the pages is left, if it was created. -/
theorem upls_writePages_none (own : Option Nat) (live : List (Nat × Bool))
    (hkpi : ∀ call ∈ log, UplKpi call)
    (h : (writePages ap vnodeIo none).Trace log error) :
    ∃ uplAllPages : Option Nat, UplEffect own live log
      (some ((uplAllPages.map fun all => (all, false)).toList ++ live))
      false false uplAllPages.isSome := by
  obtain ⟨before, exit, uplAllPages, map, e, rfl, hmap, hexit, hbefore⟩ :=
    trace_writePages_exit hkpi h
  have hall := (hbefore own live).append (upls_exit_none hmap hexit)
  simp only [Bool.or_false] at hall
  exact ⟨uplAllPages, hall⟩

/-- With the other UPL `NULL` is aborted, unless one with the pages was created. -/
theorem upls_writePages_some (own : Option Nat) (live : List (Nat × Bool)) {u : Nat}
    (hkpi : ∀ call ∈ log, UplKpi call)
    (h : (writePages ap vnodeIo (some u)).Trace log error) :
    UplEffect own live log (some live) false false true ∨
      UplEffect own live log (if (0, false) ∈ live then some (live.erase (0, false)) else none)
        false false false := by
  obtain ⟨before, exit, uplAllPages, map, e, rfl, hmap, hexit, hbefore⟩ :=
    trace_writePages_exit hkpi h
  cases uplAllPages with
  | some all => exact .inl ((hbefore own live).append (upls_exit_created hexit))
  | none =>
    obtain rfl := hmap rfl
    exact .inr ((hbefore own live).append (upls_exit_missing hexit))

/-- The backing pageout, up to where the pages are copied. -/
theorem trace_pageoutToBackingVnode_vnop (hkpi : ∀ call ∈ log, UplKpi call)
    (h : (pageoutToBackingVnode ap apIo vnodeIo upl).Trace log error) :
    ∃ (e : Int) (before copied abort : List (KernelCall Vnode)),
      log = before ++ copied ++ abort ∧
      (∀ own live live', uplStep own live
          (⟨.vnopPageout (.vnop vnodeIo) apIo, e⟩ : KernelCall Vnode) = some live' →
        UplEffect own live before (some live') (e = 0) false false) ∧
      (if e = 0 ∧ ap.a_pl = none then (writePages ap vnodeIo upl).Trace copied error
        else copied = [] ∧ error = e) ∧
      (abortIfMustCommit upl apIo).Trace abort () := by
  obtain ⟨e, called, log₁, rfl, hcalled, h₁⟩ := trace_bind.mp h
  have hkpi' : ∀ call ∈ called, UplKpi call := fun call hcall =>
    hkpi call (List.mem_append_left _ hcall)
  obtain ⟨inner, rfl, hinner⟩ := trace_inRecursiveCall hcalled
  obtain ⟨e', vnop, adjust, rfl, hvnop, hadjust⟩ := trace_bind.mp hinner
  obtain rfl := trace_perform.mp hvnop
  -- the file grows only if the operation succeeded, and its error is what is returned
  have hgrows : e = e' ∧ ∀ own live, UplEffect own live adjust (some live) false false false := by
    split at hadjust
    · obtain ⟨grown, grow, done, rfl, hgrow, hdone⟩ := trace_bind.mp hadjust
      obtain ⟨rfl, rfl⟩ := trace_pure.mp hdone
      refine ⟨rfl, fun own live => ?_⟩
      rw [List.append_nil]
      exact (uplNeutral_adjust ..).effect own live hgrow fun call hcall =>
        hkpi' call (by simp [hcall])
    · obtain ⟨rfl, rfl⟩ := trace_pure.mp hadjust
      exact ⟨rfl, fun own live => ⟨rfl, rfl, rfl, rfl⟩⟩
  obtain ⟨rfl, hgrow⟩ := hgrows
  have hbefore : ∀ own live live', uplStep own live
        (⟨.vnopPageout (.vnop vnodeIo) apIo, e⟩ : KernelCall Vnode) = some live' →
      UplEffect own live (⟨.enterRecursiveCall .currentThread, ()⟩ ::
        ([⟨.vnopPageout (.vnop vnodeIo) apIo, e⟩] ++ adjust) ++ [⟨.leaveRecursiveCall, ()⟩])
        (some live') (e = 0) false false := by
    intro own live live' hstep
    have hleave : UplEffect own live' [(⟨.leaveRecursiveCall, ()⟩ : KernelCall Vnode)]
        (some live') false false false := ⟨rfl, rfl, rfl, rfl⟩
    have hall := (UplEffect.cons ⟨.enterRecursiveCall .currentThread, ()⟩ rfl
      (UplEffect.cons _ hstep (hgrow own live'))).append hleave
    simpa [backingPageoutSucceeded, hasPageoutV2, allPagesCreated] using hall
  dsimp only at h₁
  split at h₁
  · rename_i hboth
    obtain ⟨e', pages, log₂, rfl, hpages, h₂⟩ := trace_bind.mp h₁
    obtain ⟨done, abort, log₃, rfl, habort, h₃⟩ := trace_bind.mp h₂
    obtain ⟨rfl, rfl⟩ := trace_pure.mp h₃
    refine ⟨e, _, pages, abort, ?_, hbefore, ?_, habort⟩
    · simp
    · rwa [if_pos hboth]
  · rename_i hnot
    obtain ⟨e', kept, log₂, rfl, hkept, h₂⟩ := trace_bind.mp h₁
    obtain ⟨rfl, rfl⟩ := trace_pure.mp hkept
    obtain ⟨done, abort, log₃, rfl, habort, h₃⟩ := trace_bind.mp h₂
    obtain ⟨rfl, rfl⟩ := trace_pure.mp h₃
    refine ⟨error, _, [], abort, ?_, hbefore, ?_, habort⟩
    · simp
    · rw [if_neg hnot]
      exact ⟨rfl, rfl⟩

/-- Without the other UPL there is none to abort. -/
theorem upls_abort_none (own : Option Nat) (live : List (Nat × Bool))
    (h : (abortIfMustCommit none apIo : Kernel Vnode Unit).Trace log ()) :
    UplEffect own live log (some live) false false false := by
  obtain ⟨rfl, -⟩ := trace_pure.mp h
  exact ⟨rfl, rfl, rfl, rfl⟩

/-- The other UPL is aborted if the request says that it is not committed. -/
theorem upls_abort_some {u : Nat}
    (h : (abortIfMustCommit (some u) apIo : Kernel Vnode Unit).Trace log ()) :
    UplEffect own live log
      (if apIo.a_flags.nocommit then
        if (u, false) ∈ live then some (live.erase (u, false)) else none
      else some live) false false false := by
  unfold abortIfMustCommit at h
  dsimp only at h
  split at h
  · rename_i hnocommit
    obtain rfl := trace_perform.mp h
    refine ⟨?_, rfl, rfl, rfl⟩
    rw [if_pos hnocommit, uplsAfter_cons, uplStep]
    split <;> rfl
  · rename_i hnocommit
    obtain ⟨rfl, -⟩ := trace_pure.mp h
    exact ⟨(if_neg hnocommit).symm, rfl, rfl, rfl⟩

/-- A backing file system that takes the request as it is. -/
theorem upls_pageout_none (hpl : apIo.a_pl = ap.a_pl) (hkpi : ∀ call ∈ log, UplKpi call)
    (h : (pageoutToBackingVnode ap apIo vnodeIo none).Trace log error) :
    ∃ result succeeded created, UplEffect ap.a_pl [] log result succeeded false created ∧
      (result = some [] ↔ (ap.a_pl = none → succeeded = true → created = false)) := by
  obtain ⟨e, before, copied, abort, rfl, hbefore, hcopied, habort⟩ :=
    trace_pageoutToBackingVnode_vnop hkpi h
  -- the UPL of the request is not the hook's
  have hstep : uplStep ap.a_pl [] (⟨.vnopPageout (.vnop vnodeIo) apIo, e⟩ : KernelCall Vnode) =
      some [] := by
    rw [uplStep, hpl]
    split
    · rename_i u hu
      simp [hu]
    · rfl
  have hfirst := hbefore ap.a_pl [] [] hstep
  split at hcopied
  · rename_i hboth
    obtain ⟨uplAllPages, hpages⟩ := upls_writePages_none ap.a_pl []
      (fun call hcall => hkpi call (by simp [hcall])) hcopied
    refine ⟨_, _, _, (hfirst.append hpages).append (upls_abort_none _ _ habort), ?_⟩
    cases uplAllPages <;> simp [hboth.1, hboth.2]
  · rename_i hnot
    obtain ⟨rfl, rfl⟩ := hcopied
    rw [List.append_nil]
    refine ⟨_, _, _, hfirst.append (upls_abort_none _ _ habort), ?_⟩
    simp

/-- A backing file system that is given a UPL. -/
theorem upls_pageout_some {u : Nat} (hpl : ap.a_pl = none) (hio : apIo.a_pl = some u)
    (hkpi : ∀ call ∈ log, UplKpi call)
    (h : (pageoutToBackingVnode ap apIo vnodeIo (some u)).Trace log error) :
    ∃ result succeeded created,
      UplEffect none [(u, false)] log result succeeded false created ∧
      (result = some [] ↔ (succeeded = true → created = true)) := by
  obtain ⟨e, before, copied, abort, rfl, hbefore, hcopied, habort⟩ :=
    trace_pageoutToBackingVnode_vnop hkpi h
  -- the UPL is disposed of by the operation or, with `UPL_NOCOMMIT`, at the end
  have hstep : uplStep none [(u, false)]
      (⟨.vnopPageout (.vnop vnodeIo) apIo, e⟩ : KernelCall Vnode) =
      some (if apIo.a_flags.nocommit then [(u, false)] else []) := by
    rw [uplStep, hio]
    cases apIo.a_flags.nocommit <;> simp
  have hfirst := hbefore none _ _ hstep
  have hlast : ∀ live, UplEffect none live abort
      (if apIo.a_flags.nocommit then
        if (u, false) ∈ live then some (live.erase (u, false)) else none
      else some live) false false false := fun live => upls_abort_some habort
  split at hcopied
  · rename_i hboth
    rcases upls_writePages_some none
        (if apIo.a_flags.nocommit then [(u, false)] else [])
        (fun call hcall => hkpi call (by simp [hcall])) hcopied with hpages | hpages
    · refine ⟨_, _, _, (hfirst.append hpages).bind hlast, ?_⟩
      cases apIo.a_flags.nocommit <;> simp
    · refine ⟨_, _, _, (hfirst.append hpages).bind hlast, ?_⟩
      cases apIo.a_flags.nocommit with
      | false => simp [hboth.1]
      | true =>
        by_cases hu : u = 0 <;> simp [hboth.1, hu, eq_comm]
  · rename_i hnot
    have he : e ≠ 0 := fun he => hnot ⟨he, hpl⟩
    obtain ⟨rfl, rfl⟩ := hcopied
    rw [List.append_nil]
    refine ⟨_, _, _, hfirst.bind hlast, ?_⟩
    cases apIo.a_flags.nocommit <;> simp [he]

/-- After a pageout to the backing file system no UPL is left, just if the new interface was used
where one with the pages was not created, or the other way round. -/
theorem upls_pageoutBacking (hkpi : ∀ call ∈ log, UplKpi call)
    (h : (pageoutBacking ap vnodeIo).Trace log error) :
    ∃ result succeeded v2 created, UplEffect ap.a_pl [] log result succeeded v2 created ∧
      (result = some [] ↔ (ap.a_pl = none → succeeded = true → v2 = !created)) := by
  obtain ⟨flags, log₁, rfl, h₁⟩ := trace_perform_bind.mp h
  split at h₁
  · rename_i hgiven
    obtain ⟨hv2, hpl⟩ := hgiven
    dsimp only at hpl
    obtain ⟨⟨created, upl⟩, log₂, rfl, h₂⟩ := trace_perform_bind.mp h₁
    -- the UPL of this block is of the dirty pages only
    have hflags : allPages [msyncOr ap.a_flags .UBC_PAGEOUT, .RET_ONLY_DIRTY] = false := by
      simp [allPages]
    dsimp only at h₂
    -- ubc_create_upl gave a UPL, or failed
    split at h₂
    · rename_i u
      obtain ⟨result, succeeded, created, heffect, hiff⟩ := upls_pageout_some hpl rfl
        (fun call hcall => hkpi call (by simp [hcall])) h₂
      refine ⟨result, succeeded, false, created, ?_, ?_⟩
      · have hall := UplEffect.cons (⟨.qvrGetVnodeVfsFlags vnodeIo, flags⟩ : KernelCall Vnode) rfl
          (UplEffect.cons (⟨.ubcCreateUpl vnodeIo ap.a_f_offset ap.a_size
            [msyncOr ap.a_flags .UBC_PAGEOUT, .RET_ONLY_DIRTY], (0, some u)⟩ : KernelCall Vnode)
            rfl heffect)
        simpa [backingPageoutSucceeded, hasPageoutV2, allPagesCreated, hflags, hv2, hpl] using hall
      · rw [hiff]
        cases created <;> simp [hpl]
    · rename_i hnot
      obtain ⟨done, abort, log₃, rfl, habort, h₃⟩ := trace_bind.mp h₂
      obtain ⟨rfl, rfl⟩ := trace_pure.mp h₃
      have hcreated : error = 0 ↔ upl ≠ none :=
        hkpi _ (List.mem_cons_of_mem _ List.mem_cons_self)
      -- without a UPL there is nothing to dispose of
      have hnone : upl = none := by
        by_contra hsome
        obtain ⟨u, hu⟩ := Option.ne_none_iff_exists'.mp hsome
        exact hnot u (hcreated.mpr hsome) hu
      subst hnone
      rw [List.append_nil]
      refine ⟨some [], false, false, false, ?_, by simp⟩
      have hall := UplEffect.cons (⟨.qvrGetVnodeVfsFlags vnodeIo, flags⟩ : KernelCall Vnode) rfl
        (UplEffect.cons (⟨.ubcCreateUpl vnodeIo ap.a_f_offset ap.a_size
          [msyncOr ap.a_flags .UBC_PAGEOUT, .RET_ONLY_DIRTY], (error, none)⟩ : KernelCall Vnode)
          (uplStep_notCreated ..) (upls_abort_none ap.a_pl [] habort))
      simpa [backingPageoutSucceeded, hasPageoutV2, allPagesCreated, hflags, hv2] using hall
  · rename_i hnot
    have hio : ({ ap with a_vp := vnodeIo, a_context := .superUser } : PagingArgs Vnode).a_pl =
      ap.a_pl := rfl
    obtain ⟨result, succeeded, created, heffect, hiff⟩ := upls_pageout_none hio
      (fun call hcall => hkpi call (List.mem_cons_of_mem _ hcall)) h₁
    refine ⟨result, succeeded, flags.pageoutV2, created, ?_, ?_⟩
    · have hall := UplEffect.cons (⟨.qvrGetVnodeVfsFlags vnodeIo, flags⟩ : KernelCall Vnode) rfl
        heffect
      simpa [backingPageoutSucceeded, hasPageoutV2, allPagesCreated] using hall
    · rw [hiff]
      refine forall_congr' fun hpl => ?_
      -- no UPL given, so the mount has pageout V2 and the block is left out
      have hv2 : flags.pageoutV2 = true := by
        by_contra hv2
        exact hnot ⟨Bool.eq_false_of_not_eq_true hv2, hpl⟩
      cases created <;> simp [hv2]

/-- The UPLs of the hook are those of its pageout to the backing vnode, if there is one. -/
theorem upls_pageout (hkpi : ∀ call ∈ log, UplKpi call)
    (h : (qvrVnopPageoutHookEx2 ap).Trace log error) :
    UplsDisposed ap.a_pl log ↔ CleanupMatches ap log := by
  unfold UplsDisposed CleanupMatches
  obtain ⟨backing, getting, rest, rfl, hget, hrest⟩ := trace_bind.mp h
  -- getting the backing vnode creates a UPL only to refill the cache, and disposes of it
  have hgetting := (uplNeutral_backingVnodeForIo .write ap.a_vp).effect ap.a_pl [] hget
    fun call hcall => hkpi call (List.mem_append_left _ hcall)
  cases backing with
  -- without a backing vnode the original gets the request as it is
  | none =>
    obtain ⟨e, log₁, rfl, h₁⟩ := trace_perform_bind.mp hrest
    obtain ⟨rfl, rfl⟩ := trace_pure.mp h₁
    have hall := hgetting.append (UplEffect.cons
      (⟨.vnopPageout (.original ap.a_vp) ap, e⟩ : KernelCall Vnode) rfl
      (⟨rfl, rfl, rfl, rfl⟩ : UplEffect ap.a_pl [] [] (some []) false false false))
    rw [hall.after, hall.succeeded]
    simp [backingPageoutSucceeded]
  | some vnodeIo =>
    obtain ⟨e, paged, put, rfl, hpaged, hput⟩ := trace_bind.mp hrest
    obtain ⟨done, log₁, rfl, h₁⟩ := trace_perform_bind.mp hput
    obtain ⟨rfl, rfl⟩ := trace_pure.mp h₁
    obtain ⟨result, succeeded, v2, created, heffect, hiff⟩ :=
      upls_pageoutBacking (fun call hcall => hkpi call (by simp [hcall])) hpaged
    have hlast : ∀ live, UplEffect ap.a_pl live [(⟨.vnodePut vnodeIo, done⟩ : KernelCall Vnode)]
        (some live) false false false := fun live => ⟨rfl, rfl, rfl, rfl⟩
    have hall := hgetting.append (heffect.bind hlast)
    rw [hall.after, hall.succeeded, hall.v2, hall.created]
    simpa using hiff

end Pageout

-- ---------------------------------------------------------------------------
-- Main results
-- ---------------------------------------------------------------------------

/-- The code that creates UPLs. -/
inductive UplUser (Vnode : Type) where
  | readInCache (vnode vnodeIo : Vnode) (offset : Int) (size : Nat)
  | pageout (ap : PagingArgs Vnode)

namespace UplUser

def code : UplUser Vnode → Kernel Vnode Int
  | readInCache vnode vnodeIo offset size =>
    qvrReadInCacheFromBackingFile vnode vnodeIo offset size
  | pageout ap => qvrVnopPageoutHookEx2 ap

/-- The UPL of the request. -/
def own : UplUser Vnode → Option Nat
  | readInCache .. => none
  | pageout ap => ap.a_pl

def CleanupMatches : UplUser Vnode → List (KernelCall Vnode) → Prop
  | readInCache .., _ => True
  | pageout ap, log => VfsRedirector.CleanupMatches ap log

end UplUser

/-- Every UPL is disposed of once, exactly if the cleanup of pageout fits what was created. -/
theorem upls_disposed_iff (user : UplUser Vnode) {log : List (KernelCall Vnode)} {error : Int}
    (hkpi : ∀ call ∈ log, UplKpi call) (h : user.code.Trace log error) :
    UplsDisposed user.own log ↔ user.CleanupMatches log := by
  cases user with
  | readInCache vnode vnodeIo offset size =>
    exact iff_of_true ((uplNeutral_readInCache ..).keeps _ _ log error h hkpi).1 trivial
  | pageout ap => exact upls_pageout hkpi h

/-- Vnode 1 has the backing vnode 2. -/
def backingFound : List (KernelCall Nat) :=
  [⟨.getVnodeAppData 1, some ⟨[47, 114], true⟩⟩, ⟨.cookieForRecursiveCall, none⟩,
    ⟨.isUserClient, false⟩, ⟨.auditVnode .write 1, ()⟩, ⟨.vnodeVtype 1, .vreg⟩,
    ⟨.getVnodeIoRef 1, some 2⟩]

/-- The file system of vnode 2 is asked to write the page, and is given a UPL if it needs one. -/
def backingWritten (upl : Option Nat) : List (KernelCall Nat) :=
  [⟨.enterRecursiveCall .currentThread, ()⟩,
    ⟨.vnopPageout (.vnop 2)
      { pageRequest with a_vp := 2, a_context := .superUser, a_pl := upl }, 0⟩,
    ⟨.qvrVnodeGetSize 1 .caller, (0, 4096)⟩, ⟨.qvrVnodeGetSize 2 .superUser, (0, 4096)⟩,
    ⟨.leaveRecursiveCall, ()⟩]

/-- With the new interface the page is copied, and its UPL unmapped. -/
def pageoutV2Calls : List (KernelCall Nat) :=
  backingFound ++ [⟨.qvrGetVnodeVfsFlags 2, ⟨true, true⟩⟩] ++ backingWritten none ++
  [⟨.ubcCreateUpl 1 0 4096 [.UBC_PAGEOUT], (0, some 7)⟩, ⟨.ubcUplMap 7, (0, 16384)⟩,
    ⟨.vnRdwr .write 2 16384 4096 0, 0⟩, ⟨.ubcUplUnmap 7, ()⟩, ⟨.vnodePut 2, ()⟩]

/-- Without it the file system gets a UPL for vnode 2. -/
def backingGiven : List (KernelCall Nat) :=
  backingFound ++ [⟨.qvrGetVnodeVfsFlags 2, ⟨true, false⟩⟩,
    ⟨.ubcCreateUpl 2 0 4096 [.UBC_PAGEOUT, .RET_ONLY_DIRTY], (0, some 6)⟩] ++
    backingWritten (some 6)

def pageoutV1Calls : List (KernelCall Nat) :=
  backingGiven ++
  [⟨.ubcCreateUpl 1 0 4096 [.UBC_PAGEOUT], (0, some 7)⟩, ⟨.ubcUplMap 7, (0, 16384)⟩,
    ⟨.vnRdwr .write 2 16384 4096 0, 0⟩, ⟨.ubcUplUnmap 7, ()⟩,
    ⟨.ubcUplAbortRange 7 0 4096 false, ()⟩,
    ⟨.vnodePut 2, ()⟩]

/-- The same, but there is no UPL for the page of vnode 1. -/
def pageoutNullCalls : List (KernelCall Nat) :=
  backingGiven ++
  [⟨.ubcCreateUpl 1 0 4096 [.UBC_PAGEOUT], (ENOMEM, none)⟩, ⟨.ubcUplAbortRange 0 0 4096 true, ()⟩,
    ⟨.vnodePut 2, ()⟩]

/-- Without the new interface the UPL of the page is unmapped and aborted at the exit. -/
theorem pageoutV1_disposed : UplsDisposed none pageoutV1Calls := by
  have htrace : (qvrVnopPageoutHookEx2 pageRequest).Trace pageoutV1Calls 0 := by
    repeat constructor
  have hkpi : ∀ call ∈ pageoutV1Calls, UplKpi call := by
    simp [pageoutV1Calls, backingGiven, backingFound, backingWritten, UplKpi]
  exact (upls_disposed_iff (.pageout pageRequest) hkpi htrace).mpr fun _ _ => rfl

/-- The UPL with the page is left, or `NULL` is aborted. -/
theorem upls_not_disposed :
    ((qvrVnopPageoutHookEx2 pageRequest).Trace pageoutV2Calls 0 ∧
      uplsAfter none [] pageoutV2Calls = some [(7, false)]) ∧
    ((qvrVnopPageoutHookEx2 pageRequest).Trace pageoutNullCalls ENOMEM ∧
      uplsAfter none [] pageoutNullCalls = none) ∧
    ¬ ∀ (ap : PagingArgs Nat) (log : List (KernelCall Nat)) (error : Int),
      (∀ call ∈ log, UplKpi call) → (qvrVnopPageoutHookEx2 ap).Trace log error →
        UplsDisposed ap.a_pl log := by
  have hleft : uplsAfter none [] pageoutV2Calls = some [(7, false)] := rfl
  have htrace : (qvrVnopPageoutHookEx2 pageRequest).Trace pageoutV2Calls 0 := by
    repeat constructor
  have hnull : (qvrVnopPageoutHookEx2 pageRequest).Trace pageoutNullCalls ENOMEM := by
    repeat constructor
  refine ⟨⟨htrace, hleft⟩, ⟨hnull, rfl⟩, fun h => ?_⟩
  have hkpi : ∀ call ∈ pageoutV2Calls, UplKpi call := by
    simp [pageoutV2Calls, backingFound, backingWritten, UplKpi]
  have hdisposed : uplsAfter none [] pageoutV2Calls = some [] :=
    h pageRequest pageoutV2Calls 0 hkpi htrace
  rw [hleft] at hdisposed
  cases hdisposed

end VfsRedirector
