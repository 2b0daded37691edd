import VfsRedirector.Redirect.Dispatch

/-!
# Which renames are called

The rename hook calls the rename of the request as it is, or with the original
vnodes in place of redirected ones, or up to three renames with argument blocks of
its own: in the protected storage, of the shadow file, and of the original. Here it
is what these blocks hold: where their vnodes were found (`FoundVnodes`) and what
is in the buffers of their paths (`Converted`).

## Results

* `trace_renameRedirectIo`, `trace_renameOriginal` — the renames with `redirectIO`,
  and without.
* `trace_qvrVnopRenameHookEx2` — the renames of the hook.
-/

namespace VfsRedirector

open Library Prog Kernel

variable {Vnode : Type}

-- ---------------------------------------------------------------------------
-- The calls
-- ---------------------------------------------------------------------------

/-- The implementation and the argument block. -/
def renameCall : KernelCall Vnode → Option (Implementation Vnode × RenameArgs Vnode)
  | ⟨.vnopRename implementation ap, _⟩ => some (implementation, ap)
  | _ => none

def renames (log : List (KernelCall Vnode)) : List (Implementation Vnode × RenameArgs Vnode) :=
  log.filterMap renameCall

@[simp] theorem renames_nil : renames ([] : List (KernelCall Vnode)) = [] := rfl

@[simp] theorem renames_append (log log' : List (KernelCall Vnode)) :
    renames (log ++ log') = renames log ++ renames log' := List.filterMap_append

@[simp] theorem renames_cons (call : KernelCall Vnode) (log : List (KernelCall Vnode)) :
    renames (call :: log) = (renameCall call).toList ++ renames log := by
  unfold renames
  rw [List.filterMap_cons]
  cases renameCall call <;> rfl

/-- Code that calls no original operation renames nothing. -/
theorem renames_noVnop {α : Type} {p : Kernel Vnode α} (hp : p.Calls KernelOp.NoVnop)
    {log : List (KernelCall Vnode)} {a : α} (h : p.Trace log a) : renames log = [] := by
  refine List.filterMap_eq_nil_iff.mpr fun call hcall => ?_
  obtain ⟨o, r⟩ := call
  have ho : o.NoVnop := hp.of_trace h _ hcall
  cases o <;> first | rfl | exact ho.elim

/-- Light code renames nothing. -/
theorem renames_light {α : Type} {p : Kernel Vnode α} (hp : p.Calls KernelOp.Light)
    {log : List (KernelCall Vnode)} {a : α} (h : p.Trace log a) : renames log = [] :=
  renames_noVnop (noVnop_light hp) h

-- ---------------------------------------------------------------------------
-- Where the vnodes are found
-- ---------------------------------------------------------------------------

/-- A lookup of the path has given the vnode. -/
def FoundByLookup (log : List (KernelCall Vnode)) (path : List UInt8) (vn : Option Vnode) : Prop :=
  ∃ context, ⟨.vnodeLookup path context, ((0 : Int), vn)⟩ ∈ log

theorem FoundByLookup.mono {log log' : List (KernelCall Vnode)} {path : List UInt8}
    {vn : Option Vnode}
    (h : FoundByLookup log path vn) (hlog : log ⊆ log') : FoundByLookup log' path vn := by
  obtain ⟨context, hmem⟩ := h
  exact ⟨context, hlog hmem⟩

/-- A lookup in a region is one call between the two of the mark. -/
theorem trace_lookup {cookie : Cookie} {path : List UInt8} {context : Context}
    {log : List (KernelCall Vnode)} {r : Int × Option Vnode}
    (h : (inRecursiveCall cookie (vnodeLookup path context)).Trace log r) :
    log = [⟨.enterRecursiveCall cookie, ()⟩, ⟨.vnodeLookup path context, r⟩,
      ⟨.leaveRecursiveCall, ()⟩] := by
  obtain ⟨inner, rfl, hinner⟩ := trace_inRecursiveCall h
  obtain rfl := trace_perform.mp hinner
  rfl

variable {ap : RenameArgs Vnode} {fvp : Vnode} {log : List (KernelCall Vnode)} {error : Int}
  {appData : ApplicationData} {fromPath toPath : List UInt8} {l l' : RenameLocals Vnode}

/-- An error ends the rename at once, with the locals as they are then. -/
theorem trace_unlessFailed {α : Type} {e : Int} {a a' : α} {p : Kernel Vnode (Int × α)}
    (h : (if e ≠ 0 then Pure.pure (e, a) else p : Kernel Vnode (Int × α)).Trace log (error, a')) :
    (error ≠ 0 ∧ a' = a ∧ log = []) ∨ (e = 0 ∧ p.Trace log (error, a')) := by
  split at h
  · next hne =>
    obtain ⟨rfl, heq⟩ := trace_pure.mp h
    obtain ⟨rfl, rfl⟩ := Prod.mk.inj heq
    exact .inl ⟨hne, rfl, rfl⟩
  · next hzero => exact .inr ⟨not_not.mp hzero, h⟩

/-- The original target is looked up if there is a target. -/
theorem trace_lookupOriginalTarget {r : Int × Option Vnode}
    (h : (lookupOriginalTarget ap).Trace log r) : renames log = [] ∧
      (r.1 = 0 → (ap.a_tvp = none ∧ r.2 = none) ∨ FoundByLookup log ap.a_tcnp.cn_pnbuf r.2) := by
  unfold lookupOriginalTarget at h
  split at h
  · obtain rfl := trace_lookup h
    refine ⟨rfl, fun hr => .inr ⟨ap.a_context, ?_⟩⟩
    simp [← hr]
  · next hnone =>
    obtain ⟨rfl, rfl⟩ := trace_pure.mp h
    exact ⟨rfl, fun _ => .inl ⟨hnone, rfl⟩⟩

/-- What is looked up for the blocks of the hook's own. -/
structure FoundVnodes (appData : ApplicationData) (ap : RenameArgs Vnode)
    (fromPath toPath : List UInt8) (log : List (KernelCall Vnode)) (l : RenameLocals Vnode) :
    Prop where
  a_fdvp : FoundByLookup log appData.redirectTo l.a_fdvp
  a_tdvp : FoundByLookup log appData.redirectTo l.a_tdvp
  a_fvp : FoundByLookup log fromPath l.a_fvp
  originalFvp : FoundByLookup log ap.a_fcnp.cn_pnbuf l.originalFvp
  a_tvp : l.a_tvp = none ∨ FoundByLookup log toPath l.a_tvp
  originalTvp : l.originalTvp = none ∨ FoundByLookup log ap.a_tcnp.cn_pnbuf l.originalTvp

/-- A leftover target comes to the locals, or they stay as they are. -/
theorem trace_lookupLeftoverTarget {redirectedTvp : Vnode} (hnone : l.a_tvp = none)
    (h : (lookupLeftoverTarget ap redirectedTvp l).Trace log l') :
    renames log = [] ∧ (l' = l ∨ l' = { l with a_tvp := some redirectedTvp }) := by
  obtain ⟨⟨error2, originalTvp⟩, first, rest, rfl, hlookup, h₁⟩ := trace_bind.mp h
  obtain rfl := trace_lookup hlookup
  dsimp only at h₁
  split at h₁
  · obtain ⟨_, put, rest', rfl, hput, h₂⟩ := trace_bind.mp h₁
    obtain ⟨_, rest, rfl, h₃⟩ := trace_perform_bind.mp h₂
    obtain ⟨rfl, rfl⟩ := trace_pure.mp h₃
    exact ⟨by simp [renameCall, renames_light (light_putIfAny _) hput], .inl rfl⟩
  · obtain ⟨_, emptied, rest', rfl, hemptied, h₂⟩ := trace_bind.mp h₁
    obtain ⟨inner, rfl, hinner⟩ := trace_inRecursiveCall hemptied
    obtain rfl := trace_perform.mp hinner
    obtain ⟨_, rest, rfl, h₃⟩ := trace_perform_bind.mp h₂
    obtain ⟨_, rest, rfl, h₄⟩ := trace_perform_bind.mp h₃
    obtain ⟨rfl, rfl⟩ := trace_pure.mp h₄
    exact ⟨by simp [renameCall], .inr rfl⟩

/-- The targets that are found, in locals that have none yet. -/
theorem trace_lookupTargets (hnone : l.a_tvp = none ∧ l.originalTvp = none)
    (h : (lookupTargets ap toPath l).Trace log (error, l')) : renames log = [] ∧
      ∃ a_tvp originalTvp, l' = { l with a_tvp, originalTvp } ∧ (error = 0 →
        (a_tvp = none ∨ FoundByLookup log toPath a_tvp) ∧
        (originalTvp = none ∨ FoundByLookup log ap.a_tcnp.cn_pnbuf originalTvp)) := by
  obtain ⟨htvp, horiginal⟩ := hnone
  have hsame : l = { l with a_tvp := none, originalTvp := none } := by
    cases l
    cases htvp
    cases horiginal
    rfl
  unfold lookupTargets at h
  split at h
  · obtain ⟨⟨error₁, a_tvp⟩, first, rest, rfl, hlookup, h₁⟩ := trace_bind.mp h
    obtain rfl := trace_lookup hlookup
    obtain ⟨hne, rfl, rfl⟩ | ⟨rfl, h₁⟩ := trace_unlessFailed h₁
    · exact ⟨by simp [renameCall], a_tvp, none, by rw [← horiginal], fun h0 => absurd h0 hne⟩
    · obtain ⟨⟨error₂, originalTvp⟩, first, rest, rfl, hlookup, h₂⟩ := trace_bind.mp h₁
      -- and the original's target
      obtain rfl := trace_lookup hlookup
      obtain ⟨rfl, heq⟩ := trace_pure.mp h₂
      obtain ⟨rfl, rfl⟩ := Prod.mk.inj heq
      refine ⟨by simp [renameCall], a_tvp, originalTvp, rfl, fun h0 => ⟨.inr ?_, .inr ?_⟩⟩
      · exact ⟨.superUser, by simp⟩
      · exact ⟨ap.a_context, by simp [h0]⟩
  · obtain ⟨⟨error2, redirectedTvp⟩, first, rest, rfl, hlookup, h₁⟩ := trace_bind.mp h
    obtain rfl := trace_lookup hlookup
    dsimp only at h₁
    split at h₁
    -- a target that only the storage has
    · next redirectedTvp =>
      obtain ⟨l₁, leftover, rest, rfl, hleftover, h₂⟩ := trace_bind.mp h₁
      obtain ⟨rfl, heq⟩ := trace_pure.mp h₂
      obtain ⟨rfl, rfl⟩ := Prod.mk.inj heq
      obtain ⟨hrenames, hl⟩ := trace_lookupLeftoverTarget htvp hleftover
      refine ⟨by simp [renameCall, hrenames], ?_⟩
      rcases hl with rfl | rfl
      · exact ⟨none, none, hsame, fun _ => ⟨.inl rfl, .inl rfl⟩⟩
      · refine ⟨some redirectedTvp, none, by rw [← horiginal], fun _ => ⟨.inr ?_, .inl rfl⟩⟩
        exact ⟨.superUser, by simp⟩
    · obtain ⟨rfl, heq⟩ := trace_pure.mp h₁
      obtain ⟨rfl, rfl⟩ := Prod.mk.inj heq
      exact ⟨by simp [renameCall], none, none, hsame, fun _ => ⟨.inl rfl, .inl rfl⟩⟩

/-- The lookups of a rename, each of which ends it when it fails. -/
theorem trace_lookupRenamed (h : (lookupRenamed appData ap fromPath toPath).Trace log (error, l)) :
    renames log = [] ∧ (error = 0 → FoundVnodes appData ap fromPath toPath log l) := by
  obtain ⟨⟨error₁, a_fdvp⟩, first, rest, rfl, hlookup, h₁⟩ := trace_bind.mp h
  obtain rfl := trace_lookup hlookup
  obtain ⟨hne, -, rfl⟩ | ⟨rfl, h₁⟩ := trace_unlessFailed h₁
  · exact ⟨by simp [renameCall], fun h0 => absurd h0 hne⟩
  obtain ⟨⟨error₂, a_tdvp⟩, first, rest, rfl, hlookup, h₂⟩ := trace_bind.mp h₁
  obtain rfl := trace_lookup hlookup
  obtain ⟨hne, -, rfl⟩ | ⟨rfl, h₂⟩ := trace_unlessFailed h₂
  · exact ⟨by simp [renameCall], fun h0 => absurd h0 hne⟩
  obtain ⟨⟨error₃, a_fvp⟩, first, rest, rfl, hlookup, h₃⟩ := trace_bind.mp h₂
  obtain rfl := trace_lookup hlookup
  obtain ⟨hne, -, rfl⟩ | ⟨rfl, h₃⟩ := trace_unlessFailed h₃
  · exact ⟨by simp [renameCall], fun h0 => absurd h0 hne⟩
  obtain ⟨⟨error₄, originalFvp⟩, first, rest, rfl, hlookup, h₄⟩ := trace_bind.mp h₃
  obtain rfl := trace_lookup hlookup
  obtain ⟨hne, -, rfl⟩ | ⟨rfl, h₄⟩ := trace_unlessFailed h₄
  · exact ⟨by simp [renameCall], fun h0 => absurd h0 hne⟩
  obtain ⟨hrenames, a_tvp, originalTvp, rfl, htargets⟩ := trace_lookupTargets ⟨rfl, rfl⟩ h₄
  refine ⟨by simp [renameCall, hrenames], fun h0 => ?_⟩
  obtain ⟨htvp, horiginal⟩ := htargets h0
  refine ⟨⟨.superUser, by simp⟩, ⟨.superUser, by simp⟩, ⟨.superUser, by simp⟩,
    ⟨ap.a_context, by simp⟩, ?_, ?_⟩
  · exact htvp.imp_right fun hfound => hfound.mono fun call hcall => by simp [hcall]
  · exact horiginal.imp_right fun hfound => hfound.mono fun call hcall => by simp [hcall]

-- ---------------------------------------------------------------------------
-- What is in the buffers
-- ---------------------------------------------------------------------------

/-- The string in a buffer, and the size that was allocated. -/
def PathBuffer.Is (b : PathBuffer) (s : List UInt8 × Nat) : Prop := b.string = s.1 ∧ b.size = s.2

/-- What `QvrConvertToShadowCopyPath` gives. -/
def shadowBuffer (path : List UInt8) : List UInt8 × Nat :=
  (shadowCopy path, path.length + shadowPrefix.length + 1)

/-- What `QvrConvertToRedirectedPath` gives. -/
def redirectedBuffer (redirectedDir file : List UInt8) : List UInt8 × Nat :=
  (redirected redirectedDir file,
    redirectedDir.length + (if redirectedDir = [] then 0 else (slashBetween file).length) +
      file.length + 4)

/-- In the order of `renameConversions`. -/
def renameBuffers (appData : ApplicationData) (ap : RenameArgs Vnode) :
    List (List UInt8 × Nat) :=
  [redirectedBuffer appData.redirectTo (shadowCopy ap.a_fcnp.cn_pnbuf),
    redirectedBuffer [] (shadowCopy ap.a_fcnp.cn_pnbuf),
    redirectedBuffer appData.redirectTo (shadowCopy ap.a_tcnp.cn_pnbuf),
    redirectedBuffer [] (shadowCopy ap.a_tcnp.cn_pnbuf),
    shadowBuffer ap.a_fcnp.cn_pnbuf, shadowBuffer ap.a_fcnp.cn_nameptr,
    shadowBuffer ap.a_tcnp.cn_pnbuf, shadowBuffer ap.a_tcnp.cn_nameptr]

/-- A conversion fails, or gives a buffer. -/
def GivesBuffer (s : List UInt8 × Nat) (r : Int × Option PathBuffer) : Prop :=
  r.2 = none ∨ ∃ b, r = (0, some b) ∧ b.Is s

/-- The buffer of a shadow path is as long as the conversion says. -/
theorem givesBuffer_shadow (path : List UInt8) :
    (convertToShadowCopyPath path : Kernel Vnode _).Returns (GivesBuffer (shadowBuffer path)) := by
  refine .bind (.trivial _) fun addr _ => ?_
  cases addr with
  | none => exact .inl rfl
  | some addr => exact .inr ⟨_, rfl, rfl, rfl⟩

/-- The buffer of a redirected path is as long as the conversion says. -/
theorem givesBuffer_redirected (file redirectedDir : List UInt8) :
    (convertToRedirectedPath file redirectedDir : Kernel Vnode _).Returns
      (GivesBuffer (redirectedBuffer redirectedDir file)) := by
  refine .bind (.trivial _) fun addr _ => ?_
  cases addr with
  | none => exact .inl rfl
  | some addr => exact .inr ⟨_, rfl, rfl, rfl⟩

/-- The buffer of both conversions is that of the second. -/
theorem givesBuffer_both (path redirectedDir : List UInt8) :
    (convertToShadowAndThenRedirectedPath path redirectedDir : Kernel Vnode _).Returns
      (GivesBuffer (redirectedBuffer redirectedDir (shadowCopy path))) := by
  refine .bind (givesBuffer_shadow path) fun r hr => ?_
  obtain ⟨error, shadowPath⟩ := r
  obtain rfl | ⟨b, hr, hb⟩ := hr
  · exact .inl rfl
  · cases hr
    refine .bind (givesBuffer_redirected _ _) fun r hr => .bind (.trivial _) fun _ _ => ?_
    rw [hb.1] at hr
    exact hr

/-- The buffers of a rename, as far as its conversions succeed. -/
theorem givesBuffer_renameConversions (appData : ApplicationData) (ap : RenameArgs Vnode) :
    (convertPaths (renameConversions appData ap)).Returns fun r =>
      List.Forall₂ PathBuffer.Is r.2 ((renameBuffers appData ap).take r.2.length) := by
  have hzip : ((renameConversions appData ap).zip (renameBuffers appData ap)).map Prod.fst =
      renameConversions appData ap := rfl
  have h := returns_convertPaths (R := PathBuffer.Is)
    (l := (renameConversions appData ap).zip (renameBuffers appData ap))
  rw [hzip] at h
  have hgives : ∀ x ∈ (renameConversions appData ap).zip (renameBuffers appData ap),
      x.1.Returns (GivesBuffer x.2) := by
    simp [renameConversions, renameBuffers, givesBuffer_both, givesBuffer_shadow]
  exact h hgives

-- ---------------------------------------------------------------------------
-- The renames of each branch
-- ---------------------------------------------------------------------------

/-- The blocks of the hook's own, with what was found and converted for them. -/
structure HookBlocks (appData : ApplicationData) (fvp : Vnode) (ap : RenameArgs Vnode)
    (log : List (KernelCall Vnode)) where
  l : RenameLocals Vnode
  fromRedirectedFilePath : PathBuffer
  fromRedirectedFileName : PathBuffer
  toRedirectedFilePath : PathBuffer
  toRedirectedFileName : PathBuffer
  fromShadowFilePath : PathBuffer
  fromShadowFileName : PathBuffer
  toShadowFilePath : PathBuffer
  toShadowFileName : PathBuffer
  converted : List.Forall₂ PathBuffer.Is [fromRedirectedFilePath, fromRedirectedFileName,
    toRedirectedFilePath, toRedirectedFileName, fromShadowFilePath, fromShadowFileName,
    toShadowFilePath, toShadowFileName] (renameBuffers appData ap)
  found : FoundVnodes appData ap fromRedirectedFilePath.string toRedirectedFilePath.string log l

namespace HookBlocks

variable (b : HookBlocks appData fvp ap log)

def apRedirected : RenameArgs Vnode :=
  ap.redirected b.l b.fromRedirectedFilePath b.fromRedirectedFileName b.toRedirectedFilePath
    b.toRedirectedFileName

def apShadow : RenameArgs Vnode :=
  ap.shadow b.fromShadowFilePath b.fromShadowFileName b.toShadowFilePath b.toShadowFileName

def apOriginal : RenameArgs Vnode := ap.original b.l

/-- In the order in which they are called, each after the one before it has succeeded. -/
def renames (redirectedFvp : Vnode) : List (Implementation Vnode × RenameArgs Vnode) :=
  [(.vnop redirectedFvp, b.apRedirected), (.original fvp, b.apShadow),
    (.original fvp, b.apOriginal)]

end HookBlocks

/-- The three renames are called in order, up to the first that fails, or none is. -/
theorem trace_renameAll {apRedirected apShadow apOriginal : RenameArgs Vnode}
    (h : (renameAll fvp apRedirected apShadow apOriginal).Trace log error) :
    renames log = [] ∨ ∃ redirectedFvp, apRedirected.a_fvp = some redirectedFvp ∧
      renames log <+: [(.vnop redirectedFvp, apRedirected), (.original fvp, apShadow),
        (.original fvp, apOriginal)] ∧ renames log ≠ [] := by
  unfold renameAll at h
  split at h
  · obtain ⟨rfl, rfl⟩ := trace_pure.mp h
    exact .inl rfl
  · next redirectedFvp hfvp =>
    refine .inr ⟨redirectedFvp, hfvp, ?_⟩
    obtain ⟨error₁, log₁, rfl, h₁⟩ := trace_perform_bind.mp h
    split at h₁
    · obtain ⟨rfl, rfl⟩ := trace_pure.mp h₁
      simp [renameCall]
    · obtain ⟨error₂, log₂, rfl, h₂⟩ := trace_perform_bind.mp h₁
      split at h₂
      · obtain ⟨rfl, rfl⟩ := trace_pure.mp h₂
        simp [renameCall]
      · obtain ⟨error₃, log₃, rfl, h₃⟩ := trace_perform_bind.mp h₂
        split at h₃
        · obtain ⟨rfl, rfl⟩ := trace_pure.mp h₃
          simp [renameCall]
        · simp [renameCall, renames_light (light_renameDone _ _) h₃]

theorem FoundVnodes.mono {log' : List (KernelCall Vnode)}
    (h : FoundVnodes appData ap fromPath toPath log l) (hlog : log ⊆ log') :
    FoundVnodes appData ap fromPath toPath log' l where
  a_fdvp := h.a_fdvp.mono hlog
  a_tdvp := h.a_tdvp.mono hlog
  a_fvp := h.a_fvp.mono hlog
  originalFvp := h.originalFvp.mono hlog
  a_tvp := h.a_tvp.imp_right (·.mono hlog)
  originalTvp := h.originalTvp.imp_right (·.mono hlog)

/-- With `redirectIO` the renames are those of the three blocks, in order. -/
theorem trace_renameRedirectIo {r : Int × RenameArgs Vnode}
    (h : (renameRedirectIo appData fvp ap).Trace log r) :
    renames log = [] ∨ ∃ (b : HookBlocks appData fvp ap log) (redirectedFvp : Vnode),
      b.l.a_fvp = some redirectedFvp ∧ renames log <+: b.renames redirectedFvp ∧
        renames log ≠ [] := by
  obtain ⟨⟨error, paths⟩, converting, rest, rfl, hconvert, h₁⟩ := trace_bind.mp h
  -- conversions and lookups rename nothing
  have hconverting := renames_light (light_renameConversions _ _) hconvert
  have hbuffers := (givesBuffer_renameConversions appData ap).of_trace hconvert
  dsimp only at h₁ hbuffers
  split at h₁
  · obtain ⟨⟨error, l⟩, looking, rest, rfl, hlookup, h₂⟩ := trace_bind.mp h₁
    obtain ⟨hlooking, hfound⟩ := trace_lookupRenamed hlookup
    dsimp only at h₂
    split at h₂
    · refine .inl ?_
      rw [renames_append, renames_append, hconverting, hlooking,
        renames_light (light_renameExit ..) h₂]
      rfl
    · next hzero =>
      obtain ⟨error', calling, exiting, rfl, hrename, h₃⟩ := trace_bind.mp h₂
      obtain ⟨inner, rfl, hinner⟩ := trace_inRecursiveCall hrename
      -- the renames are those made in the recursive call
      have hrenames : renames (converting ++ (looking ++
          (⟨.enterRecursiveCall .currentThread, ()⟩ :: inner ++ [⟨.leaveRecursiveCall, ()⟩] ++
            exiting))) = renames inner := by
        simp [hconverting, hlooking, renames_light (light_renameExit ..) h₃, renameCall]
      rw [hrenames]
      obtain hnone | ⟨redirectedFvp, hfvp, hsegment, hsome⟩ := trace_renameAll hinner
      · exact .inl hnone
      · refine .inr ⟨⟨l, _, _, _, _, _, _, _, _, hbuffers, (hfound (not_not.mp hzero)).mono ?_⟩,
          redirectedFvp, hfvp, hsegment, hsome⟩
        intro call hcall
        simp [hcall]
  · refine .inl ?_
    rw [renames_append, hconverting, renames_light (light_renameExit ..) h₁]
    rfl

/-- Without `redirectIO` there is one rename, with the vnodes that were looked up. -/
theorem trace_renameOriginal {r : Int × RenameArgs Vnode}
    (h : (renameOriginal fvp ap).Trace log r) :
    renames log = [] ∨ ∃ newFvp newTvp,
      renames log = [(.original fvp, ap.swapped newFvp newTvp)] ∧
        FoundByLookup log ap.a_fcnp.cn_pnbuf newFvp ∧
        ((ap.a_tvp = none ∧ newTvp = none) ∨ FoundByLookup log ap.a_tcnp.cn_pnbuf newTvp) := by
  obtain ⟨⟨error₁, newFvp⟩, first, rest, rfl, hlookup, h₁⟩ := trace_bind.mp h
  obtain rfl := trace_lookup hlookup
  dsimp only at h₁
  split at h₁
  · exact .inl (by simp [renameCall, renames_light (light_renameExit ..) h₁])
  next hzero₁ =>
  obtain rfl := not_not.mp hzero₁
  obtain ⟨⟨error₂, newTvp⟩, looking, rest, rfl, htarget, h₂⟩ := trace_bind.mp h₁
  obtain ⟨hlooking, hfound⟩ := trace_lookupOriginalTarget htarget
  dsimp only at h₂ hfound
  split at h₂
  · exact .inl (by simp [renameCall, hlooking, renames_light (light_renameExit ..) h₂])
  next hzero₂ =>
  obtain ⟨error₃, rest, rfl, h₃⟩ := trace_perform_bind.mp h₂
  refine .inr ⟨newFvp, newTvp, ?_, ⟨ap.a_context, by simp⟩, ?_⟩
  · simp [renameCall, hlooking, renames_light (light_renameExit ..) h₃]
  · exact (hfound (not_not.mp hzero₂)).imp_right fun hfound =>
      hfound.mono fun call hcall => by simp [hcall]

-- ---------------------------------------------------------------------------
-- The hook
-- ---------------------------------------------------------------------------

/-- The request is redirected with `appData`: it is not recursive and not of the client, and
the data is that of the vnode or else of the application. -/
def RenameRedirected (ctx : VfsContext) (fvp : Vnode) (appData : ApplicationData)
    (log : List (KernelCall Vnode)) : Prop :=
  ∃ appDataVnode : Option ApplicationData, appDataVnode.or ctx.openExisting = some appData ∧
    [⟨.getVnodeAppData fvp, appDataVnode⟩, ⟨.cookieForRecursiveCall, none⟩,
      ⟨.isUserClient, false⟩] <+: log

/-- A request that is not redirected goes on as it is. -/
theorem trace_renameUnchanged {r : Int × RenameArgs Vnode}
    (h : (renameUnchanged fvp ap).Trace log r) : renames log = [(.original fvp, ap)] := by
  obtain ⟨error, log₁, rfl, h₁⟩ := trace_perform_bind.mp h
  obtain ⟨rfl, rfl⟩ := trace_pure.mp h₁
  rfl

/-- The hook renames once if it is not redirected, and else as its branch does. -/
theorem trace_qvrVnopRenameHookEx2 {ctx : VfsContext} {r : Int × RenameArgs Vnode}
    (h : (qvrVnopRenameHookEx2 ctx fvp ap).Trace log r) :
    ((∀ appData, ¬RenameRedirected ctx fvp appData log) ∧ renames log = [(.original fvp, ap)]) ∨
    ∃ appData rest, RenameRedirected ctx fvp appData log ∧ renames log = renames rest ∧
      rest ⊆ log ∧ (match appData.redirectIo with
        | true => renameRedirectIo appData fvp ap
        | false => renameOriginal fvp ap).Trace rest r := by
  obtain ⟨appDataVnode, log₁, rfl, h₁⟩ := trace_perform_bind.mp h
  -- the log shows the data, then the two answers that let the hook redirect
  have hdata : ∀ {appData log}, RenameRedirected ctx fvp appData
      (⟨.getVnodeAppData fvp, appDataVnode⟩ :: log) →
        appDataVnode.or ctx.openExisting = some appData ∧
          [⟨.cookieForRecursiveCall, none⟩, ⟨.isUserClient, false⟩] <+: log := by
    rintro appData log ⟨appDataVnode', hor, hlog⟩
    rw [List.cons_prefix_cons] at hlog
    obtain rfl : appDataVnode' = appDataVnode := eq_of_heq (Sigma.mk.inj hlog.1).2
    exact ⟨hor, hlog.2⟩
  split at h₁
  -- no application: the original is called with the request as it is
  · next hnone =>
    have hcalls : renames log₁ = [(.original fvp, ap)] := trace_renameUnchanged h₁
    refine .inl ⟨fun appData hred => ?_, hcalls⟩
    rw [(hdata hred).1] at hnone
    cases hnone
  · next appData hsome =>
    obtain ⟨skip, asked, rest, rfl, hasked, h₂⟩ := trace_bind.mp h₁
    obtain ⟨cookie, rfl, rfl⟩ | rfl := trace_isRecursiveCallOrUserClient hasked
    · have hcalls : renames rest = [(.original fvp, ap)] := trace_renameUnchanged h₂
      refine .inl ⟨fun appData hred => ?_, hcalls⟩
      have hlog := (hdata hred).2
      rw [List.singleton_append, List.cons_prefix_cons] at hlog
      cases eq_of_heq (Sigma.mk.inj hlog.1).2
    · cases skip with
      | true =>
        have hcalls : renames rest = [(.original fvp, ap)] := trace_renameUnchanged h₂
        refine .inl ⟨fun appData hred => ?_, hcalls⟩
        have hlog := (hdata hred).2
        rw [List.cons_append, List.cons_prefix_cons, List.singleton_append,
          List.cons_prefix_cons] at hlog
        cases eq_of_heq (Sigma.mk.inj hlog.2.1).2
      | false =>
        refine .inr ⟨appData, rest, ⟨appDataVnode, hsome, ⟨rest, rfl⟩⟩, rfl, ?_, h₂⟩
        intro call hcall
        simp [hcall]

end VfsRedirector
