import VfsRedirector.Redirect.Ledger

/-!
# Who owns the result of lookup and create

Each part of the hooks is accounted for by its own lemma (`owns_…`): what it has
to be given, and what is in its result. From them, lookup and create return 0
exactly with a vnode, of which the caller has one new iocount, and keep nothing
else (`lookup_create_owned`).

## Results

* `owns_qvrGetBackingVnodeForRedirectedIo` — the backing vnode comes with a reference.
* `owns_createShadowFile`, `owns_lookupShadow` — the shadow file of a create, and of a
  lookup.
* `lookup_create_owned` — what the callers of the two hooks have.
-/

namespace VfsRedirector

open Library Prog Kernel

variable {Vnode : Type} [DecidableEq Vnode] {E : Int → Prop}
  {allow : KernelOp Vnode → Outcome Vnode → Prop}

-- ---------------------------------------------------------------------------
-- Parts that all hooks use
-- ---------------------------------------------------------------------------

/-- What is known of the result can be added to what is owned. -/
theorem Owns.and_returns {α : Type} {pre : Held Vnode} {p : Kernel Vnode α} {P P' : α → Prop}
    {post : α → Held Vnode} (h : Owns allow pre p P post) (hp : p.Returns P') :
    Owns allow pre p (fun a => P a ∧ P' a) post := by
  intro s a s' hrun
  obtain ⟨hP, hheld⟩ := h s a s' hrun
  exact ⟨⟨hP, hp.of_runs hrun⟩, hheld⟩

/-- A vnode that is held is put. -/
theorem owns_putIfAny (vn : Option Vnode) :
    Owns allow (Held.iocount vn) (putIfAny vn) (fun _ => True) fun _ => 0 := by
  cases vn with
  | none => exact Accounts.pure trivial Held.iocount_none.symm
  | some vp => exact owns_vnodePut vp

/-- A path that is held is freed. -/
theorem owns_freePath (p : Option PathBuffer) :
    Owns allow (Held.path p) (freePath p) (fun _ => True) fun _ => 0 := by
  cases p with
  | none => exact Accounts.pure trivial Held.path_none.symm
  | some path => exact owns_ioFree path.addr path.size

/-- The result of a conversion is a buffer that the caller holds, or there is none. -/
theorem owns_convertToShadowCopyPath (path : List UInt8) :
    Owns allow 0 (convertToShadowCopyPath path) (ConvertsTo (shadowCopy path))
      (Held.path ·.2) := by
  have hbuffer : Owns allow 0 (convertToShadowCopyPath path) (fun _ => True) (Held.path ·.2) := by
    refine .bind (owns_ioMalloc _) fun addr _ => ?_
    cases addr with
    | none => exact .pure trivial (by simp)
    | some addr => exact .pure trivial (by simp [Held.path])
  exact (hbuffer.and_returns (returns_convertToShadowCopyPath path)).conseq
    fun r hr => ⟨hr.2, by simp⟩

/-- The result of a redirection is a buffer that the caller holds, or there is none. -/
theorem owns_convertToRedirectedPath (file redirectedDir : List UInt8) :
    Owns allow 0 (convertToRedirectedPath file redirectedDir)
      (ConvertsTo (redirected redirectedDir file)) (Held.path ·.2) := by
  have hbuffer : Owns allow 0 (convertToRedirectedPath file redirectedDir) (fun _ => True)
      (Held.path ·.2) := by
    refine .bind (owns_ioMalloc _) fun addr _ => ?_
    cases addr with
    | none => exact .pure trivial (by simp)
    | some addr => exact .pure trivial (by simp [Held.path])
  exact (hbuffer.and_returns (returns_convertToRedirectedPath file redirectedDir)).conseq
    fun r hr => ⟨hr.2, by simp⟩

/-- A mark is nothing that is held. -/
theorem owns_inRecursiveCall {α : Type} {pre : Held Vnode} {cookie : Cookie} {p : Kernel Vnode α}
    {P : α → Prop} {post : α → Held Vnode} (hp : Owns allow pre p P post) :
    Owns allow pre (inRecursiveCall cookie p) P post := by
  have henter : Owns allow 0 (enterRecursiveCall cookie) (fun _ => True) fun _ => 0 :=
    owns_neutral (.perform trivial) (.trivial _)
  have hleave : Owns allow 0 leaveRecursiveCall (fun _ => True) fun _ => 0 :=
    owns_neutral (.perform trivial) (.trivial _)
  refine .bind henter fun _ _ => ?_
  refine .bind hp fun a ha => ?_
  exact .bind hleave fun _ _ => .pure ha (by abel)

-- ---------------------------------------------------------------------------
-- The backing vnode
-- ---------------------------------------------------------------------------

section Calls

variable (hallow : ∀ o c, allow o c → Documented E o c)
include hallow

/-- The backing vnode that was looked up is held, and its path is freed. -/
theorem owns_lookupBackingVnode (vn : Vnode) (vnodePath : List UInt8) (appData : ApplicationData) :
    Owns allow 0 (lookupBackingVnode vn vnodePath appData) (fun _ => True) Held.iocount := by
  refine .bind (owns_convertToRedirectedPath _ _) ?_
  rintro _ (rfl | ⟨path, rfl, -⟩)
  · exact .pure trivial (by simp)
  · refine .bind (owns_inRecursiveCall (owns_vnodeLookup hallow _ _)) ?_
    rintro _ (⟨backing, rfl⟩ | ⟨error, herror, -, rfl⟩)
    · refine .bind (owns_neutral (.perform trivial) (.trivial _)) fun _ _ => ?_
      refine .bind (owns_inRecursiveCall (owns_caching (calls_refillCache _ _)))
        fun _ _ => ?_
      refine .bind (owns_freePath _) fun _ _ => .pure trivial ?_
      abel
    · dsimp only
      split
      · simp_all
      · refine .bind (owns_freePath _) fun _ _ => .pure trivial ?_
        simp

/-- The buffer for the path of the vnode is freed on every way. -/
theorem owns_findBackingVnode (vn : Vnode) (appData : ApplicationData) :
    Owns allow 0 (findBackingVnode vn appData) (fun _ => True) Held.iocount := by
  refine .bind (owns_ioMalloc _) fun addr _ => ?_
  cases addr with
  | none => exact .pure trivial (by simp)
  | some vnodePath =>
    refine .bind (owns_neutral (.perform trivial) (.trivial _)) ?_
    rintro ⟨error, path⟩ -
    dsimp only
    split
    · refine .bind (owns_lookupBackingVnode hallow vn path appData) fun backingVnode _ => ?_
      exact .bind (owns_ioFree _ _) fun _ _ => .pure trivial (by abel)
    · have hnone : Owns allow 0 (Pure.pure none) (fun _ => True) Held.iocount :=
        .pure trivial Held.iocount_none
      refine .bind hnone fun _ _ => ?_
      exact .bind (owns_ioFree _ _) fun _ _ => .pure trivial (by simp)

/-- The backing vnode has a reference, whether it comes from the map or from a lookup. -/
theorem owns_qvrGetBackingVnodeForRedirectedIo (vn : Vnode) (appData : ApplicationData)
    (forceUpdate : Bool) : Owns allow 0 (qvrGetBackingVnodeForRedirectedIo vn appData forceUpdate)
      (fun _ => True) Held.iocount := by
  refine .bind (owns_neutral (.perform trivial) (.trivial _)) fun type _ => ?_
  split
  · exact .pure trivial (by simp)
  · split
    · refine .bind (owns_neutral (.perform trivial) (.trivial _)) fun _ _ => ?_
      exact (owns_findBackingVnode hallow vn appData).conseq fun _ _ => ⟨trivial, by abel⟩
    · refine .bind (owns_getVnodeIoRef vn) fun backingVnode _ => ?_
      cases backingVnode with
      | some backing => exact .pure trivial (by abel)
      | none =>
        exact (owns_findBackingVnode hallow vn appData).conseq fun _ _ => ⟨trivial, by simp⟩

/-- To associate is to get the backing vnode and to put it. -/
theorem owns_qvrAssociateVnodeForRedirectedIo (vn : Vnode) (appData : ApplicationData)
    (forceUpdate : Bool) : Owns allow 0 (qvrAssociateVnodeForRedirectedIo vn appData forceUpdate)
      (fun _ => True) fun _ => 0 := by
  refine .bind (owns_qvrGetBackingVnodeForRedirectedIo hallow vn appData forceUpdate)
    fun vnodeIo _ => ?_
  exact (owns_putIfAny vnodeIo).conseq fun _ _ => ⟨trivial, by abel⟩

/-- A vnode to give to the caller is the shadow vnode, with an iocount of its own. -/
theorem owns_useShadowVnode (shadowVnode : Vnode) (appData : ApplicationData) :
    Owns allow 0 (useShadowVnode shadowVnode appData)
      (fun r => r = (0, some shadowVnode) ∨ r = ((ENFILE : Int), none)) (Held.iocount ·.2) := by
  refine .bind (owns_qvrAssociateVnodeForRedirectedIo hallow _ _ _) fun _ _ => ?_
  refine .bind (owns_getVnodeIoRef _) fun backingVnode _ => ?_
  cases backingVnode with
  | none => exact .pure (Or.inr rfl) (by simp)
  | some backing =>
    refine .bind (owns_neutral (.perform trivial) (.trivial _)) fun _ _ => ?_
    refine .bind (owns_vnodePut _) fun _ _ => ?_
    refine .bind (owns_vnodeGet _) fun _ _ => .pure (Or.inl rfl) ?_
    abel

omit hallow in
/-- The gate takes nothing. -/
theorem owns_isRecursiveCallOrUserClient :
    Owns allow 0 isRecursiveCallOrUserClient (fun _ => True) fun _ => 0 := by
  refine owns_neutral (.bind (.perform trivial) fun cookie => ?_) (.trivial _)
  cases cookie with
  | none => exact .perform trivial
  | some cookie => exact .pure

-- ---------------------------------------------------------------------------
-- Lookup
-- ---------------------------------------------------------------------------

/-- A lookup that is passed on holds what it gives. -/
theorem owns_lookupOriginal (dvp : Vnode) (cnp : Componentname) :
    Owns allow 0 (lookupOriginal dvp cnp) (Gives E) (Held.iocount ·.2) := by
  refine .bind (owns_neutral (.perform trivial) (.trivial _)) fun cookie _ => ?_
  split
  · exact (owns_vnopLookup hallow _ _).conseq fun _ h => ⟨h, by abel⟩
  · exact (owns_vnopLookup hallow _ _).conseq fun _ h => ⟨h, by abel⟩
  · refine .bind (owns_neutral (.perform trivial) (.trivial _)) fun cn_nameiop _ => ?_
    exact (owns_vnopLookup hallow _ _).conseq fun _ h => ⟨h, by abel⟩

/-- What `__exit` gives back or returns. -/
def LookupLocals.held (l : LookupLocals Vnode) : Held Vnode :=
  Held.iocount l.a_vpp + (Held.path l.redirectedFilePath + Held.path l.shadowPath +
    Held.path l.shadowName + Held.iocount l.shadowVnode + Held.iocount l.originalVnode)

omit hallow in
/-- The exit of lookup keeps the vnode for the caller, and nothing else. -/
theorem owns_lookupExit (cnp : Componentname) (l : LookupLocals Vnode) :
    Owns allow l.held (lookupExit cnp l) (· = (l.error, l.a_vpp)) (Held.iocount ·.2) := by
  have hrest : Owns allow l.held (do
      freePath l.redirectedFilePath
      freePath l.shadowPath
      freePath l.shadowName
      putIfAny l.shadowVnode
      putIfAny l.originalVnode
      Pure.pure (l.error, l.a_vpp)) (· = (l.error, l.a_vpp)) (Held.iocount ·.2) := by
    refine .bind (owns_freePath _) fun _ _ => .bind (owns_freePath _) fun _ _ => ?_
    refine .bind (owns_freePath _) fun _ _ => .bind (owns_putIfAny _) fun _ _ => ?_
    refine .bind (owns_putIfAny _) fun _ _ => .pure rfl ?_
    rw [LookupLocals.held]
    abel
  unfold lookupExit
  dsimp only
  split
  · refine .bind (owns_neutral (.perform trivial) (.trivial _)) fun _ _ => ?_
    exact hrest.conseq fun _ h => ⟨h, by abel⟩
  · exact hrest

omit hallow in
/-- The count for `vnode_close` is taken before it. -/
theorem owns_initShadowFile (originalVnode shadow : Vnode) :
    Owns allow (Held.usecount (some shadow)) (initShadowFile originalVnode shadow)
      (fun _ => True) fun _ => 0 := by
  refine .bind (owns_vnodeGet _) fun _ _ => .bind (owns_vnodeClose _) fun _ _ => ?_
  split
  · exact .pure trivial (by abel)
  · exact (owns_caching (calls_equalizeFileSizes _ _)).conseq fun _ _ => ⟨trivial, by abel⟩

omit hallow in
/-- A reverse entry has a reference of its own. -/
theorem owns_connectReverse (error : Int) (shadow originalVnode : Vnode) :
    Owns allow 0 (connectReverse error shadow originalVnode) (fun _ => True) fun _ => 0 := by
  unfold connectReverse
  split
  · exact owns_neutral (.perform trivial) (.trivial _)
  · exact .pure trivial rfl

/-- The shadow vnode is held, with the iocount that `vnode_close` does not drop. -/
theorem owns_openShadowFile (shadowPath : List UInt8) (originalVnode : Vnode) :
    Owns allow 0 (openShadowFile shadowPath originalVnode) (fun _ => True)
      (Held.iocount ·.2.1) := by
  refine .bind (owns_vnodeLookup hallow _ _) ?_
  rintro _ (⟨shadow, rfl⟩ | ⟨error, herror, -, rfl⟩)
  · refine .bind (owns_connectReverse _ _ _) fun _ _ => .pure trivial ?_
    abel
  · dsimp only
    split
    · simp_all
    · refine .bind (owns_vnodeOpen hallow _) ?_
      rintro _ (⟨shadow, rfl⟩ | ⟨error, herror, -, rfl⟩)
      · refine .bind (owns_initShadowFile _ _) fun error _ => ?_
        refine .bind (owns_connectReverse _ _ _) fun _ _ => .pure trivial ?_
        simp
      · dsimp only
        split
        · simp_all
        · exact .pure trivial (by simp)

/-- The application gets the shadow vnode with a reference of its own, or an error. -/
theorem owns_connectShadowFile (appData : ApplicationData) (cnp : Componentname)
    (shadowPath : List UInt8) (shadowVnode : Vnode) (daemon : Bool) :
    Owns allow 0 (connectShadowFile appData cnp shadowPath shadowVnode daemon)
      (fun r => r = (0, some shadowVnode) ∨ ∃ error, error ≠ 0 ∧ r = (error, none))
      (Held.iocount ·.2) := by
  refine .bind (owns_convertToRedirectedPath _ _) ?_
  rintro _ (rfl | ⟨path, rfl, -⟩)
  · exact .pure (Or.inr ⟨ENOMEM, by decide, rfl⟩) (by simp)
  · have hshadow : Owns allow (Held.path (some path)) (do
        freePath (some path)
        useShadowVnode shadowVnode appData)
        (fun r => r = (0, some shadowVnode) ∨ ∃ error, error ≠ 0 ∧ r = (error, none))
        (Held.iocount ·.2) := by
      refine .bind (owns_freePath _) fun _ _ => ?_
      refine (owns_useShadowVnode hallow _ _).conseq fun r hr => ⟨?_, by abel⟩
      exact hr.imp id fun hr => ⟨ENFILE, by decide, hr⟩
    dsimp only
    split
    · refine .bind (owns_neutral (.perform trivial) (.trivial _)) fun _ _ => ?_
      exact hshadow.conseq fun _ h => ⟨h, by abel⟩
    · exact hshadow.conseq fun _ h => ⟨h, by abel⟩

/-- The locals as they are for `__exit`, or for path redirection. -/
def LookupLocals.Ready (E : Int → Prop) (r : Bool × LookupLocals Vnode) : Prop :=
  if r.1 then Gives E (r.2.error, r.2.a_vpp) else r.2.a_vpp = none ∧ r.2.redirectedFilePath = none

variable (hE : ∀ error, error ≠ -1 → E error)
include hE

/-- The original vnode goes to the locals, with all that is found on the way. -/
theorem owns_lookupShadow (appData : ApplicationData) (cnp : Componentname) (original : Vnode) :
    Owns allow (Held.iocount (some original)) (lookupShadow appData cnp original)
      (LookupLocals.Ready E) (·.2.held) := by
  -- out of memory is one of the errors that may be given
  have hnomem : Gives E ((ENOMEM : Int), (none : Option Vnode)) :=
    Or.inr ⟨ENOMEM, by decide, hE _ (by decide), rfl⟩
  refine .bind (owns_vnodeGet _) fun _ _ => .bind (owns_vnodePut _) fun _ _ => ?_
  refine .bind (owns_convertToShadowCopyPath _) ?_
  rintro _ (rfl | ⟨shadowPath, rfl, -⟩)
  · exact .pure hnomem (by simp [LookupLocals.held])
  · refine .bind (owns_convertToShadowCopyPath _) ?_
    rintro _ (rfl | ⟨shadowName, rfl, -⟩)
    · exact .pure hnomem (by simp [LookupLocals.held]; abel)
    · refine .bind (owns_inRecursiveCall (owns_openShadowFile hallow _ _)) fun r _ => ?_
      obtain ⟨error, shadowVnode, daemon⟩ := r
      dsimp only
      split
      · next shadow daemon' heq =>
        cases heq
        refine .bind (owns_connectShadowFile hallow _ _ _ _ _) ?_
        rintro _ (rfl | ⟨error, herror, rfl⟩)
        · exact .pure (Or.inl ⟨_, rfl⟩) (by simp [LookupLocals.held]; abel)
        · dsimp only
          split
          · simp_all
          · exact .pure ⟨rfl, rfl⟩ (by simp [LookupLocals.held]; abel)
      · next heq =>
        cases heq
        exact .pure ⟨rfl, rfl⟩ (by simp [LookupLocals.held]; abel)

/-- What the lookup with `redirectIO` holds is in the locals, however it ends. -/
theorem owns_lookupRedirectIo (appData : ApplicationData) (dvp : Vnode) (cnp : Componentname) :
    Owns allow 0 (lookupRedirectIo appData dvp cnp) (LookupLocals.Ready E) (·.2.held) := by
  refine .bind (owns_inRecursiveCall (owns_vnopLookup hallow _ _)) ?_
  rintro _ (⟨original, rfl⟩ | ⟨error, herror, hE', rfl⟩)
  · have hdone : Owns allow (Held.iocount (some original))
        (Pure.pure (true, { error := 0, a_vpp := some original })) (LookupLocals.Ready E)
        (fun r => r.2.held) :=
      .pure (Or.inl ⟨_, rfl⟩) (by simp [LookupLocals.held])
    refine .bind (owns_neutral (.perform trivial) (.trivial _)) fun appDataVnode _ => ?_
    split
    · exact hdone.conseq fun _ h => ⟨h, by abel⟩
    · refine .bind (owns_neutral (.perform trivial) (.trivial _)) fun type _ => ?_
      split
      · exact hdone.conseq fun _ h => ⟨h, by abel⟩
      · refine .bind (owns_neutral (.perform trivial) (.trivial _)) fun isControlledFile _ => ?_
        split
        · exact (owns_lookupShadow hallow hE _ _ _).conseq fun _ h => ⟨h, by abel⟩
        · exact hdone.conseq fun _ h => ⟨h, by abel⟩
  · dsimp only
    split
    · simp_all
    · exact .pure (Or.inr ⟨_, herror, hE', rfl⟩) (by simp [LookupLocals.held])

omit hallow in
/-- The vnode of the first lookup is put when the second one replaces it. -/
theorem owns_mergeLookups (appData : ApplicationData) {l : LookupLocals Vnode}
    (hl : Gives E (l.error, l.a_vpp)) {r : Int × Option Vnode} (hr : Gives E r) :
    Owns allow (l.held + Held.iocount r.2) (mergeLookups appData l r)
      (fun l' => Gives E (l'.error, l'.a_vpp)) LookupLocals.held := by
  obtain ⟨vn, rfl⟩ | ⟨error, herror, hE', rfl⟩ := hr
  · refine .bind (owns_putIfAny _) fun _ _ => ?_
    refine .bind (owns_neutral (.perform trivial) (.trivial _)) fun _ _ => ?_
    refine .pure (Or.inl ⟨vn, rfl⟩) ?_
    simp only [LookupLocals.held]
    abel
  -- a failed lookup has given no vnode
  · have hnone : l.error ≠ 0 → l.a_vpp = none := by
      intro hne
      obtain ⟨vn, heq⟩ | ⟨_, -, -, heq⟩ := hl
      · exact absurd (congrArg Prod.fst heq) hne
      · exact congrArg Prod.snd heq
    unfold mergeLookups
    split
    · simp_all
    · simp_all
    · next _ heq =>
      cases heq
      split
      · exact .pure hl (by simp)
      · next hne =>
        split
        · refine .pure (Or.inr ⟨EJUSTRETURN, by decide, hE _ (by decide), ?_⟩) ?_
          · rw [hnone hne]
          · simp [LookupLocals.held]
        · refine .pure (Or.inr ⟨error, herror, hE', ?_⟩) ?_
          · rw [hnone hne]
          · simp [LookupLocals.held]

omit hallow hE in
/-- The type of a vnode is asked without a reference. -/
theorem owns_isRegularOrNone (r : Int × Option Vnode) :
    Owns allow 0 (isRegularOrNone r) (fun _ => True) fun _ => 0 := by
  unfold isRegularOrNone
  split
  · exact .bind (owns_neutral (.perform trivial) (.trivial _)) fun _ _ => .pure trivial (by abel)
  · exact .pure trivial rfl

/-- Path redirection starts from locals without a result and leaves one, or none. -/
theorem owns_lookupRedirectPath (appData : ApplicationData) (dvp : Vnode) (cnp : Componentname)
    {l : LookupLocals Vnode} (hvpp : l.a_vpp = none) (hpath : l.redirectedFilePath = none) :
    Owns allow l.held (lookupRedirectPath appData dvp cnp l)
      (fun l' => Gives E (l'.error, l'.a_vpp)) LookupLocals.held := by
  refine .bind (owns_convertToRedirectedPath _ _) ?_
  rintro _ (rfl | ⟨path, rfl, -⟩)
  · refine .pure (Or.inr ⟨ENOMEM, by decide, hE _ (by decide), ?_⟩) ?_
    · rw [hvpp]
    · simp [LookupLocals.held]
  · refine .bind (owns_neutral (.perform trivial) (.trivial _)) fun _ _ => ?_
    refine .bind (owns_inRecursiveCall (owns_vnopLookup hallow _ _)) fun r hr => ?_
    obtain ⟨error, a_vpp⟩ := r
    have hheld : l.held - 0 + Held.path (some path) - 0 + 0 - 0 + Held.iocount a_vpp =
        { l with redirectedFilePath := some path, error, a_vpp }.held := by
      simp [LookupLocals.held, hvpp, hpath]
      abel
    refine .bind (owns_isRegularOrNone _) fun isRegular _ => ?_
    dsimp only
    split
    · refine .bind (owns_inRecursiveCall (owns_vnodeLookup hallow _ _)) fun found hfound => ?_
      refine (owns_mergeLookups hE appData hr hfound).conseq fun l' hl' => ⟨hl', ?_⟩
      rw [← hheld]
      abel
    · refine .pure hr ?_
      rw [← hheld]
      abel

/-- A lookup that is redirected holds the vnode that it gives, whichever way it took. -/
theorem owns_lookupRedirected (createNew openExisting : ApplicationData) (dvp : Vnode)
    (cnp : Componentname) :
    Owns allow 0 (lookupRedirected createNew openExisting dvp cnp) (Gives E)
      (Held.iocount ·.2) := by
  have hexit : ∀ l : LookupLocals Vnode, Gives E (l.error, l.a_vpp) →
      Owns allow l.held (lookupExit cnp l) (Gives E) (Held.iocount ·.2) :=
    fun l hl => (owns_lookupExit cnp l).conseq fun r hr => ⟨hr ▸ hl, by abel⟩
  have hpath : ∀ l : LookupLocals Vnode, LookupLocals.Ready E (false, l) →
      Owns allow l.held (do
        let l ← lookupRedirectPath openExisting dvp cnp l
        lookupExit cnp l) (Gives E) (Held.iocount ·.2) := by
    intro l hl
    refine .bind (owns_lookupRedirectPath hallow hE _ _ _ hl.1 hl.2) fun l' hl' => ?_
    exact (hexit l' hl').conseq fun _ h => ⟨h, by abel⟩
  unfold lookupRedirected
  dsimp only
  split
  · refine .bind (owns_lookupRedirectIo hallow hE _ _ _) ?_
    rintro ⟨done, l⟩ hr
    cases done with
    | true => exact (hexit l hr).conseq fun _ h => ⟨h, by abel⟩
    | false => exact (hpath l hr).conseq fun _ h => ⟨h, by abel⟩
  · exact (hpath { error := -1, a_vpp := none } ⟨rfl, rfl⟩).conseq
      fun _ h => ⟨h, by simp [LookupLocals.held]⟩

/-- The lookup hook holds nothing but the vnode that it gives. -/
theorem owns_qvrVnopLookupHookEx2 (ctx : VfsContext) (dvp : Vnode) (cnp : Componentname) :
    Owns allow 0 (qvrVnopLookupHookEx2 ctx dvp cnp) (Gives E) (Held.iocount ·.2) := by
  unfold qvrVnopLookupHookEx2
  split
  · refine .bind owns_isRecursiveCallOrUserClient fun skip _ => ?_
    split
    · exact (owns_lookupOriginal hallow _ _).conseq fun _ h => ⟨h, by abel⟩
    · split
      · exact (owns_vnopLookup hallow _ _).conseq fun _ h => ⟨h, by abel⟩
      · exact (owns_lookupRedirected hallow hE _ _ _ _).conseq fun _ h => ⟨h, by abel⟩
  · exact owns_lookupOriginal hallow dvp cnp

-- ---------------------------------------------------------------------------
-- Create
-- ---------------------------------------------------------------------------

/-- The shadow vnode comes with a use count, which `vnode_close` drops. -/
theorem owns_createShadowFile (appData : ApplicationData) (cnp : Componentname)
    (shadowPath redirectedShadowPath : List UInt8) (originalVnode : Vnode) :
    Owns allow (Held.iocount (some originalVnode))
      (createShadowFile appData cnp shadowPath redirectedShadowPath originalVnode) (Gives E)
      (Held.iocount ·.2) := by
  refine .bind (owns_vnodeGet _) fun _ _ => .bind (owns_vnodePut _) fun _ _ => ?_
  refine .bind (owns_vnodeOpen hallow _) ?_
  rintro _ (⟨shadow, rfl⟩ | ⟨error, herror, hE', rfl⟩)
  · refine .bind (owns_neutral (.perform trivial) (.trivial _)) fun _ _ => ?_
    refine .bind (owns_useShadowVnode hallow _ _) fun r hr => ?_
    have hgives : Gives E r := by
      obtain rfl | rfl := hr
      · exact Or.inl ⟨_, rfl⟩
      · exact Or.inr ⟨ENFILE, by decide, hE _ (by decide), rfl⟩
    -- the file is closed and the original's reference put; what remains is what is given
    have hclose : Owns allow (Held.iocount (some shadow) + Held.usecount (some shadow) +
        Held.iocount (some originalVnode) + Held.iocount r.2) (do
          vnodeClose shadow
          vnodePut originalVnode
          Pure.pure r) (Gives E) (Held.iocount ·.2) := by
      refine .bind (owns_vnodeClose _) fun _ _ => .bind (owns_vnodePut _) fun _ _ => ?_
      exact .pure hgives (by abel)
    obtain ⟨error, a_vpp⟩ := r
    dsimp only
    split
    · refine .bind (owns_neutral (.perform trivial) (.trivial _)) fun _ _ => ?_
      exact hclose.conseq fun _ h => ⟨h, by abel⟩
    · exact hclose.conseq fun _ h => ⟨h, by abel⟩
  · dsimp only
    split
    · simp_all
    · refine .bind (owns_vnodePut _) fun _ _ => .pure (Or.inr ⟨_, herror, hE', rfl⟩) ?_
      simp

/-- The original vnode is put, or is the one that is given. -/
theorem owns_createOriginalAndShadow (appData : ApplicationData) (dvp : Vnode)
    (cnp : Componentname) (shadowPath redirectedShadowPath : List UInt8) :
    Owns allow 0 (createOriginalAndShadow appData dvp cnp shadowPath redirectedShadowPath)
      (Gives E) (Held.iocount ·.2) := by
  refine .bind (owns_vnopCreate hallow _ _) ?_
  rintro _ (⟨original, rfl⟩ | ⟨error, herror, hE', rfl⟩)
  · exact (owns_createShadowFile hallow hE _ _ _ _ _).conseq fun _ h => ⟨h, by abel⟩
  · dsimp only
    split
    · simp_all
    · exact .pure (Or.inr ⟨_, herror, hE', rfl⟩) (by abel)

/-- Both paths are freed after the files are created. -/
theorem owns_createRedirected (appData : ApplicationData) (dvp : Vnode) (cnp : Componentname) :
    Owns allow 0 (createRedirected appData dvp cnp) (Gives E) (Held.iocount ·.2) := by
  have hnomem : Gives E ((ENOMEM : Int), (none : Option Vnode)) :=
    Or.inr ⟨ENOMEM, by decide, hE _ (by decide), rfl⟩
  refine .bind (owns_convertToShadowCopyPath _) ?_
  rintro _ (rfl | ⟨shadowPath, rfl, -⟩)
  · exact .pure hnomem (by simp)
  · refine .bind (owns_convertToRedirectedPath _ _) ?_
    rintro _ (rfl | ⟨redirectedShadowPath, rfl, -⟩)
    · refine .bind (owns_freePath _) fun _ _ => .pure hnomem ?_
      simp
    · refine .bind (owns_inRecursiveCall (owns_createOriginalAndShadow hallow hE _ _ _ _ _))
        fun r hr => ?_
      have hfree : Owns allow (Held.path (some shadowPath) +
          Held.path (some redirectedShadowPath) + Held.iocount r.2) (do
            freePath (some shadowPath)
            freePath (some redirectedShadowPath)
            Pure.pure r) (Gives E) (Held.iocount ·.2) := by
        refine .bind (owns_freePath _) fun _ _ => .bind (owns_freePath _) fun _ _ => ?_
        exact .pure hr (by abel)
      obtain ⟨error, a_vpp⟩ := r
      dsimp only
      split
      · refine .bind (owns_neutral (.perform trivial) (.trivial _)) fun _ _ => ?_
        exact hfree.conseq fun _ h => ⟨h, by abel⟩
      · exact hfree.conseq fun _ h => ⟨h, by abel⟩

/-- The create hook holds nothing but the vnode that it gives. -/
theorem owns_qvrVnopCreateHookEx2 (ctx : VfsContext) (dvp : Vnode) (cnp : Componentname) :
    Owns allow 0 (qvrVnopCreateHookEx2 ctx dvp cnp) (Gives E) (Held.iocount ·.2) := by
  unfold qvrVnopCreateHookEx2
  split
  · exact owns_vnopCreate hallow dvp cnp
  · refine .bind owns_isRecursiveCallOrUserClient fun skip _ => ?_
    split
    · exact (owns_vnopCreate hallow _ _).conseq fun _ h => ⟨h, by abel⟩
    · refine .bind (owns_neutral (.perform trivial) (.trivial _)) fun isControlledFile _ => ?_
      split
      · exact (owns_createRedirected hallow hE _ _ _).conseq fun _ h => ⟨h, by abel⟩
      · exact (owns_vnopCreate hallow _ _).conseq fun _ h => ⟨h, by abel⟩

end Calls

-- ---------------------------------------------------------------------------
-- Main result
-- ---------------------------------------------------------------------------

/-- Whatever its calls return, lookup, or create, returns 0 exactly with a vnode, and
never the placeholder -1; the caller has one new iocount on the vnode, and nothing else
is kept or lost. -/
theorem lookup_create_owned (ctx : VfsContext) (dvp : Vnode) (cnp : Componentname)
    {s s' : Ledger Vnode} {r : Int × Option Vnode}
    (hrun :
      Prog.Runs Ledger.effect (Documented (· ≠ -1)) (qvrVnopLookupHookEx2 ctx dvp cnp) s r s' ∨
      Prog.Runs Ledger.effect (Documented (· ≠ -1)) (qvrVnopCreateHookEx2 ctx dvp cnp) s r s') :
    (r.1 = 0 ↔ r.2 ≠ none) ∧ r.1 ≠ -1 ∧ s.Settled s' r.2 := by
  have howned : Gives (· ≠ -1) r ∧ s.Settled s' r.2 := by
    obtain hrun | hrun := hrun
    · exact (owns_qvrVnopLookupHookEx2 (fun _ _ h => h) (fun _ h => h) ctx dvp cnp).settled hrun
    · exact (owns_qvrVnopCreateHookEx2 (fun _ _ h => h) (fun _ h => h) ctx dvp cnp).settled hrun
  obtain ⟨⟨vn, rfl⟩ | ⟨error, herror, hE, rfl⟩, hsettled⟩ := howned
  · exact ⟨by simp, by simp, hsettled⟩
  · exact ⟨by simpa using herror, hE, hsettled⟩

/-- An application creates `/d/a`: it gets the shadow vnode, with a backing vnode. -/
theorem lookup_create_owned_create :
    let cnp : Componentname := ⟨[47, 100, 47, 97], 4, [97], 1, .CREATE, true, 0⟩
    let run := Prog.exec Ledger.effect (fun _ _ => ⟨Ledger.success [47, 100], true⟩)
      (qvrVnopCreateHookEx2 ⟨some [47, 114]⟩ 2 cnp) 0 Ledger.empty
    run.2 = (0, some 4) ∧ run.1.iocount 4 = 1 ∧ run.1.iocount 5 = 1 ∧ run.1.usecount 4 = 0 ∧
      (run.2.1 = 0 ↔ run.2.2 ≠ none) ∧ run.2.1 ≠ -1 ∧ Ledger.empty.Settled run.1 run.2.2 := by
  intro cnp run
  have hresult : run.2 = (0, some 4) ∧ run.1.iocount 4 = 1 ∧ run.1.iocount 5 = 1 ∧
      run.1.usecount 4 = 0 := by decide +kernel
  obtain ⟨hresult, hshadow, hbacking, huse⟩ := hresult
  have hdocumented : ∀ (_ : Nat) (o : KernelOp Nat),
      Documented (· ≠ -1) o ⟨Ledger.success [47, 100], true⟩ :=
    fun _ o => Ledger.documented_success (by decide) _ o
  exact ⟨hresult, hshadow, hbacking, huse, lookup_create_owned ⟨some [47, 114]⟩ 2 cnp
    (Or.inr (Prog.runs_exec hdocumented _ 0 Ledger.empty))⟩

end VfsRedirector
