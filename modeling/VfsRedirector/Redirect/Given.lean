import VfsRedirector.Library.Log
import VfsRedirector.Redirect.Ledger

/-!
# What a controlled application is given

The lookup hook decides in several places which vnode the application gets: the
shadow vnode, the one at the redirected path, or the original one after all.
`Logged` is the ledger with the log of the calls of the hook, so that these vnodes
can be told apart by where they came from. Each part of the hook has a triple
about the vnode that it returns and its entries in `VNodeMap`.

## Results

* `says_lookupShadow` — what the lookup of the shadow file gives.
* `says_lookupRedirectPath` — what the lookup of the redirected path gives.
* `lookup_gives` — which vnode a redirected lookup gives to the application.
-/

namespace VfsRedirector

open Library Prog Kernel

variable {Vnode : Type}

-- ---------------------------------------------------------------------------
-- Where a vnode comes from
-- ---------------------------------------------------------------------------

abbrev Logged (Vnode : Type) : Type := Ledger Vnode × Log (@KernelOp.Res Vnode)

/-- `vnode_lookup` of a path gave the vnode. -/
def FoundAt (log : Log (@KernelOp.Res Vnode)) (path : List UInt8) (vn : Vnode) : Prop :=
  ⟨.vnodeLookup path .superUser, (0, some vn)⟩ ∈ log

/-- `vnode_lookup` of a path failed. -/
def NotFoundAt (log : Log (@KernelOp.Res Vnode)) (path : List UInt8) : Prop :=
  ∃ error : Int, error ≠ 0 ∧ ⟨.vnodeLookup path .superUser, (error, none)⟩ ∈ log

/-- The shadow file was found, or created. -/
def IsShadowVnode (log : Log (@KernelOp.Res Vnode)) (shadowPath : List UInt8) (vn : Vnode) : Prop :=
  FoundAt log shadowPath vn ∨ ⟨.vnodeOpen shadowPath, (0, some vn)⟩ ∈ log

def originalLookup : (Σ o : KernelOp Vnode, o.Res) → Option (Int × Option Vnode)
  | ⟨.vnopLookup _ _, r⟩ => some r
  | _ => none

/-- What the original lookup returned, each time it was called. -/
def originalLookups (log : Log (@KernelOp.Res Vnode)) : List (Int × Option Vnode) :=
  log.filterMap originalLookup

/-- The I/O on the vnode goes to a backing vnode. -/
structure RedirectsIo [DecidableEq Vnode] (s : Ledger Vnode) (appData : ApplicationData)
    (vn : Vnode) : Prop where
  appData : s.map.getVnodeAppData vn = some appData
  backing : ∃ backing, s.map.getVnodeIo vn = some backing

variable [DecidableEq Vnode]

/-- The calls in the lookup of an application: it is not recursive and not of the daemon,
`VNodeMap` gets its memory, vnodes keep their types, and the file is controlled. -/
def ByApplication (type : Vnode → Vtype) (o : KernelOp Vnode) (c : Outcome Vnode) : Prop :=
  Documented (fun _ => True) o c ∧ c.alloc = true ∧
    match o with
    | .vnodeVtype vp => c.result (.vnodeVtype vp) = type vp
    | .filter op path => c.result (.filter op path) = true
    | .cookieForRecursiveCall => c.result .cookieForRecursiveCall = none
    | .isUserClient => c.result .isUserClient = false
    | _ => True

/-- A program in the lookup of an application. -/
abbrev Says (type : Vnode → Vtype) {α : Type} (pre : Logged Vnode → Prop) (p : Kernel Vnode α)
    (post : α → Logged Vnode → Prop) : Prop :=
  Triple (logged Ledger.effect) (ByApplication type) pre p post

variable {type : Vnode → Vtype} {α : Type} {pre : Logged Vnode → Prop} {p : Kernel Vnode α}

-- ---------------------------------------------------------------------------
-- Calls that keep the entries
-- ---------------------------------------------------------------------------

/-- A plain call adds neither application data nor a backing vnode. -/
theorem Ledger.entries_plain (s : Ledger Vnode) {o : KernelOp Vnode} (c : Outcome Vnode)
    (h : o.Plain) :
    (Ledger.effect s o c).1.map.getVnodeAppData = s.map.getVnodeAppData ∧
      (Ledger.effect s o c).1.map.getVnodeIo = s.map.getVnodeIo := by
  cases o with
  | ioMalloc size =>
    rw [Ledger.effect]
    split <;> exact ⟨rfl, rfl⟩
  | addVnodeShadowReverse vnodeShadow vn =>
    exact ⟨funext fun _ => VNodeMap.getVnodeAppData_addVnodeShadowReverse,
      funext fun _ => VNodeMap.getVnodeIO_addVnodeShadowReverse⟩
  | removeShadowReverse vnodeShadow =>
    exact ⟨funext fun _ => VNodeMap.getVnodeAppData_removeShadowReverse,
      funext fun _ => VNodeMap.getVnodeIO_removeShadowReverse⟩
  | vnodeOpen | vnopLookup | vnopCreate | vnopClose | vnopInactive | vnopExchange | vnopRename
  | vnopGetattr | vnopRead | vnopWrite | vnopPagein | vnopPageout | callDaemon | enterRecursiveCall
  | leaveRecursiveCall | addVnodeAppData | addVnodeIo | removeVnodeIo => exact h.elim
  | _ => exact ⟨rfl, rfl⟩

/-- What is said about the entries stays true. -/
theorem says_entries {Q : (Vnode → Option ApplicationData) → (Vnode → Option Vnode) → Prop}
    (hp : p.Calls KernelOp.Plain) :
    Says type (fun s => Q s.1.map.getVnodeAppData s.1.map.getVnodeIo) p
      fun _ s => Q s.1.map.getVnodeAppData s.1.map.getVnodeIo := by
  refine hp.triple fun s o c ho hs => ?_
  obtain ⟨happ, hio⟩ := s.1.entries_plain c ho
  show Q (Ledger.effect s.1 o c).1.map.getVnodeAppData (Ledger.effect s.1 o c).1.map.getVnodeIo
  rw [happ, hio]
  exact hs

/-- A vnode whose I/O is redirected stays so in plain code. -/
theorem says_redirectsIo {appData : ApplicationData} {vn : Vnode} (hp : p.Calls KernelOp.Plain) :
    Says type (fun s => RedirectsIo s.1 appData vn) p fun _ s => RedirectsIo s.1 appData vn := by
  intro s a s' hs hrun
  obtain ⟨happ, hio⟩ := says_entries (Q := fun app io => app vn = some appData ∧
    ∃ backing, io vn = some backing) hp s a s' ⟨hs.appData, hs.backing⟩ hrun
  exact ⟨happ, hio⟩

/-- No further original lookup. -/
theorem says_originalLookups {L : List (Int × Option Vnode)} (hp : p.Calls KernelOp.NoVnop) :
    Says type (fun s => originalLookups s.2 = L) p fun _ s => originalLookups s.2 = L := by
  refine triple_filterMap_log (hp.mono fun o ho r => ?_)
  cases o <;> first | rfl | exact ho.elim

-- ---------------------------------------------------------------------------
-- The shadow vnode
-- ---------------------------------------------------------------------------

/-- A shadow vnode that is given has its data and its backing vnode. -/
theorem says_useShadowVnode (shadowVnode : Vnode) (appData : ApplicationData) :
    Says type (fun _ => True) (useShadowVnode shadowVnode appData) fun r s =>
      r.1 = 0 → r.2 = some shadowVnode ∧ RedirectsIo s.1 appData shadowVnode := by
  have hassociate : Says type (fun _ => True)
      (qvrAssociateVnodeForRedirectedIo shadowVnode appData false) fun _ _ => True :=
    fun _ _ _ _ _ => trivial
  have hbacking : Says type (fun _ => True) (getVnodeIoRef shadowVnode) fun r s =>
      s.1.map.getVnodeIo shadowVnode = r := .perform fun _ _ _ _ => rfl
  refine .bind hassociate fun _ => .bind hbacking fun backingVnode => ?_
  split
  · next backing =>
    have hadd : Says type (fun s => s.1.map.getVnodeIo shadowVnode = some backing)
        (addVnodeAppData shadowVnode appData) fun _ s => RedirectsIo s.1 appData shadowVnode := by
      refine .perform fun s c hc hs => ⟨?_, backing, hs⟩
      show (s.1.map.addVnodeAppData shadowVnode appData c.alloc).getVnodeAppData shadowVnode = _
      rw [hc.2.1]
      simp [VNodeMap.addVnodeAppData, VNodeMap.getVnodeAppData]
    refine .bind hadd fun _ => .bind (says_redirectsIo (.perform trivial)) fun _ => ?_
    exact .bind (says_redirectsIo (.perform trivial)) fun _ => .pure fun s hs _ => ⟨rfl, hs⟩
  · exact .pure fun _ _ h => absurd h (show ENFILE ≠ 0 by decide)

/-- The shadow vnode of a connected file has its data and its backing vnode. -/
theorem says_connectShadowFile (appData : ApplicationData) (cnp : Componentname)
    (shadowPath : List UInt8) (shadowVnode : Vnode) (daemon : Bool) :
    Says type (fun _ => True) (connectShadowFile appData cnp shadowPath shadowVnode daemon)
      fun r s => r.1 = 0 → r.2 = some shadowVnode ∧ RedirectsIo s.1 appData shadowVnode := by
  have hconvert : Says type (fun _ => True) (convertToRedirectedPath shadowPath appData.redirectTo)
      fun r _ => ConvertsTo (redirected appData.redirectTo shadowPath) r :=
    (returns_convertToRedirectedPath _ _).triple
  have huse : ∀ path, Says type (fun _ => True) (do
      freePath path
      useShadowVnode shadowVnode appData) fun r s =>
        r.1 = 0 → r.2 = some shadowVnode ∧ RedirectsIo s.1 appData shadowVnode :=
    fun path => .bind (fun _ _ _ _ _ => trivial) fun _ => says_useShadowVnode shadowVnode appData
  refine .bind hconvert fun r => ?_
  rintro s a s' (rfl | ⟨path, rfl, -⟩) hrun
  · obtain ⟨rfl, rfl⟩ := runs_pure.mp hrun
    exact fun h => absurd h (show (ENOMEM : Int) ≠ 0 by decide)
  · dsimp only at hrun
    split at hrun
    · obtain ⟨_, t, -, hrun⟩ := runs_bind.mp hrun
      exact huse _ t a s' trivial hrun
    · exact huse _ s a s' trivial hrun

omit [DecidableEq Vnode] in
/-- Whatever is called next, the shadow vnode stays in the log. -/
theorem triple_isShadowVnode {σ χ : Type} {env : Env (@KernelOp.Res Vnode) σ χ}
    {allow : KernelOp Vnode → χ → Prop} {shadowPath : List UInt8} {vn : Vnode}
    (p : Kernel Vnode α) :
    Triple (logged env) allow (fun s => IsShadowVnode s.2 shadowPath vn) p
      fun _ s => IsShadowVnode s.2 shadowPath vn :=
  fun s a s' hs hrun => hs.imp (fun h => triple_mem_log p _ s a s' h hrun)
    fun h => triple_mem_log p _ s a s' h hrun

/-- What is known of where the shadow vnode came from does not change. -/
theorem says_isShadowVnode {shadowPath : List UInt8} {vn : Vnode} (p : Kernel Vnode α) :
    Says type (fun s => IsShadowVnode s.2 shadowPath vn) p
      fun _ s => IsShadowVnode s.2 shadowPath vn :=
  triple_isShadowVnode p

/-- What is known before, and after, a region does not depend on the mark. -/
theorem says_inRecursiveCall {cookie : Cookie} {post : α → Logged Vnode → Prop}
    (henter : Says type pre (enterRecursiveCall cookie) fun _ => pre) (hp : Says type pre p post)
    (hleave : ∀ a, Says type (post a) leaveRecursiveCall fun _ => post a) :
    Says type pre (inRecursiveCall cookie p) post :=
  .bind henter fun _ => .bind hp fun a => .bind (hleave a) fun _ => .pure fun _ hs => hs

/-- A shadow vnode comes from the lookup of the shadow path or from its opening. -/
theorem says_openShadowFile (shadowPath : List UInt8) (originalVnode : Vnode) :
    Says type (fun _ => True) (openShadowFile shadowPath originalVnode) fun r s =>
      ∀ shadow, r.2.1 = some shadow → IsShadowVnode s.2 shadowPath shadow := by
  have hfound : ∀ (q : Kernel Vnode (Int × Option Vnode × Bool)) (shadow : Vnode),
      q.Returns (fun r => r.2.1 = some shadow) →
      Says type (fun s => IsShadowVnode s.2 shadowPath shadow) q fun r s =>
        ∀ shadow, r.2.1 = some shadow → IsShadowVnode s.2 shadowPath shadow := by
    intro q shadow hq s r s' hs hrun vn hvn
    rw [hq.of_runs hrun] at hvn
    obtain rfl := Option.some.inj hvn
    exact says_isShadowVnode q s r s' hs hrun
  refine .bind (triple_perform_log _) fun r => ?_
  obtain ⟨error, found⟩ := r
  dsimp only
  split
  · next shadow =>
    refine Triple.strengthen (hfound _ shadow ?_) fun s hs => Or.inl hs
    exact .bind (.trivial _) fun _ _ => .pure rfl
  · refine .bind (triple_perform_log _) fun r => ?_
    obtain ⟨error, opened⟩ := r
    dsimp only
    split
    · next shadow =>
      refine Triple.strengthen (hfound _ shadow ?_) fun s hs => Or.inr hs
      exact .bind (.trivial _) fun _ _ => .bind (.trivial _) fun _ _ => .pure rfl
    · exact .pure fun _ _ _ h => (Option.some_ne_none _ h.symm).elim

/-- The locals of a lookup that is done with the shadow vnode. -/
def GivesShadow (appData : ApplicationData) (shadowPath : List UInt8)
    (r : Bool × LookupLocals Vnode) (s : Logged Vnode) : Prop :=
  r.1 = true → r.2.error = 0 → ∃ shadow, r.2.a_vpp = some shadow ∧
    IsShadowVnode s.2 shadowPath shadow ∧ RedirectsIo s.1 appData shadow

/-- A lookup of the shadow file gives its vnode with data, or nothing. -/
theorem says_lookupShadow (appData : ApplicationData) (cnp : Componentname) (original : Vnode) :
    Says type (fun _ => True) (lookupShadow appData cnp original)
      (GivesShadow appData (shadowCopy cnp.cn_pnbuf)) := by
  -- without memory nothing is given
  have hnomem : ∀ {l : LookupLocals Vnode} {s : Logged Vnode}, l.error = (ENOMEM : Int) →
      GivesShadow appData (shadowCopy cnp.cn_pnbuf) (true, l) s :=
    fun hl _ h => absurd (hl.symm.trans h) (by decide)
  -- the path and the name become the shadow file's
  have hconvert : ∀ path, Says type (fun _ => True) (convertToShadowCopyPath path)
      fun r _ => ConvertsTo (shadowCopy path) r :=
    fun path => (returns_convertToShadowCopyPath path).triple
  refine .bind (fun _ _ _ _ _ => trivial) fun _ => ?_
  refine .bind (fun _ _ _ _ _ => trivial) fun _ => .bind (hconvert _) fun r => ?_
  rintro s a s' (rfl | ⟨shadowPath, rfl, hstring, -⟩) hrun
  · obtain ⟨rfl, rfl⟩ := runs_pure.mp hrun
    exact hnomem rfl
  · obtain ⟨r, t, hname, hrun⟩ := runs_bind.mp hrun
    obtain rfl | ⟨shadowName, rfl, -⟩ := hconvert _ s r t trivial hname
    · obtain ⟨rfl, rfl⟩ := runs_pure.mp hrun
      exact hnomem rfl
    -- what is opened at the shadow path is the shadow vnode
    · have hopen : Says type (fun _ => True)
          (inRecursiveCall .currentThread (openShadowFile shadowPath.string original)) fun r s =>
            ∀ shadow, r.2.1 = some shadow → IsShadowVnode s.2 shadowPath.string shadow := by
        refine says_inRecursiveCall (fun _ _ _ _ _ => trivial) (says_openShadowFile _ _) ?_
        intro r s r' s' hs hrun shadow hshadow
        exact says_isShadowVnode _ s r' s' (hs shadow hshadow) hrun
      obtain ⟨⟨error, shadowVnode, daemon⟩, t', hrun', hrun⟩ := runs_bind.mp hrun
      have hshadow := hopen t _ t' trivial hrun'
      split at hrun
      -- the shadow vnode is given once it is connected to its backing vnode
      · next shadow daemon' heq =>
        cases heq
        obtain ⟨⟨error, a_vpp⟩, t'', hconnect, hrun⟩ := runs_bind.mp hrun
        split at hrun
        · next a_vpp' heq =>
          cases heq
          obtain ⟨rfl, rfl⟩ := runs_pure.mp hrun
          intro _ _
          obtain ⟨hvpp, hredirects⟩ :=
            says_connectShadowFile appData cnp _ _ _ t' _ _ trivial hconnect rfl
          refine ⟨shadow, hvpp, ?_, hredirects⟩
          rw [← hstring]
          exact says_isShadowVnode _ t' _ _ (hshadow shadow rfl) hconnect
        · obtain ⟨rfl, rfl⟩ := runs_pure.mp hrun
          exact fun h => absurd h Bool.false_ne_true
      · obtain ⟨rfl, rfl⟩ := runs_pure.mp hrun
        exact fun h => absurd h Bool.false_ne_true

-- ---------------------------------------------------------------------------
-- The original lookups
-- ---------------------------------------------------------------------------

/-- The result of an original lookup is the next one in the log. -/
theorem says_originalLookup {L : List (Int × Option Vnode)}
    {Q : VNodeMap Vnode ApplicationData → Prop} (dvp : Vnode) (cnp : Componentname) :
    Says type (fun s => originalLookups s.2 = L ∧ Q s.1.map)
      (inRecursiveCall .currentThread (vnopLookup dvp cnp)) fun r s =>
        originalLookups s.2 = L ++ [r] ∧ Q s.1.map := by
  have hregion : ∀ {L : List (Int × Option Vnode)} {o : KernelOp Vnode},
      (∀ r, originalLookup ⟨o, r⟩ = none) → (∀ s c, (Ledger.effect s o c).1.map = s.map) →
      Says type (fun s => originalLookups s.2 = L ∧ Q s.1.map) (.perform o) fun _ s =>
        originalLookups s.2 = L ∧ Q s.1.map := by
    intro L o hnone hmap
    refine .perform fun s c _ hs => ⟨?_, ?_⟩
    · show List.filterMap originalLookup (s.2 ++ [⟨o, (Ledger.effect s.1 o c).2⟩]) = L
      rw [List.filterMap_append, List.filterMap_cons_none (hnone _), List.filterMap_nil,
        List.append_nil]
      exact hs.1
    · show Q (Ledger.effect s.1 o c).1.map
      rw [hmap]
      exact hs.2
  refine says_inRecursiveCall (hregion (fun _ => rfl) fun _ _ => rfl) ?_
    fun r => hregion (fun _ => rfl) fun _ _ => rfl
  refine .perform fun s c _ hs => ⟨?_, hs.2⟩
  show List.filterMap originalLookup (s.2 ++ [⟨.vnopLookup dvp cnp, _⟩]) = _
  rw [List.filterMap_append]
  exact congrArg (· ++ _) hs.1

/-- The original file is not associated with `redirectIO` data. -/
def NotRedirected (original : Vnode) (m : VNodeMap Vnode ApplicationData) : Prop :=
  ∀ data, m.getVnodeAppData original = some data → data.redirectIo = false

/-- If the first lookup finds a regular file that is not associated, there is a shadow
vnode or path redirection goes on. -/
theorem says_lookupRedirectIo {original : Vnode} (htype : type original = .vreg)
    (appData : ApplicationData) (dvp : Vnode) (cnp : Componentname) :
    Says type (fun s => originalLookups s.2 = [] ∧ NotRedirected original s.1.map)
      (lookupRedirectIo appData dvp cnp) fun a s => ∃ r, originalLookups s.2 = [r] ∧
        (r = (0, some original) → GivesShadow appData (shadowCopy cnp.cn_pnbuf) a s) := by
  refine .bind (says_originalLookup dvp cnp) fun r => ?_
  intro s a s' hs hrun
  refine ⟨r, says_originalLookups ?_ s a s' hs.1 hrun, ?_⟩
  -- there is one original lookup; what follows makes no other
  · dsimp only
    split
    · refine .bind (.perform trivial) fun appDataVnode => ?_
      split
      · exact .pure
      · refine .bind (.perform trivial) fun type => ?_
        split
        · exact .pure
        · refine .bind (.perform trivial) fun isControlledFile => ?_
          split
          · exact noVnop_lookupShadow _ _ _
          · exact .pure
    · exact .pure
  -- a regular vnode, not yet redirected, that the filter says is controlled
  · rintro rfl
    obtain ⟨appDataVnode, t, happ, hrun⟩ := runs_bind.mp hrun
    obtain ⟨c, hc, rfl, rfl⟩ := runs_perform.mp happ
    have hdata : (s.1.map.getVnodeAppData original).any (·.redirectIo) = false := by
      cases hget : s.1.map.getVnodeAppData original with
      | none => rfl
      | some data => exact hs.2 data hget
    change Runs _ _ (if (s.1.map.getVnodeAppData original).any (·.redirectIo) = true then _
      else _) _ _ _ at hrun
    rw [hdata, if_neg Bool.false_ne_true] at hrun
    obtain ⟨vtype, t, hvtype, hrun⟩ := runs_bind.mp hrun
    obtain ⟨c, hc, rfl, rfl⟩ := runs_perform.mp hvtype
    have hreg : c.result (.vnodeVtype original) = .vreg := hc.2.2.trans htype
    change Runs _ _ (if c.result (.vnodeVtype original) ≠ .vreg then _ else _) _ _ _ at hrun
    rw [hreg, if_neg (not_not.mpr rfl)] at hrun
    obtain ⟨isControlledFile, t, hfilter, hrun⟩ := runs_bind.mp hrun
    obtain ⟨c, hc, rfl, rfl⟩ := runs_perform.mp hfilter
    have hcontrolled : c.result (.filter .lookup cnp.cn_pnbuf) = true := hc.2.2
    change Runs _ _ (if c.result (.filter .lookup cnp.cn_pnbuf) = true then _ else _) _ _ _ at hrun
    rw [hcontrolled, if_pos rfl] at hrun
    exact says_lookupShadow appData cnp original _ a s' trivial hrun

-- ---------------------------------------------------------------------------
-- Path redirection
-- ---------------------------------------------------------------------------

/-- The locals of a lookup by path redirection, `L` being the original lookups before
it: a regular file comes from the redirected path, or else from a second original
lookup. -/
def GivesByPath (type : Vnode → Vtype) (appData : ApplicationData) (path : List UInt8)
    (L : List (Int × Option Vnode)) (l : LookupLocals Vnode) (s : Logged Vnode) : Prop :=
  l.error = 0 → ∀ vn, l.a_vpp = some vn → type vn = .vreg →
    (FoundAt s.2 path vn ∧ s.1.map.getVnodeAppData vn = some appData) ∨
      (NotFoundAt s.2 path ∧ originalLookups s.2 = L ++ [(0, some vn)])

/-- Plain code leaves what path redirection has found. -/
theorem says_givesByPath {appData : ApplicationData} {path : List UInt8}
    {L : List (Int × Option Vnode)} {l : LookupLocals Vnode} (hp : p.Calls KernelOp.Plain) :
    Says type (GivesByPath type appData path L l) p fun _ => GivesByPath type appData path L l := by
  intro s a s' hs hrun herror vn hvn htype
  obtain ⟨hfound, happ⟩ | ⟨⟨error, hne, hnot⟩, horiginal⟩ := hs herror vn hvn htype
  · refine Or.inl ⟨triple_mem_log p _ s a s' hfound hrun, ?_⟩
    exact says_entries (Q := fun app _ => app vn = some appData) hp s a s' happ hrun
  · refine Or.inr ⟨⟨error, hne, triple_mem_log p _ s a s' hnot hrun⟩, ?_⟩
    exact says_originalLookups (noVnop_plain hp) s a s' horiginal hrun

/-- The vnode of the second lookup is given only if there is none at the redirected path. -/
theorem says_mergeLookups (appData : ApplicationData) {path : List UInt8}
    {L : List (Int × Option Vnode)} {l : LookupLocals Vnode} {found : Int × Option Vnode}
    (hfound : Gives (fun _ => True) found) :
    Says type (fun s => ⟨.vnodeLookup path .superUser, found⟩ ∈ s.2 ∧
        originalLookups s.2 = L ++ [(l.error, l.a_vpp)])
      (mergeLookups appData l found) (GivesByPath type appData path L) := by
  obtain ⟨vn, rfl⟩ | ⟨error, herror, -, rfl⟩ := hfound
  -- found in the storage: that vnode is given, with its data
  · intro s l' s' hs hrun
    obtain ⟨_, t, hput, hrun⟩ := runs_bind.mp hrun
    obtain ⟨_, t', hadd, hrun⟩ := runs_bind.mp hrun
    obtain ⟨rfl, rfl⟩ := runs_pure.mp hrun
    intro _ vn' hvn' _
    obtain rfl := Option.some.inj hvn'
    have hmem := triple_mem_log _ _ s _ t hs.1 hput
    refine Or.inl ⟨triple_mem_log _ _ t _ _ hmem hadd, ?_⟩
    obtain ⟨c, hc, -, rfl⟩ := runs_perform.mp hadd
    show (t.1.map.addVnodeAppData vn appData c.alloc).getVnodeAppData vn = some appData
    rw [hc.2.1]
    simp [VNodeMap.addVnodeAppData, VNodeMap.getVnodeAppData]
  -- not found there: the original's answer, which is no vnode unless the lookup succeeded
  · have hnone : ∀ {l' : LookupLocals Vnode}, l'.error ≠ 0 → ∀ s : Logged Vnode,
        GivesByPath type appData path L l' s := fun hne _ h => absurd h hne
    rw [mergeLookups.eq_def]
    split
    · simp_all
    · simp_all
    · next heq =>
      cases heq
      split
      · next hl =>
        refine .pure fun s hs _ vn hvn _ => Or.inr ⟨⟨error, herror, hs.1⟩, ?_⟩
        rw [hs.2, hl, hvn]
      · split
        · exact .pure fun s _ => hnone (show EJUSTRETURN ≠ 0 by decide) s
        · exact .pure fun s _ => hnone herror s

/-- A vnode that is a regular file is found to be one. -/
theorem says_isRegularOrNone (r : Int × Option Vnode) :
    Says type (fun _ => True) (isRegularOrNone r) fun isRegular _ =>
      ∀ vn, r = (0, some vn) → type vn = .vreg → isRegular = true := by
  rw [isRegularOrNone.eq_def]
  split
  · next vp =>
    intro s isRegular s' _ hrun vn hr htype
    obtain rfl : vp = vn := Option.some.inj (congrArg Prod.snd hr)
    obtain ⟨vtype, t, hvtype, hrun⟩ := runs_bind.mp hrun
    obtain ⟨rfl, -⟩ := runs_pure.mp hrun
    obtain ⟨c, hc, rfl, -⟩ := runs_perform.mp hvtype
    exact decide_eq_true (hc.2.2.trans htype)
  · exact .pure fun _ _ _ _ _ => rfl

/-- Path redirection gives the vnode at the redirected path, with data, or what the original lookup
gave. -/
theorem says_lookupRedirectPath (appData : ApplicationData) (dvp : Vnode) (cnp : Componentname)
    (l : LookupLocals Vnode) {L : List (Int × Option Vnode)} :
    Says type (fun s => originalLookups s.2 = L) (lookupRedirectPath appData dvp cnp l)
      (GivesByPath type appData (redirected appData.redirectTo cnp.cn_pnbuf) L) := by
  intro s l' s' hs hrun
  obtain ⟨converted, t, hconvert, hrun⟩ := runs_bind.mp hrun
  have hs :=
    says_originalLookups (noVnop_light (light_convertToRedirectedPath _ _)) s _ t hs hconvert
  obtain rfl | ⟨path, rfl, hpath, -⟩ := (returns_convertToRedirectedPath _ _).of_runs hconvert
  · obtain ⟨rfl, rfl⟩ := runs_pure.mp hrun
    exact fun h => absurd h (show (ENOMEM : Int) ≠ 0 by decide)
  · obtain ⟨_, t₁, hdaemon, hrun⟩ := runs_bind.mp hrun
    have hs := says_originalLookups (by exact .perform trivial) t _ t₁ hs hdaemon
    obtain ⟨⟨error, a_vpp⟩, t₂, hlookup, hrun⟩ := runs_bind.mp hrun
    have hs := (says_originalLookup (Q := fun _ => True) _ _ t₁ _ t₂ ⟨hs, trivial⟩ hlookup).1
    obtain ⟨isRegular, t₃, htype, hrun⟩ := runs_bind.mp hrun
    have hs := says_originalLookups (noVnop_plain (plain_isRegularOrNone _)) t₂ _ t₃ hs htype
    have hregular := says_isRegularOrNone _ t₂ _ t₃ trivial htype
    dsimp only at hrun
    -- a regular file, or one that does not exist, is looked for in the storage
    split at hrun
    · obtain ⟨found, t₄, hlookup, hrun⟩ := runs_bind.mp hrun
      have hs := says_originalLookups
        (calls_inRecursiveCall trivial trivial (by exact .perform trivial)) t₃ _ t₄ hs hlookup
      have hfound : Says type (fun _ => True)
          (inRecursiveCall .currentThread (vnodeLookup path.string .superUser)) fun found s =>
            Gives (fun _ => True) found ∧ ⟨.vnodeLookup path.string .superUser, found⟩ ∈ s.2 := by
        refine says_inRecursiveCall (fun _ _ _ _ _ => trivial) ?_ ?_
        · exact .perform fun s c hc _ =>
            ⟨hc.1, List.mem_append_right _ (List.mem_singleton_self _)⟩
        · exact fun found s _ s' hs hrun => ⟨hs.1, triple_mem_log _ _ s _ s' hs.2 hrun⟩
      obtain ⟨hgives, hmem⟩ := hfound t₃ _ t₄ trivial hlookup
      rw [hpath] at hmem
      exact says_mergeLookups appData hgives t₄ _ s' ⟨hmem, hs⟩ hrun
    -- no regular file: what the original gave stays
    · next hcond =>
      obtain ⟨rfl, rfl⟩ := runs_pure.mp hrun
      intro herror vn hvn hvreg
      have heq : (error, a_vpp) = (0, some vn) := Prod.ext herror hvn
      exact absurd ⟨hregular vn heq hvreg, Or.inl herror⟩ hcond

-- ---------------------------------------------------------------------------
-- Main result
-- ---------------------------------------------------------------------------

/-- What the locals say, the hook returns. -/
theorem runs_lookupExit {cnp : Componentname} {l : LookupLocals Vnode} {s s' : Logged Vnode}
    {r : Int × Option Vnode}
    (hrun : Runs (logged Ledger.effect) (ByApplication type) (lookupExit cnp l) s r s') :
    r = (l.error, l.a_vpp) := by
  have hreturns : (lookupExit cnp l).Returns (· = (l.error, l.a_vpp)) := by
    have hrest : Returns (· = (l.error, l.a_vpp)) (do
        freePath l.redirectedFilePath
        freePath l.shadowPath
        freePath l.shadowName
        putIfAny l.shadowVnode
        putIfAny l.originalVnode
        Pure.pure (l.error, l.a_vpp) : Kernel Vnode (Int × Option Vnode)) := by
      refine .bind (.trivial _) fun _ _ => .bind (.trivial _) fun _ _ => ?_
      refine .bind (.trivial _) fun _ _ => .bind (.trivial _) fun _ _ => ?_
      exact .bind (.trivial _) fun _ _ => .pure rfl
    rw [lookupExit]
    dsimp only
    split
    · exact .bind (.trivial _) fun _ _ => hrest
    · exact hrest
  exact hreturns.of_runs hrun

/-- A request of the application is neither recursive nor of the client. -/
theorem says_isRecursiveCallOrUserClient :
    Says type (fun _ => True) (isRecursiveCallOrUserClient : Kernel Vnode Bool)
      fun skip _ => skip = false := by
  intro s skip s' _ hrun
  obtain ⟨cookie, t, hcookie, hrun⟩ := runs_bind.mp hrun
  obtain ⟨c, hc, hresult, -⟩ := runs_perform.mp hcookie
  obtain rfl : cookie = none := hresult.trans hc.2.2
  obtain ⟨c, hc, hresult, -⟩ := runs_perform.mp hrun
  exact hresult.trans hc.2.2

/-- A lookup of an application, which is redirected, with all that its calls return. If
the original lookup finds a regular file that is not associated and the application gets
a regular file, this is the shadow vnode, with its data and a backing vnode; or the vnode
at the redirected path, with the data for existing files; or that of the second original
lookup, if there is nothing at the redirected path. -/
theorem lookup_gives {ctx : VfsContext} {redirectTo : List UInt8} {dvp : Vnode}
    {cnp : Componentname} {s s' : Ledger Vnode} {log : Log (@KernelOp.Res Vnode)}
    {original vn : Vnode} {rest : List (Int × Option Vnode)}
    (hctx : ctx.application = some redirectTo)
    (hpath : strncasecmpEq redirectTo.length (cnp.cn_pnbuf ++ [0]) (redirectTo ++ [0]) ≠ some true)
    (hrun : Prog.Runs (logged Ledger.effect) (ByApplication type) (qvrVnopLookupHookEx2 ctx dvp cnp)
      (s, []) (0, some vn) (s', log))
    (hfirst : originalLookups log = (0, some original) :: rest) (htype : type original = .vreg)
    (hassociated : ∀ data, s.map.getVnodeAppData original = some data → data.redirectIo = false)
    (hvn : type vn = .vreg) :
    (IsShadowVnode log (shadowCopy cnp.cn_pnbuf) vn ∧
      s'.map.getVnodeAppData vn = some ⟨redirectTo, true⟩ ∧
      ∃ backing, s'.map.getVnodeIo vn = some backing) ∨
    (FoundAt log (redirected redirectTo cnp.cn_pnbuf) vn ∧
      s'.map.getVnodeAppData vn = some ⟨redirectTo, false⟩) ∨
    (rest = [(0, some vn)] ∧ NotFoundAt log (redirected redirectTo cnp.cn_pnbuf)) := by
  have hcreateNew : ctx.createNew = some ⟨redirectTo, true⟩ := by
    rw [VfsContext.createNew, hctx, Option.map_some]
  have hopenExisting : ctx.openExisting = some ⟨redirectTo, false⟩ := by
    rw [VfsContext.openExisting, hctx, Option.map_some]
  rw [qvrVnopLookupHookEx2, hcreateNew, hopenExisting] at hrun
  obtain ⟨skip, t, hskip, hrun⟩ := runs_bind.mp hrun
  -- the request is the application's: neither recursive nor the daemon's
  obtain rfl := says_isRecursiveCallOrUserClient _ _ _ trivial hskip
  rw [if_neg Bool.false_ne_true, if_neg hpath] at hrun
  have hlog := says_originalLookups (noVnop_plain plain_isRecursiveCallOrUserClient) _ _ t rfl hskip
  have hmap := says_entries (Q := fun app _ => ∀ data, app original = some data →
    data.redirectIo = false) plain_isRecursiveCallOrUserClient _ _ t hassociated hskip
  obtain ⟨⟨done, l⟩, t₁, hio, hrun⟩ := runs_bind.mp hrun
  obtain ⟨r, hr, hshadow⟩ := says_lookupRedirectIo htype _ dvp cnp t _ t₁ ⟨hlog, hmap⟩ hio
  cases done with
  -- the data of the name redirected the vnode to its backing file
  | true =>
    have hexit := runs_lookupExit hrun
    have hplain := plain_light (light_lookupExit cnp l)
    have hlookups : originalLookups log = [r] :=
      says_originalLookups (noVnop_plain hplain) t₁ _ _ hr hrun
    obtain rfl : r = (0, some original) := by
      rw [hfirst] at hlookups
      exact (List.cons.inj hlookups).1.symm
    obtain ⟨shadow, hvpp, hfrom, hredirects⟩ := hshadow rfl rfl (congrArg Prod.fst hexit).symm
    obtain rfl : vn = shadow := Option.some.inj ((congrArg Prod.snd hexit).trans hvpp)
    have hentries := says_redirectsIo hplain t₁ _ _ hredirects hrun
    exact Or.inl ⟨says_isShadowVnode _ t₁ _ _ hfrom hrun, hentries.appData, hentries.backing⟩
  -- the path decides: the file of the storage if it is there, else the original's
  | false =>
    obtain ⟨l, t₂, hlookup, hrun⟩ := runs_bind.mp hrun
    have hexit := runs_lookupExit hrun
    have hpath := says_lookupRedirectPath _ dvp cnp _ t₁ l t₂ hr hlookup
    have hgives := says_givesByPath (plain_light (light_lookupExit cnp l)) t₂ _ _ hpath hrun
    obtain ⟨hfound, happ⟩ | ⟨hnot, hlookups⟩ := hgives (congrArg Prod.fst hexit).symm vn
      (congrArg Prod.snd hexit).symm hvn
    · exact Or.inr (Or.inl ⟨hfound, happ⟩)
    · refine Or.inr (Or.inr ⟨?_, hnot⟩)
      rw [hfirst] at hlookups
      exact (List.cons.inj hlookups).2

/-- An application looks up `/d/a`, and gets a new shadow vnode. -/
theorem lookup_gives_shadow :
    let cnp : Componentname := ⟨[47, 100, 47, 97], 4, [97], 1, .LOOKUP, true, 0⟩
    let run := Prog.exec (logged Ledger.effect)
      (fun _ _ => ⟨Ledger.success (shadowCopy cnp.cn_pnbuf), true⟩)
      (qvrVnopLookupHookEx2 ⟨some [47, 114]⟩ 2 cnp) 0 (Ledger.empty, [])
    run.2 = (0, some 4) ∧ originalLookups run.1.2 = [(0, some 3)] ∧
      ((IsShadowVnode run.1.2 (shadowCopy cnp.cn_pnbuf) 4 ∧
        run.1.1.map.getVnodeAppData 4 = some ⟨[47, 114], true⟩ ∧
        ∃ backing, run.1.1.map.getVnodeIo 4 = some backing) ∨
      (FoundAt run.1.2 (redirected [47, 114] cnp.cn_pnbuf) 4 ∧
        run.1.1.map.getVnodeAppData 4 = some ⟨[47, 114], false⟩) ∨
      (([] : List (Int × Option Nat)) = [(0, some 4)] ∧
        NotFoundAt run.1.2 (redirected [47, 114] cnp.cn_pnbuf))) := by
  intro cnp run
  have hresult : run.2 = (0, some 4) ∧ originalLookups run.1.2 = [(0, some 3)] := by
    decide +kernel
  obtain ⟨hresult, hlookups⟩ := hresult
  have happlication : ∀ (_ : Nat) (o : KernelOp Nat), ByApplication (fun _ => .vreg) o
      ⟨Ledger.success (shadowCopy cnp.cn_pnbuf), true⟩ := by
    intro _ o
    refine ⟨Ledger.documented_success trivial _ o, rfl, ?_⟩
    cases o <;> first | rfl | trivial
  have hrun : Prog.Runs (logged Ledger.effect) (ByApplication fun _ => .vreg)
      (qvrVnopLookupHookEx2 ⟨some [47, 114]⟩ 2 cnp) (Ledger.empty, []) run.2 run.1 :=
    Prog.runs_exec happlication _ 0 _
  have hpath : strncasecmpEq ([47, 114] : List UInt8).length (cnp.cn_pnbuf ++ [0])
      ([47, 114] ++ [0]) ≠ some true := by decide
  clear_value run -- no step below is to evaluate the run again
  obtain ⟨⟨s', log⟩, r⟩ := run
  obtain rfl : r = (0, some 4) := hresult
  exact ⟨rfl, hlookups, lookup_gives rfl hpath hrun hlookups rfl (fun _ h => nomatch h) rfl⟩

end VfsRedirector
