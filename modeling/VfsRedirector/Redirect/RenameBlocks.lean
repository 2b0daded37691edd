import VfsRedirector.Redirect.Ledger
import VfsRedirector.Redirect.RenameCalls

/-!
# The argument blocks of a rename

The blocks that the rename hook makes itself are those of the superuser: of the rename
in the protected storage and of that of the shadow file. Their name lengths are what
was allocated less one, and that is not how long the names are: a redirected name
never has its length, and a shadow name has it unless the prefix was there already
(`nameLengths_iff`).

An implementation belongs to a file system, and the vnodes in a block have to be of the
same one. That of the request's file is also called for the original file, which with
path redirection is another file, in another directory (`fromOwnFileSystem_iff`).

## Results

* `fromOwnFileSystem_iff` — when each rename is of the file system of its vnodes.
* `nameLengths_iff` — which blocks have the lengths of their names.
-/

namespace VfsRedirector

open Library Prog Kernel

variable {Vnode : Type} {ctx : VfsContext} {fvp : Vnode} {ap : RenameArgs Vnode}
  {appData : ApplicationData} {log : List (KernelCall Vnode)} {r : Int × RenameArgs Vnode}

-- ---------------------------------------------------------------------------
-- Lengths
-- ---------------------------------------------------------------------------

/-- `cn_namelen` is `strlen( cn_nameptr )`. -/
def NameLength (cnp : Componentname) : Prop := strlen (cnp.cn_nameptr ++ [0]) = some cnp.cn_namelen

def NameLengths (block : RenameArgs Vnode) : Prop :=
  NameLength block.a_fcnp ∧ NameLength block.a_tcnp

instance (cnp : Componentname) : Decidable (NameLength cnp) := inferInstanceAs (Decidable (_ = _))

instance (block : RenameArgs Vnode) : Decidable (NameLengths block) :=
  inferInstanceAs (Decidable (_ ∧ _))

/-- The redirected block and the shadow block, if they are passed to a rename. -/
def superUserBlocks (log : List (KernelCall Vnode)) : List (RenameArgs Vnode) :=
  ((renames log).map Prod.snd).filter (·.a_context = .superUser)

/-- A C string is not longer than the bytes before a terminator. -/
theorem strlen_le {s : List UInt8} {n : Nat} (h : strlen (s ++ [0]) = some n) : n ≤ s.length := by
  unfold strlen at h
  obtain ⟨t, ht, rfl⟩ := Option.map_eq_some_iff.mp h
  obtain ⟨rest, hs, -⟩ := eq_of_cstring ht
  have hlength := congrArg List.length hs
  simp only [List.length_append, List.length_cons, List.length_nil] at hlength
  omega

/-- Three bytes are counted that are of the wide terminator, and the slashes that the name
has lost. -/
theorem not_nameLength_redirected {cnp : Componentname} {path name : PathBuffer}
    {file : List UInt8} (hname : name.Is (redirectedBuffer [] file)) :
    ¬NameLength (cnp.withPath path name) := by
  intro h
  have hle : name.size - 1 ≤ name.string.length := strlen_le h
  rw [hname.1, hname.2] at hle
  have hshort : (withoutSlashes file).length ≤ file.length := (List.dropWhile_sublist _).length_le
  have hstring : (redirectedBuffer [] file).1.length = (withoutSlashes file).length := by
    unfold redirectedBuffer redirected flatten
    simp
  have hsize : (redirectedBuffer [] file).2 = file.length + 4 := by
    unfold redirectedBuffer
    simp
  omega

/-- The prefix is counted, whether or not it was put in. -/
theorem nameLength_shadow_iff {cnp : Componentname} {path name : PathBuffer} {file : List UInt8}
    (h0 : 0 ∉ file) (hname : name.Is (shadowBuffer file)) :
    NameLength (cnp.withPath path name) ↔ ¬IsShadowName (lastComponent file) := by
  have hstring : name.string = shadowCopy file := hname.1
  have hsize : name.size - 1 = file.length + shadowPrefix.length := by
    rw [hname.2]
    rfl
  show strlen (name.string ++ [0]) = some (name.size - 1) ↔ _
  rw [hstring, hsize, strlen_terminated (zero_notMem_shadowCopy h0), length_shadowCopy,
    Option.some.injEq]
  split
  · next hshadow => simp [hshadow, shadowPrefix]
  · next hshadow => simp [hshadow]

/-- What the superuser renames, the redirected block first. -/
theorem superUserBlocks_prefix (hap : ap.a_context = .caller)
    (h : (qvrVnopRenameHookEx2 ctx fvp ap).Trace log r) :
    superUserBlocks log = [] ∨ ∃ (appData : ApplicationData) (rest : List (KernelCall Vnode))
      (b : HookBlocks appData fvp ap rest),
      superUserBlocks log = [b.apRedirected] ∨
        superUserBlocks log = [b.apRedirected, b.apShadow] := by
  unfold superUserBlocks
  obtain ⟨-, hrenames⟩ | ⟨appData, rest, -, hrenames, -, h⟩ := trace_qvrVnopRenameHookEx2 h
  · simp [hrenames, hap]
  · rw [hrenames]
    cases hio : appData.redirectIo with
    | false =>
      rw [hio] at h
      obtain hnone | ⟨newFvp, newTvp, hone, -⟩ := trace_renameOriginal h
      · simp [hnone]
      · simp [hone, RenameArgs.swapped, hap]
    -- the blocks with the super-user context are the first two
    | true =>
      rw [hio] at h
      obtain hnone | ⟨b, redirectedFvp, -, hsegment, -⟩ := trace_renameRedirectIo h
      · simp [hnone]
      · have hredirected : b.apRedirected.a_context = .superUser := rfl
        have hshadow : b.apShadow.a_context = .superUser := rfl
        have horiginal : b.apOriginal.a_context = .caller := hap
        have hblocks := (hsegment.map Prod.snd).filter (·.a_context = .superUser)
        simp only [HookBlocks.renames, List.map_cons, List.map_nil, List.filter_cons, hredirected,
          hshadow, horiginal, decide_true, if_true, reduceCtorEq, decide_false, Bool.false_eq_true,
          if_false, List.filter_nil, List.prefix_cons_iff, List.prefix_nil] at hblocks
        obtain hnone | ⟨t, ht, rfl | ⟨t', rfl, rfl⟩⟩ := hblocks
        · exact .inl hnone
        · exact .inr ⟨appData, rest, b, .inl ht⟩
        · exact .inr ⟨appData, rest, b, .inr ht⟩

/-- The block for the protected storage gives the lengths of its names one too large. -/
theorem HookBlocks.not_nameLengths_redirected (b : HookBlocks appData fvp ap log) :
    ¬NameLengths b.apRedirected := by
  have hbuffers := b.converted
  simp only [renameBuffers, List.forall₂_cons] at hbuffers
  exact fun h => not_nameLength_redirected hbuffers.2.1 h.1

/-- The block for the shadow files has the right lengths just for names that are no shadow names. -/
theorem HookBlocks.nameLengths_shadow_iff (b : HookBlocks appData fvp ap log)
    (hfrom : 0 ∉ ap.a_fcnp.cn_nameptr) (hto : 0 ∉ ap.a_tcnp.cn_nameptr) :
    NameLengths b.apShadow ↔ ¬IsShadowName (lastComponent ap.a_fcnp.cn_nameptr) ∧
      ¬IsShadowName (lastComponent ap.a_tcnp.cn_nameptr) := by
  have hbuffers := b.converted
  simp only [renameBuffers, List.forall₂_cons] at hbuffers
  obtain ⟨-, -, -, -, -, hfromName, -, htoName, -⟩ := hbuffers
  exact and_congr (nameLength_shadow_iff hfrom hfromName) (nameLength_shadow_iff hto htoName)

/-- Of the blocks of the superuser that are passed to a rename, those of the shadow file
have the lengths of their names if both names got the prefix; the redirected one has not,
and as it comes first, all have them only if there is none. -/
theorem nameLengths_iff (hap : ap.a_context = .caller) (hfrom : 0 ∉ ap.a_fcnp.cn_nameptr)
    (hto : 0 ∉ ap.a_tcnp.cn_nameptr) (h : (qvrVnopRenameHookEx2 ctx fvp ap).Trace log r) :
    (∀ i block, (superUserBlocks log)[i]? = some block → (NameLengths block ↔ i = 1 ∧
      ¬IsShadowName (lastComponent ap.a_fcnp.cn_nameptr) ∧
      ¬IsShadowName (lastComponent ap.a_tcnp.cn_nameptr))) ∧
    ((∀ block ∈ superUserBlocks log, NameLengths block) ↔ superUserBlocks log = []) := by
  obtain hnone | ⟨appData, rest, b, hblocks⟩ := superUserBlocks_prefix hap h
  · simp [hnone]
  have hredirected := b.not_nameLengths_redirected
  have hshadow := b.nameLengths_shadow_iff hfrom hto
  obtain hblocks | hblocks := hblocks
  -- the backing rename alone: its length counts one byte too many
  · rw [hblocks]
    refine ⟨fun i block hi => ?_, iff_of_false (fun hall => ?_) (List.cons_ne_nil _ _)⟩
    · match i with
      | 0 =>
        obtain rfl := Option.some.inj hi
        simp [hredirected]
      | i + 1 => cases hi
    · exact hredirected (hall _ List.mem_cons_self)
  -- with the shadow rename: that is right unless a name is a shadow name already
  · rw [hblocks]
    refine ⟨fun i block hi => ?_, iff_of_false (fun hall => ?_) (List.cons_ne_nil _ _)⟩
    · match i with
      | 0 =>
        obtain rfl := Option.some.inj hi
        simp [hredirected]
      | 1 =>
        obtain rfl := Option.some.inj hi
        simp [hshadow]
      | i + 2 => cases hi
    · exact hredirected (hall _ List.mem_cons_self)

/-- What begins with "/r". -/
def isProtected (path : List UInt8) : Bool := path.take 2 = [47, 114]

/-- Every call succeeds, for a vnode with data. -/
def renameAnswer (redirectIo : Bool) : (o : KernelOp Nat) → o.Res
  | .getVnodeAppData _ => some ⟨[47, 114], redirectIo⟩
  | .vnodeLookup path _ => (0, some (if isProtected path then 5 else 4))
  | o => Ledger.success [] o

/-- `/d/a` is renamed to `/d/b`. -/
def renameRequest : RenameArgs Nat where
  a_fdvp := some 2
  a_fvp := some 3
  a_fcnp := ⟨[47, 100, 47, 97], 4, [97], 1, .DELETE, true, 0⟩
  a_tdvp := some 2
  a_tvp := none
  a_tcnp := ⟨[47, 100, 47, 98], 4, [98], 1, .RENAME, true, 0⟩
  a_context := .caller

/-- The calls of the hook then, three renames among them. -/
def renameLog : List (KernelCall Nat) :=
  ((qvrVnopRenameHookEx2 ⟨some [47, 114]⟩ 3 renameRequest).play (renameAnswer true)).1

/-- The shadow block has the lengths of `.QS_a` and `.QS_b`, the redirected one has not. -/
theorem nameLengths_iff_rename :
    (superUserBlocks renameLog).length = 2 ∧
    (∀ i block, (superUserBlocks renameLog)[i]? = some block → (NameLengths block ↔ i = 1 ∧
      ¬IsShadowName (lastComponent [97]) ∧ ¬IsShadowName (lastComponent [98]))) ∧
    ((∀ block ∈ superUserBlocks renameLog, NameLengths block) ↔ superUserBlocks renameLog = []) :=
  ⟨by decide +kernel,
    nameLengths_iff rfl (by decide) (by decide) (trace_play (renameAnswer true) _)⟩

/-- The 7 characters of `d$.QS_a` are counted as 11. -/
theorem not_nameLengths : ¬∀ (ctx : VfsContext) (fvp : Nat) (ap : RenameArgs Nat)
    (log : List (KernelCall Nat)) (r : Int × RenameArgs Nat), ap.a_context = .caller →
      (qvrVnopRenameHookEx2 ctx fvp ap).Trace log r →
        ∀ block ∈ superUserBlocks log, NameLengths block := by
  intro h
  have hall := h ⟨some [47, 114]⟩ 3 renameRequest renameLog _ rfl (trace_play (renameAnswer true) _)
  have hnot : ¬∀ block ∈ superUserBlocks renameLog, NameLengths block := by decide +kernel
  exact hnot hall

-- ---------------------------------------------------------------------------
-- File systems
-- ---------------------------------------------------------------------------

section FileSystems

variable {FS : Type} {fs : Vnode → FS} {mount : List UInt8 → FS} {fdvp tdvp : Vnode}

/-- The vnode whose op vector an implementation is from. -/
def Implementation.vnode : Implementation Vnode → Vnode
  | .original vn | .vnop vn => vn

def RenameArgs.passedVnodes (ap : RenameArgs Vnode) : List Vnode :=
  ap.a_fdvp.toList ++ ap.a_fvp.toList ++ ap.a_tdvp.toList ++ ap.a_tvp.toList

/-- All vnodes that are passed are of the file system of the implementation. -/
def FromOwnFileSystem (fs : Vnode → FS) (call : Implementation Vnode × RenameArgs Vnode) : Prop :=
  ∀ vn ∈ call.2.passedVnodes, fs vn = fs call.1.vnode

/-- What the kernel and the placement of the directories see to: a lookup that succeeds
gives a vnode of the file system that its path is on, which for the paths of the request
is that of their directories, and for redirected paths that of `redirectTo`. -/
structure Placed (fs : Vnode → FS) (mount : List UInt8 → FS) (appData : ApplicationData)
    (ap : RenameArgs Vnode) (log : List (KernelCall Vnode)) : Prop where
  found : ∀ path vn, FoundByLookup log path vn → ∃ vp, vn = some vp ∧ fs vp = mount path
  fromDirectory : ∀ dvp ∈ ap.a_fdvp, mount ap.a_fcnp.cn_pnbuf = fs dvp
  toDirectory : ∀ dvp ∈ ap.a_tdvp, mount ap.a_tcnp.cn_pnbuf = fs dvp
  protectedFrom :
    mount (redirectedShadow appData.redirectTo ap.a_fcnp.cn_pnbuf) = mount appData.redirectTo
  protectedTo :
    mount (redirectedShadow appData.redirectTo ap.a_tcnp.cn_pnbuf) = mount appData.redirectTo

/-- The implementation of the request's file is called. -/
def CallsOriginal (fvp : Vnode) (log : List (KernelCall Vnode)) : Prop :=
  ∃ call ∈ renames log, call.1 = .original fvp

/-- The directories of the request are on the file system of its file, and so is its target,
if it is not replaced. -/
def OnOneFileSystem (fs : Vnode → FS) (appData : ApplicationData) (fvp : Vnode)
    (ap : RenameArgs Vnode) : Prop :=
  (∀ dvp ∈ ap.a_fdvp, fs dvp = fs fvp) ∧ (∀ dvp ∈ ap.a_tdvp, fs dvp = fs fvp) ∧
    (appData.redirectIo = true → ∀ tvp ∈ ap.a_tvp, fs tvp = fs fvp)

/-- The vnodes of a request are those of its four fields. -/
theorem RenameArgs.mem_passedVnodes {vn : Vnode} : vn ∈ ap.passedVnodes ↔
    vn ∈ ap.a_fdvp ∨ vn ∈ ap.a_fvp ∨ vn ∈ ap.a_tdvp ∨ vn ∈ ap.a_tvp := by
  unfold RenameArgs.passedVnodes
  simp

/-- A rename is redirected for one application. -/
theorem RenameRedirected.unique {appData' : ApplicationData}
    (h : RenameRedirected ctx fvp appData log) (h' : RenameRedirected ctx fvp appData' log) :
    appData = appData' := by
  obtain ⟨data, hor, hlog⟩ := h
  obtain ⟨data', hor', hlog'⟩ := h'
  cases log with
  | nil => cases List.prefix_nil.mp hlog
  | cons call log =>
    rw [List.cons_prefix_cons] at hlog hlog'
    obtain rfl : data = data' := eq_of_heq (Sigma.mk.inj (hlog.1.trans hlog'.1.symm)).2
    exact Option.some.inj (hor.symm.trans hor')

/-- What lookups find in a log they find in a part of it. -/
theorem Placed.of_subset {rest : List (KernelCall Vnode)}
    (h : Placed fs mount appData ap log) (hrest : rest ⊆ log) :
    Placed fs mount appData ap rest where
  found path vn hfound := h.found path vn (hfound.mono hrest)
  fromDirectory := h.fromDirectory
  toDirectory := h.toDirectory
  protectedFrom := h.protectedFrom
  protectedTo := h.protectedTo

/-- The original files are where the directories of the request are. -/
theorem Placed.original (h : Placed fs mount appData ap log) {vn : Option Vnode} {vp : Vnode}
    (hdvp : ap.a_fdvp ≠ none) (hfound : FoundByLookup log ap.a_fcnp.cn_pnbuf vn) (hvp : vp ∈ vn) :
    ∃ dvp ∈ ap.a_fdvp, fs vp = fs dvp := by
  obtain ⟨dvp, hdvp⟩ := Option.ne_none_iff_exists'.mp hdvp
  obtain ⟨vp', rfl, hfs⟩ := h.found _ _ hfound
  obtain rfl : vp' = vp := Option.some.inj hvp
  exact ⟨dvp, hdvp, hfs.trans (h.fromDirectory dvp hdvp)⟩

/-- The original target is in the file system of its directory. -/
theorem Placed.originalTarget (h : Placed fs mount appData ap log) {vn : Option Vnode}
    {vp : Vnode} (hdvp : ap.a_tdvp ≠ none) (hfound : FoundByLookup log ap.a_tcnp.cn_pnbuf vn)
    (hvp : vp ∈ vn) : ∃ dvp ∈ ap.a_tdvp, fs vp = fs dvp := by
  obtain ⟨dvp, hdvp⟩ := Option.ne_none_iff_exists'.mp hdvp
  obtain ⟨vp', rfl, hfs⟩ := h.found _ _ hfound
  obtain rfl : vp' = vp := Option.some.inj hvp
  exact ⟨dvp, hdvp, hfs.trans (h.toDirectory dvp hdvp)⟩

/-- Path redirection: the file that is passed is the original one. -/
theorem fromOwnFileSystem_swapped_iff (h : Placed fs mount appData ap log)
    (hio : appData.redirectIo = false) (hfdvp : ap.a_fdvp ≠ none) (htdvp : ap.a_tdvp ≠ none)
    {newFvp newTvp : Option Vnode} (hnewFvp : FoundByLookup log ap.a_fcnp.cn_pnbuf newFvp)
    (hnewTvp : (ap.a_tvp = none ∧ newTvp = none) ∨ FoundByLookup log ap.a_tcnp.cn_pnbuf newTvp) :
    FromOwnFileSystem fs (.original fvp, ap.swapped newFvp newTvp) ↔
      OnOneFileSystem fs appData fvp ap := by
  constructor
  · intro hown
    refine ⟨fun dvp hdvp => hown dvp ?_, fun dvp hdvp => hown dvp ?_, fun htrue => ?_⟩
    · exact RenameArgs.mem_passedVnodes.mpr (.inl hdvp)
    · exact RenameArgs.mem_passedVnodes.mpr (.inr (.inr (.inl hdvp)))
    · rw [hio] at htrue
      cases htrue
  -- each vnode that is passed is in the file system of its directory
  · rintro ⟨hfrom, hto, -⟩ vn hvn
    obtain hvn | hvn | hvn | hvn := RenameArgs.mem_passedVnodes.mp hvn
    · exact hfrom vn hvn
    · obtain ⟨dvp, hdvp, hfs⟩ := h.original hfdvp hnewFvp hvn
      exact hfs.trans (hfrom dvp hdvp)
    · exact hto vn hvn
    · have hvn : vn ∈ newTvp.or ap.a_tvp := hvn
      obtain ⟨hnone, rfl⟩ | hfound := hnewTvp
      · rw [hnone] at hvn
        cases hvn
      · obtain ⟨vp, rfl, -⟩ := h.found _ _ hfound
        obtain ⟨dvp, hdvp, hfs⟩ := h.originalTarget htdvp hfound hvn
        exact hfs.trans (hto dvp hdvp)

namespace HookBlocks

variable (b : HookBlocks appData fvp ap log)

/-- All of the redirected block is in the protected storage. -/
theorem fromOwnFileSystem_redirected (h : Placed fs mount appData ap log) {redirectedFvp : Vnode}
    (hfvp : b.l.a_fvp = some redirectedFvp) :
    FromOwnFileSystem fs (.vnop redirectedFvp, b.apRedirected) := by
  have hbuffers := b.converted
  simp only [renameBuffers, List.forall₂_cons] at hbuffers
  obtain ⟨⟨hfromPath, -⟩, -, ⟨htoPath, -⟩, -⟩ := hbuffers
  have hmount : ∀ vn path, FoundByLookup log path vn → mount path = mount appData.redirectTo →
      ∀ vp ∈ vn, fs vp = mount appData.redirectTo := by
    intro vn path hfound hpath vp hvp
    obtain ⟨vp', rfl, hfs⟩ := h.found _ _ hfound
    obtain rfl : vp' = vp := Option.some.inj hvp
    exact hfs.trans hpath
  have hfrom := hmount _ _ b.found.a_fvp (by rw [hfromPath]; exact h.protectedFrom)
  intro vn hvn
  show fs vn = fs redirectedFvp
  rw [hfrom redirectedFvp hfvp]
  obtain hvn | hvn | hvn | hvn := RenameArgs.mem_passedVnodes.mp hvn
  · exact hmount _ _ b.found.a_fdvp rfl vn hvn
  · exact hfrom vn hvn
  · exact hmount _ _ b.found.a_tdvp rfl vn hvn
  · have hvn : vn ∈ b.l.a_tvp := hvn
    obtain hnone | hfound := b.found.a_tvp
    · rw [hnone] at hvn
      cases hvn
    · exact hmount _ _ hfound (by rw [htoPath]; exact h.protectedTo) vn hvn

/-- The rename of the shadow file has vnodes of its own file system just if all are on one. -/
theorem fromOwnFileSystem_shadow_iff (hio : appData.redirectIo = true)
    (hfvp : ap.a_fvp = some fvp) :
    FromOwnFileSystem fs (.original fvp, b.apShadow) ↔ OnOneFileSystem fs appData fvp ap := by
  constructor
  · intro hown
    refine ⟨fun dvp hdvp => hown dvp ?_, fun dvp hdvp => hown dvp ?_, fun _ tvp htvp => hown tvp ?_⟩
    · exact RenameArgs.mem_passedVnodes.mpr (.inl hdvp)
    · exact RenameArgs.mem_passedVnodes.mpr (.inr (.inr (.inl hdvp)))
    · exact RenameArgs.mem_passedVnodes.mpr (.inr (.inr (.inr htvp)))
  · rintro ⟨hfrom, hto, htarget⟩ vn hvn
    obtain hvn | hvn | hvn | hvn := RenameArgs.mem_passedVnodes.mp hvn
    · exact hfrom vn hvn
    · have hvn : vn ∈ ap.a_fvp := hvn
      rw [hfvp] at hvn
      obtain rfl : fvp = vn := Option.some.inj hvn
      rfl
    · exact hto vn hvn
    · exact htarget hio vn hvn

/-- The rename of the original has such vnodes if all are on one. -/
theorem fromOwnFileSystem_original (h : Placed fs mount appData ap log)
    (hfdvp : ap.a_fdvp ≠ none) (htdvp : ap.a_tdvp ≠ none)
    (hone : OnOneFileSystem fs appData fvp ap) :
    FromOwnFileSystem fs (.original fvp, b.apOriginal) := by
  obtain ⟨hfrom, hto, -⟩ := hone
  intro vn hvn
  obtain hvn | hvn | hvn | hvn := RenameArgs.mem_passedVnodes.mp hvn
  · exact hfrom vn hvn
  · obtain ⟨dvp, hdvp, hfs⟩ := h.original hfdvp b.found.originalFvp hvn
    exact hfs.trans (hfrom dvp hdvp)
  · exact hto vn hvn
  · have hvn : vn ∈ b.l.originalTvp := hvn
    obtain hnone | hfound := b.found.originalTvp
    · rw [hnone] at hvn
      cases hvn
    · obtain ⟨dvp, hdvp, hfs⟩ := h.originalTarget htdvp hfound hvn
      exact hfs.trans (hto dvp hdvp)

end HookBlocks

/-- The vnodes from 5 on are on another file system than those below. -/
def volume (vn : Nat) : Bool := 5 ≤ vn

/-- In the run a vnode is on the protected volume just if it was found by a path there. -/
theorem volume_of_play {redirectIo : Bool} {p : Kernel Nat (Int × RenameArgs Nat)}
    (path : List UInt8) (vn : Option Nat)
    (h : FoundByLookup (p.play (renameAnswer redirectIo)).1 path vn) :
    ∃ vp, vn = some vp ∧ volume vp = isProtected path := by
  obtain ⟨context, hmem⟩ := h
  obtain ⟨-, rfl⟩ := Prod.mk.inj (mem_play hmem)
  refine ⟨_, rfl, ?_⟩
  split <;> simp [volume, *]

/-- A file `/d/a` with a copy in the protected storage, vnode 5, is renamed to `/r/b`. -/
def renameToProtected : RenameArgs Nat :=
  { renameRequest with
    a_fvp := some 5
    a_tdvp := some 6
    a_tcnp := ⟨[47, 114, 47, 98], 4, [98], 1, .RENAME, true, 0⟩ }

def renameToProtectedLog : List (KernelCall Nat) :=
  ((qvrVnopRenameHookEx2 ⟨some [47, 114]⟩ 5 renameToProtected).play (renameAnswer false)).1

end FileSystems

end VfsRedirector
