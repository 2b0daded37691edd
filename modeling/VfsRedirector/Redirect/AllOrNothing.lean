import VfsRedirector.Library.Log
import VfsRedirector.Redirect.Runs

/-!
# Renames that are done by halves

A rename with `redirectIO` is three renames, one after another, and before them a
file that is left in the protected storage at the target is emptied. None of this is
undone when a rename fails. So the rename is all or nothing (`AllOrNothing`) if and
only if no rename fails after one that has moved a file, or after a file was emptied
that held something (`rename_all_or_nothing_iff`). The second rename does not take
back the first one: this would need two names that are longer than each other.

## Results

* `runs_renameAll_log` — how far the three renames came, and what they left.
* `not_back` — the second rename does not undo the first.
* `rename_all_or_nothing_iff` — when a rename is all or nothing.
-/

namespace VfsRedirector

open Library CanonicalPath Prog

variable {app : ControlledApp} {w w' : World} {source target : CanonicalPath}
  {ap apRedirected apShadow apOriginal : RenameArgs Nat} {allow : KernelOp Nat → Answer → Prop}

-- ---------------------------------------------------------------------------
-- What a rename is to do
-- ---------------------------------------------------------------------------

/-- The rename of a request, in the namespace of `w`. -/
def World.Renames (w : World) (ap : RenameArgs Nat) (ns : Namespace Nat) : Prop :=
  ∃ f t, w.sourcePath ap = some f ∧ w.targetPath ap = some t ∧ w.ns.rename f t = some ns

/-- The backing file, the shadow file and the original are renamed. -/
def LevelsRenamed (app : ControlledApp) (w : World) (source target : CanonicalPath)
    (ns : Namespace Nat) : Prop :=
  ∃ apRedirected apShadow apOriginal ns₁ ns₂,
    RedirectedRequests app w source target apRedirected apShadow apOriginal ∧
      w.Renames apRedirected ns₁ ∧ { w with ns := ns₁ }.Renames apShadow ns₂ ∧
      { w with ns := ns₂ }.Renames apOriginal ns

structure AllOrNothing (app : ControlledApp) (w w' : World) (source target : CanonicalPath)
    (error : Int) : Prop where
  nothing : error ≠ 0 → w'.ns = w.ns ∧ w'.contents = w.contents
  all : error = 0 → LevelsRenamed app w source target w'.ns

-- ---------------------------------------------------------------------------
-- What the calls of a run say
-- ---------------------------------------------------------------------------

abbrev WorldLog : Type := Log (@KernelOp.Res Nat)

/-- The error of a rename. -/
def renameError : (Σ o : KernelOp Nat, o.Res) → Option Int
  | ⟨.vnopRename .., error⟩ => some error
  | _ => none

/-- The file that is emptied. -/
def emptiedFile : (Σ o : KernelOp Nat, o.Res) → Option Nat
  | ⟨.qvrVnodeSetsize vp 0 _, error⟩ => if error = (0 : Int) then some vp else none
  | _ => none

def renameErrors (log : WorldLog) : List Int := log.filterMap renameError

def emptiedFiles (log : WorldLog) : List Nat := log.filterMap emptiedFile

/-- No rename fails; or no file that held something was emptied, and only renames to the
same path came before the one that fails. -/
def NotHalfway (app : ControlledApp) (w : World) (source target : CanonicalPath)
    (log : WorldLog) : Prop :=
  (∀ error ∈ renameErrors log, error = 0) ∨
    ((∀ vp ∈ emptiedFiles log, w.contents vp = []) ∧
      match renameErrors log with
      | [_, _] => backingPath app.redirectTo (shadowPath source) =
          backingPath app.redirectTo (shadowPath target)
      | [_, _, _] => shadowPath source = shadowPath target
      | _ => True)

-- ---------------------------------------------------------------------------
-- What is emptied
-- ---------------------------------------------------------------------------

/-- The calls that leave the contents of files alone, or empty a file. -/
def KernelOp.OnlyEmpties : KernelOp Nat → Prop
  | .vnodeOpen _ | .vnopCreate .. | .callDaemon _ => False
  | .qvrVnodeSetsize _ size _ => size = 0
  | _ => True

theorem KernelOp.LooksOrEmpties.onlyEmpties {o : KernelOp Nat} (h : o.LooksOrEmpties) :
    o.OnlyEmpties := by
  cases o with
  | qvrVnodeSetsize vp size context => exact h
  | vnodeOpen => exact h.elim
  | vnopCreate => exact h.elim
  | callDaemon => exact h.elim
  | _ => trivial

theorem KernelOp.Light.onlyEmpties {o : KernelOp Nat} (h : o.Light) : o.OnlyEmpties :=
  h.looksOrEmpties.onlyEmpties

/-- A file has its contents under its new name. -/
theorem contents_rename (f t : Option CanonicalPath) (error : Int) :
    (w.rename f t error).1.contents = w.contents := by
  rw [World.rename.eq_def]
  split
  · rfl
  · split
    · split <;> rfl
    · rfl

/-- Of the calls of a rename each empties one file, or none. -/
theorem contents_effect {o : KernelOp Nat} (c : Answer) (h : o.OnlyEmpties) (vp : Nat) :
    (World.effect w o c).1.contents vp =
      if emptiedFile ⟨o, (World.effect w o c).2⟩ = some vp then [] else w.contents vp := by
  cases o with
  | qvrVnodeSetsize file size context =>
    obtain rfl : size = 0 := h
    show (w.setSize file 0 c.error).contents vp =
      if (if c.error = 0 then some file else none) = some vp then [] else w.contents vp
    rw [World.setSize]
    split
    · by_cases hvp : vp = file
      · subst hvp
        simp [List.rightpad]
      · simp [hvp, Ne.symm hvp]
    · simp
  | vnodeOpen => exact h.elim
  | vnopCreate => exact h.elim
  | callDaemon => exact h.elim
  | vnopRename implementation ap => exact congrFun (contents_rename _ _ _) vp
  | enterRecursiveCall cookie =>
    rw [World.effect]
    split <;> rfl
  | _ => rfl

/-- The files that a longer log empties are those of the log and that of its last call. -/
theorem mem_emptiedFiles_append {log : WorldLog} {call : Σ o : KernelOp Nat, o.Res} {vp : Nat} :
    vp ∈ emptiedFiles (log ++ [call]) ↔ vp ∈ emptiedFiles log ∨ emptiedFile call = some vp := by
  rw [emptiedFiles, List.filterMap_append, List.mem_append, emptiedFiles]
  simp

/-- The files that a program has emptied are empty, and the others are as they were. -/
theorem contents_of_run {α : Type} {p : Kernel Nat α} (hp : p.Calls KernelOp.OnlyEmpties)
    {s s' : World × WorldLog} {a : α} (h : Runs (logged World.effect) allow p s a s')
    (hs : ∀ vp, s.1.contents vp = if vp ∈ emptiedFiles s.2 then [] else w.contents vp) (vp : Nat) :
    s'.1.contents vp = if vp ∈ emptiedFiles s'.2 then [] else w.contents vp := by
  refine hp.triple (I := fun s : World × WorldLog => ∀ vp, s.1.contents vp =
    if vp ∈ emptiedFiles s.2 then [] else w.contents vp) (fun s o c ho hs vp => ?_) s a s' hs h vp
  show (World.effect s.1 o c).1.contents vp =
    if vp ∈ emptiedFiles (s.2 ++ [⟨o, (World.effect s.1 o c).2⟩]) then [] else w.contents vp
  rw [contents_effect c ho, hs]
  simp only [mem_emptiedFiles_append]
  by_cases hfile : emptiedFile ⟨o, (World.effect s.1 o c).2⟩ = some vp
  · simp [hfile]
  · simp [hfile]

-- ---------------------------------------------------------------------------
-- Before the renames
-- ---------------------------------------------------------------------------

variable {s s' : World × WorldLog}

/-- A lookup is no rename. -/
theorem renameError_of_looksOrEmpties {o : KernelOp Nat} (h : o.LooksOrEmpties) (r : o.Res) :
    renameError ⟨o, r⟩ = none := by
  cases o with
  | vnopRename => exact h.elim
  | _ => rfl

/-- A light call empties no file. -/
theorem emptiedFile_of_light {o : KernelOp Nat} (h : o.Light) (r : o.Res) :
    emptiedFile ⟨o, r⟩ = none := by
  cases o with
  | qvrVnodeSetsize => exact h.elim
  | _ => rfl

/-- Before the renames no error of one is in the log. -/
theorem renameErrors_of_calls {α : Type} {p : Kernel Nat α} {a : α}
    (hp : p.Calls KernelOp.LooksOrEmpties) (h : Runs (logged World.effect) allow p s a s') :
    renameErrors s'.2 = renameErrors s.2 :=
  triple_filterMap_log (hp.mono fun _ => renameError_of_looksOrEmpties) s a s' rfl h

/-- Light code leaves the emptied files as they were. -/
theorem emptiedFiles_of_light {α : Type} {p : Kernel Nat α} {a : α}
    (hp : p.Calls KernelOp.Light) (h : Runs (logged World.effect) allow p s a s') :
    emptiedFiles s'.2 = emptiedFiles s.2 :=
  triple_filterMap_log (hp.mono fun _ => emptiedFile_of_light) s a s' rfl h

/-- A lookup in a region empties none. -/
theorem triple_lookup_emptied {E : List Nat} (cookie : Cookie) (path : List UInt8)
    (context : Context) : Triple (logged World.effect) allow (fun s => emptiedFiles s.2 = E)
      (inRecursiveCall cookie (Kernel.vnodeLookup path context)) fun _ s => emptiedFiles s.2 = E :=
  triple_filterMap_log (calls_inRecursiveCall (fun _ => rfl) (fun _ => rfl)
    (.perform fun _ => rfl))

/-- A lookup of the targets that fails has emptied nothing. -/
theorem triple_lookupTargets_emptied {E : List Nat} (path : List UInt8) (l : RenameLocals Nat) :
    Triple (logged World.effect) allow (fun s => emptiedFiles s.2 = E) (lookupTargets ap path l)
      fun r s => r.1 ≠ 0 → emptiedFiles s.2 = E := by
  cases htvp : ap.a_tvp with
  | none =>
    intro s r s' _ hrun herror
    exact absurd (((returns_lookupTargets path l).of_runs hrun).2 htvp) herror
  | some tvp =>
    have hlookups : Triple (logged World.effect) allow (fun s => emptiedFiles s.2 = E)
        (lookupTargets ap path l) fun _ s => emptiedFiles s.2 = E := by
      rw [lookupTargets, htvp]
      refine .bind (triple_lookup_emptied _ _ _) fun r => ?_
      obtain ⟨error, a_tvp⟩ := r
      dsimp only
      split
      · exact .pure fun _ h => h
      · exact .bind (triple_lookup_emptied _ _ _) fun _ => .pure fun _ h => h
    exact hlookups.weaken fun _ _ h _ => h

/-- If the lookups fail no file has been emptied. -/
theorem triple_lookupRenamed_emptied {E : List Nat} (appData : ApplicationData)
    (fromPath toPath : List UInt8) :
    Triple (logged World.effect) allow (fun s => emptiedFiles s.2 = E)
      (lookupRenamed appData ap fromPath toPath) fun r s => r.1 ≠ 0 → emptiedFiles s.2 = E := by
  refine .bind (triple_lookup_emptied _ _ _) fun r => ?_
  obtain ⟨error, a_fdvp⟩ := r
  dsimp only
  split
  · exact .pure fun _ h _ => h
  · refine .bind (triple_lookup_emptied _ _ _) fun r => ?_
    obtain ⟨error, a_tdvp⟩ := r
    dsimp only
    split
    · exact .pure fun _ h _ => h
    · refine .bind (triple_lookup_emptied _ _ _) fun r => ?_
      obtain ⟨error, a_fvp⟩ := r
      dsimp only
      split
      · exact .pure fun _ h _ => h
      · refine .bind (triple_lookup_emptied _ _ _) fun r => ?_
        obtain ⟨error, originalFvp⟩ := r
        dsimp only
        split
        · exact .pure fun _ h _ => h
        · exact triple_lookupTargets_emptied _ _

-- ---------------------------------------------------------------------------
-- The renames
-- ---------------------------------------------------------------------------

/-- How far the three renames have come: the error, the errors of the renames, and the
namespace after them. -/
inductive Progress (w : World) (apRedirected apShadow apOriginal : RenameArgs Nat) :
    Int → List Int → Namespace Nat → Prop
  | first {error : Int} (herror : error ≠ 0) :
    Progress w apRedirected apShadow apOriginal error [error] w.ns
  | second {error : Int} {ns₁ : Namespace Nat} (h₁ : w.Renames apRedirected ns₁)
    (herror : error ≠ 0) : Progress w apRedirected apShadow apOriginal error [0, error] ns₁
  | third {error : Int} {ns₁ ns₂ : Namespace Nat} (h₁ : w.Renames apRedirected ns₁)
    (h₂ : { w with ns := ns₁ }.Renames apShadow ns₂) (herror : error ≠ 0) :
    Progress w apRedirected apShadow apOriginal error [0, 0, error] ns₂
  | all {ns₁ ns₂ ns₃ : Namespace Nat} (h₁ : w.Renames apRedirected ns₁)
    (h₂ : { w with ns := ns₁ }.Renames apShadow ns₂)
    (h₃ : { w with ns := ns₂ }.Renames apOriginal ns₃) :
    Progress w apRedirected apShadow apOriginal 0 [0, 0, 0] ns₃

/-- A rename, with what it leaves in the log. -/
theorem runs_rename_log {implementation : Implementation Nat} {error : Int}
    (h : Runs (logged World.effect) allow (Kernel.vnopRename implementation ap) s error s') :
    renameErrors s'.2 = renameErrors s.2 ++ [error] ∧
      ((error ≠ 0 ∧ s'.1 = s.1) ∨
        ∃ ns, error = 0 ∧ s.1.Renames ap ns ∧ s'.1 = { s.1 with ns }) := by
  obtain ⟨c, -, herror, hs'⟩ := runs_perform.mp h
  refine ⟨?_, ?_⟩
  · rw [hs', herror]
    exact List.filterMap_append
  · obtain ⟨-, -, ⟨hne, heq, -⟩ | ⟨f, t, ns, hf, ht, hns, -, h0, heq⟩⟩ := runs_vnopRename h.unlogged
    · exact Or.inl ⟨hne, heq⟩
    · exact Or.inr ⟨ns, h0, ⟨f, t, hf, ht, hns⟩, heq⟩

/-- What follows the last rename succeeds and renames nothing. -/
theorem runs_renameDone_log {fvp : Nat} {originalFvp : Option Nat} {error : Int}
    (h : Runs (logged World.effect) allow (renameDone fvp originalFvp) s error s') :
    error = 0 ∧ renameErrors s'.2 = renameErrors s.2 ∧ s'.1.ns = s.1.ns := by
  refine ⟨?_, renameErrors_of_calls ((light_renameDone ..).mono
    fun _ => KernelOp.Light.looksOrEmpties) h, ?_⟩
  · have hreturns : (renameDone fvp originalFvp).Returns fun error => error = 0 :=
      .bind (.trivial _) fun _ _ => .bind (.trivial _) fun _ _ => .bind (.trivial _) fun _ _ => rfl
    exact hreturns.of_runs h
  · exact (sameFiles_of_quiet (quiet_light (light_renameDone ..)) h.unlogged).ns

/-- The three renames come in order, up to the first that fails. -/
theorem runs_renameAll_log {fvp : Nat} {error : Int} (hfvp : apRedirected.a_fvp ≠ none)
    (hlog : renameErrors s.2 = [])
    (h : Runs (logged World.effect) allow (renameAll fvp apRedirected apShadow apOriginal) s error
      s') :
    Progress s.1 apRedirected apShadow apOriginal error (renameErrors s'.2) s'.1.ns := by
  obtain ⟨redirectedFvp, hredirectedFvp⟩ := Option.ne_none_iff_exists'.mp hfvp
  rw [renameAll, hredirectedFvp] at h
  obtain ⟨error₁, s₁, hfirst, hrun₁⟩ := runs_bind.mp h
  obtain ⟨hlog₁, ⟨hne, heq₁⟩ | ⟨ns₁, rfl, h₁, heq₁⟩⟩ := runs_rename_log hfirst
  -- the backing file is not renamed
  · rw [if_pos hne] at hrun₁
    obtain ⟨rfl, rfl⟩ := runs_pure.mp hrun₁
    rw [hlog₁, hlog, heq₁]
    exact .first hne
  rw [if_neg (by simp)] at hrun₁
  obtain ⟨error₂, s₂, hsecond, hrun₂⟩ := runs_bind.mp hrun₁
  obtain ⟨hlog₂, ⟨hne, heq₂⟩ | ⟨ns₂, rfl, h₂, heq₂⟩⟩ := runs_rename_log hsecond
  -- the shadow file is not; the backing file has been
  · rw [if_pos hne] at hrun₂
    obtain ⟨rfl, rfl⟩ := runs_pure.mp hrun₂
    rw [hlog₂, hlog₁, hlog, heq₂, heq₁]
    exact .second h₁ hne
  rw [if_neg (by simp)] at hrun₂
  rw [heq₁] at h₂ heq₂
  obtain ⟨error₃, s₃, hthird, hrun₃⟩ := runs_bind.mp hrun₂
  obtain ⟨hlog₃, ⟨hne, heq₃⟩ | ⟨ns₃, rfl, h₃, heq₃⟩⟩ := runs_rename_log hthird
  -- the original is not; the other two have been
  · rw [if_pos hne] at hrun₃
    obtain ⟨rfl, rfl⟩ := runs_pure.mp hrun₃
    rw [hlog₃, hlog₂, hlog₁, hlog, heq₃, heq₂]
    exact .third h₁ h₂ hne
  · rw [if_neg (by simp)] at hrun₃
    obtain ⟨rfl, hlog₄, hns⟩ := runs_renameDone_log hrun₃
    rw [heq₂] at h₃ heq₃
    rw [hlog₄, hlog₃, hlog₂, hlog₁, hlog, hns, heq₃]
    exact .all h₁ h₂ h₃

-- ---------------------------------------------------------------------------
-- No rename takes back the one before
-- ---------------------------------------------------------------------------

section Paths

variable {ns₁ ns₂ : Namespace Nat} {f t q d p : CanonicalPath}

/-- A name for the protected storage is as long as the path that it is made of, without
the first `/`. -/
theorem length_redirected_shadowPath (p : CanonicalPath) :
    (redirected [] (shadowPath p).string).length =
      (join p.parent.components).length + (shadowName p.baseName).length := by
  have hne : (shadowPath p).components ≠ [] := by
    rw [shadowPath_components]
    simp
  obtain ⟨u, hstring, -, hredirected, -⟩ := redirected_nil_string hne
  have hlength := congrArg List.length hstring
  rw [shadowPath_string, shadowCopy_string, List.length_append, List.length_cons,
    List.length_cons] at hlength
  rw [hredirected, flatten, List.length_map]
  omega

/-- A backing file is directly in the directory of the protected storage. -/
theorem backingPath_components (app : ControlledApp) (p : CanonicalPath) :
    (backingPath app.redirectTo (shadowPath p)).components =
      app.redirectTo.components ++ [redirected [] (shadowPath p).string] := by
  have hne : (shadowPath p).components ≠ [] := by
    rw [shadowPath_components]
    simp
  obtain ⟨u, -, -, hredirected, hplain⟩ := redirected_nil_string hne
  rw [backingPath_eq app.ne_root hne, enter_components (hredirected ▸ hplain)]

/-- A directory is where the rename takes it. -/
theorem entry_moved {dvp : Nat} {cnp : Componentname} {s : CanonicalPath}
    (hns : w.ns.rename f t = some ns₁) (hq : w.ns.find q = some dvp)
    (hname : cnp.cn_nameptr = shadowCopy p.baseName ∧
      (shadowCopy p.baseName).length ≤ cnp.cn_namelen)
    (hentry : { w with ns := ns₁ }.entryPath dvp cnp = some s) :
    ∃ d, moved f t q = some d ∧ s.components = d.components ++ [shadowName p.baseName] := by
  rw [World.entryPath, Option.map_eq_some_iff] at hentry
  obtain ⟨d, hd, rfl⟩ := hentry
  obtain ⟨q', hq', hmoved⟩ := (Namespace.find_rename hns).mp (Namespace.pathOf_eq_some_iff.mp hd)
  obtain rfl := Namespace.find_injective hq hq'
  refine ⟨d, hmoved, ?_⟩
  rw [List.take_of_length_le (by rw [hname.1]; exact hname.2), hname.1,
    shadowCopy_name (slash_notMem_baseName p).1, enter_components (plainName_shadow p)]

/-- The directory of the target of a rename is not moved by it. -/
theorem eq_of_moved_directory {name : List UInt8} (hne : f ≠ t)
    (ht : t.components = d.components ++ [name]) (hmoved : moved f t q = some d) : q = d := by
  rw [moved, if_neg hne] at hmoved
  split at hmoved
  · have hd := congrArg CanonicalPath.components (Option.some.inj hmoved)
    have hlength := congrArg List.length hd
    rw [rebase, List.length_append, ht, List.length_append, List.length_singleton] at hlength
    omega
  · split at hmoved
    · exact absurd hmoved.symm (Option.some_ne_none d)
    · exact Option.some.inj hmoved

/-- The rename of the shadow file is not back from the target of the backing file to its
source: the names would be longer than each other. -/
theorem not_back {s u d d' : CanonicalPath}
    (hne : backingPath app.redirectTo (shadowPath source) ≠
      backingPath app.redirectTo (shadowPath target))
    (hs : moved (backingPath app.redirectTo (shadowPath source))
      (backingPath app.redirectTo (shadowPath target)) source.parent = some d ∧
      s.components = d.components ++ [shadowName source.baseName])
    (hu : moved (backingPath app.redirectTo (shadowPath source))
      (backingPath app.redirectTo (shadowPath target)) target.parent = some d' ∧
      u.components = d'.components ++ [shadowName target.baseName])
    {names : List (List UInt8)}
    (ht : (backingPath app.redirectTo (shadowPath target)).components = s.components ++ names)
    (hf : (backingPath app.redirectTo (shadowPath source)).components = u.components ++ names) :
    False := by
  rw [backingPath_components] at ht hf
  obtain rfl | ⟨rest, name, rfl⟩ := List.eq_nil_or_concat' names
  -- each name would be longer than the other
  · rw [List.append_nil, hs.2] at ht
    rw [List.append_nil, hu.2] at hf
    obtain ⟨hd, hname⟩ := List.append_inj' ht rfl
    obtain ⟨hd', hname'⟩ := List.append_inj' hf rfl
    have hdirectory := backingPath_components app target
    have hsource : source.parent = d := eq_of_moved_directory hne (hd ▸ hdirectory) hs.1
    have htarget : target.parent = d' := eq_of_moved_directory hne (hd' ▸ hdirectory) hu.1
    have hlength := congrArg List.length (List.cons.inj hname).1
    have hlength' := congrArg List.length (List.cons.inj hname').1
    rw [length_redirected_shadowPath, htarget, ← hd'] at hlength
    rw [length_redirected_shadowPath, hsource, ← hd] at hlength'
    obtain ⟨first, others, hfirst⟩ := List.exists_cons_of_ne_nil app.ne_root
    rw [hfirst, join_cons, List.length_cons] at hlength hlength'
    omega
  -- both backing names would end in the same name
  · rw [← List.append_assoc] at ht hf
    have hname := (List.append_inj' ht rfl).2
    have hname' := (List.append_inj' hf rfl).2
    refine hne (CanonicalPath.ext ?_)
    rw [backingPath_components, backingPath_components, hname, hname']

end Paths

-- ---------------------------------------------------------------------------
-- When the namespace is as it was
-- ---------------------------------------------------------------------------

variable {ns₁ ns₂ : Namespace Nat}

/-- The rename of the backing file changes the namespace unless source and target are one file. -/
theorem first_same_iff
    (h : RedirectedRequests app w source target apRedirected apShadow apOriginal)
    (h₁ : w.Renames apRedirected ns₁) :
    ns₁ = w.ns ↔ backingPath app.redirectTo (shadowPath source) =
      backingPath app.redirectTo (shadowPath target) := by
  obtain ⟨f, t, hf, ht, hns⟩ := h₁
  rw [Namespace.rename_eq_self_iff hns, h.backingSource f hf, h.backingTarget t ht]

/-- After both renames the namespace is as it was just in that case. -/
theorem second_same_iff
    (h : RedirectedRequests app w source target apRedirected apShadow apOriginal)
    (h₁ : w.Renames apRedirected ns₁) (h₂ : { w with ns := ns₁ }.Renames apShadow ns₂) :
    ns₂ = w.ns ↔ shadowPath source = shadowPath target := by
  by_cases hbacking : backingPath app.redirectTo (shadowPath source) =
      backingPath app.redirectTo (shadowPath target)
  · obtain rfl := (first_same_iff h h₁).mpr hbacking
    obtain ⟨f, t, hf, ht, hns⟩ := h₂
    have hf : w.sourcePath apShadow = some f := hf
    have ht : w.targetPath apShadow = some t := ht
    rw [h.shadowSource h.original, Option.some.injEq] at hf
    rw [h.shadowTarget h.original, Option.some.injEq] at ht
    rw [Namespace.rename_eq_self_iff hns, hf, ht]
  · refine iff_of_false (fun hback => ?_) fun hshadow => hbacking (by rw [hshadow])
    obtain ⟨f, t, hf, ht, hns⟩ := h₁
    obtain rfl := h.backingSource f hf
    obtain rfl := h.backingTarget t ht
    obtain ⟨s, u, hs, hu, hns₂⟩ := h₂
    obtain ⟨fdvp, hfdvp, hfind⟩ := h.original.fdvp
    obtain ⟨tdvp, htdvp, hfind'⟩ := h.original.tdvp
    rw [World.sourcePath, h.shadowFdvp, hfdvp, Option.bind_some] at hs
    rw [World.targetPath, h.shadowTdvp, htdvp, Option.bind_some] at hu
    obtain ⟨d, hd⟩ := entry_moved hns hfind h.shadowFcnp hs
    obtain ⟨d', hd'⟩ := entry_moved hns hfind' h.shadowTcnp hu
    rw [hback] at hns₂
    obtain ⟨names, hnames, hnames'⟩ := Namespace.rename_back hns hns₂ hbacking
    exact not_back hbacking hd hd' hnames hnames'

-- ---------------------------------------------------------------------------
-- The hook
-- ---------------------------------------------------------------------------

theorem World.Renames.congr {w₀ : World} {ns : Namespace Nat} (hns : w.ns = w₀.ns)
    (h : w.Renames ap ns) : w₀.Renames ap ns := by
  simpa only [World.Renames, World.sourcePath, World.targetPath, World.entryPath, hns] using h

theorem Progress.congr {w₀ : World} {error : Int} {errors : List Int} {ns : Namespace Nat}
    (hns : w.ns = w₀.ns) (h : Progress w apRedirected apShadow apOriginal error errors ns) :
    Progress w₀ apRedirected apShadow apOriginal error errors ns := by
  cases h with
  | first herror =>
    rw [hns]
    exact .first herror
  | second h₁ herror => exact .second (h₁.congr hns) herror
  | third h₁ h₂ herror => exact .third (h₁.congr hns) (h₂.congr rfl) herror
  | all h₁ h₂ h₃ => exact .all (h₁.congr hns) (h₂.congr rfl) (h₃.congr rfl)

/-- Where not all paths are converted there is an error. -/
theorem returns_convertPaths_error {l : List (Kernel Nat (Int × Option PathBuffer))}
    (h : ∀ conversion ∈ l, conversion.Returns fun r => r.2 = none → r.1 ≠ 0) :
    (convertPaths l).Returns fun r => r.1 = 0 → r.2.length = l.length := by
  induction l with
  | nil => exact fun _ => rfl
  | cons conversion l ih =>
    rw [List.forall_mem_cons] at h
    refine .bind h.1 fun r herror => ?_
    obtain ⟨error, path⟩ := r
    cases path with
    | none => exact fun h0 => absurd h0 (herror rfl)
    | some path =>
      refine .bind (ih h.2) fun _ hlength h0 => ?_
      rw [List.length_cons, hlength h0, List.length_cons]

/-- A conversion that gives no path gives an error. -/
theorem ConvertsTo.error {string : List UInt8} {r : Int × Option PathBuffer}
    (h : ConvertsTo string r) (hnone : r.2 = none) : r.1 ≠ 0 := by
  obtain rfl | ⟨b, rfl, -⟩ := h
  · decide
  · exact absurd hnone (Option.some_ne_none b)

/-- Without an error there are eight paths. -/
theorem returns_renameConversions_error (appData : ApplicationData) (ap : RenameArgs Nat) :
    (convertPaths (renameConversions appData ap)).Returns fun r =>
      r.1 = 0 → r.2.length = 8 := by
  have hshadow : ∀ path, (convertToShadowCopyPath path : Kernel Nat _).Returns
      fun r => r.2 = none → r.1 ≠ 0 :=
    fun path => (returns_convertToShadowCopyPath path).mono fun _ => ConvertsTo.error
  have hredirected : ∀ path dir,
      (convertToShadowAndThenRedirectedPath path dir : Kernel Nat _).Returns
        fun r => r.2 = none → r.1 ≠ 0 :=
    fun path dir => (returns_convertToShadowAndThenRedirectedPath path dir).mono
      fun _ => ConvertsTo.error
  refine returns_convertPaths_error (l := renameConversions appData ap) ?_
  simp [renameConversions, hshadow, hredirected]

/-- The exit returns the error that it was reached with. -/
theorem returns_renameExit (ap : RenameArgs Nat) (error : Int) (paths : List PathBuffer)
    (l : RenameLocals Nat) : (renameExit ap error paths l).Returns fun r => r.1 = error := by
  have hrest : (do
      putIfAny l.a_fdvp
      putIfAny l.a_fvp
      putIfAny l.a_tdvp
      putIfAny l.a_tvp
      freePaths (paths.drop 4)
      freePaths (paths.take 4)
      putIfAny l.originalFvp
      putIfAny l.originalTvp
      putIfAny l.newFvp
      putIfAny l.newTvp
      Pure.pure (error, { ap with a_fvp := l.oldFvp.or ap.a_fvp, a_tvp := l.oldTvp.or ap.a_tvp }) :
        Kernel Nat (Int × RenameArgs Nat)).Returns fun r => r.1 = error :=
    .bind (.trivial _) fun _ _ => .bind (.trivial _) fun _ _ => .bind (.trivial _) fun _ _ =>
      .bind (.trivial _) fun _ _ => .bind (.trivial _) fun _ _ => .bind (.trivial _) fun _ _ =>
      .bind (.trivial _) fun _ _ => .bind (.trivial _) fun _ _ => .bind (.trivial _) fun _ _ =>
      .bind (.trivial _) fun _ _ => rfl
  refine .bind (.trivial _) fun _ _ => ?_
  split
  · exact .bind (.trivial _) fun _ _ => hrest
  · exact hrest

/-- The end of the hook changes nothing that counts. -/
theorem runs_renameExit_log {error : Int} {paths : List PathBuffer} {l : RenameLocals Nat}
    {r : Int × RenameArgs Nat}
    (h : Runs (logged World.effect) allow (renameExit ap error paths l) s r s') :
    r.1 = error ∧ renameErrors s'.2 = renameErrors s.2 ∧ emptiedFiles s'.2 = emptiedFiles s.2 ∧
      s'.1.ns = s.1.ns :=
  ⟨(returns_renameExit _ _ _ _).of_runs h,
    renameErrors_of_calls ((light_renameExit ..).mono fun _ => KernelOp.Light.looksOrEmpties) h,
    emptiedFiles_of_light (light_renameExit ..) h,
    (sameFiles_of_quiet (quiet_light (light_renameExit ..)) h.unlogged).ns⟩

/-- The hook fails before the renames, and has emptied nothing then; or the renames come as
far as `Progress` says. -/
theorem runs_renameRedirectIO_log {fvp : Nat} {r : Int × RenameArgs Nat}
    (hpaths : RenamesPaths s.1 ap source target) (hlog : renameErrors s.2 = [])
    (h : Runs (logged World.effect) allow (renameRedirectIo app.createNew fvp ap) s r s') :
    (r.1 ≠ 0 ∧ renameErrors s'.2 = [] ∧ emptiedFiles s'.2 = emptiedFiles s.2 ∧
      s'.1.ns = s.1.ns) ∨
    ∃ apRedirected apShadow apOriginal,
      RedirectedRequests app s.1 source target apRedirected apShadow apOriginal ∧
      Progress s.1 apRedirected apShadow apOriginal r.1 (renameErrors s'.2) s'.1.ns := by
  obtain ⟨⟨error, paths⟩, s₁, hconvert, hrun₁⟩ := runs_bind.mp h
  -- the conversions of the paths touch no file
  have hns₁ := (sameFiles_of_quiet (quiet_light (light_renameConversions _ _)) hconvert.unlogged).ns
  have hlog₁ := renameErrors_of_calls ((light_renameConversions _ _).mono
    fun _ => KernelOp.Light.looksOrEmpties) hconvert
  have hemptied₁ := emptiedFiles_of_light (light_renameConversions _ _) hconvert
  have hholds := (returns_renameConversions _ _).of_runs hconvert
  have herror := (returns_renameConversions_error _ _).of_runs hconvert
  dsimp only at hrun₁
  split at hrun₁
  · obtain ⟨⟨error, l⟩, s₂, hlookups, hrun₂⟩ := runs_bind.mp hrun₁
    obtain ⟨hsame₂, hfound⟩ := runs_lookupRenamed hlookups.unlogged
    have hlog₂ := renameErrors_of_calls (calls_lookupRenamed _ _ _) hlookups
    have hemptied₂ := triple_lookupRenamed_emptied _ _ _ _ _ _ hemptied₁ hlookups
    -- a lookup failed: nothing was renamed, and no file was emptied
    dsimp only at hrun₂
    split at hrun₂
    · next hne =>
      obtain ⟨hr, hlog₃, hemptied₃, hns₃⟩ := runs_renameExit_log hrun₂
      refine Or.inl ⟨hr ▸ hne, ?_, ?_, ?_⟩
      · rw [hlog₃, hlog₂, hlog₁, hlog]
      · rw [hemptied₃, hemptied₂ hne]
      · rw [hns₃, hsame₂.ns, hns₁]
    · next h0 =>
      rw [not_not] at h0
      obtain ⟨hfvp, hfdvp, htdvp⟩ := hfound h0
      obtain ⟨error', s₃, hregion, hexit⟩ := runs_bind.mp hrun₂
      obtain ⟨⟨⟩, s₄, henter, hrun₄⟩ := runs_bind.mp hregion
      obtain ⟨error'', s₅, hall, hrun₅⟩ := runs_bind.mp hrun₄
      obtain ⟨⟨⟩, s₆, hleave, hpure⟩ := runs_bind.mp hrun₅
      obtain ⟨rfl, rfl⟩ := runs_pure.mp hpure
      have hns₄ : s₄.1.ns = s.1.ns := by
        rw [(sameFiles_perform henter.unlogged trivial).ns, hsame₂.ns, hns₁]
      have hlog₄ : renameErrors s₄.2 = [] := by
        rw [renameErrors_of_calls (by exact .perform trivial) henter, hlog₂, hlog₁, hlog]
      rw [hns₁] at hfdvp htdvp
      -- the three renames, on what the lookups found
      have hrequests := redirectedRequests hpaths hholds hfdvp htdvp
      have hprogress := runs_renameAll_log hfvp hlog₄ hall
      obtain ⟨hr, hlog₆, -, hns₆⟩ := runs_renameExit_log hexit
      refine Or.inr ⟨_, _, _, hrequests, ?_⟩
      rw [hr, hlog₆, hns₆, renameErrors_of_calls (by exact .perform trivial) hleave,
        (sameFiles_perform hleave.unlogged trivial).ns]
      exact hprogress.congr hns₄
  -- a conversion failed
  · next hshape =>
    obtain ⟨hr, hlog₂, hemptied₂, hns₂⟩ := runs_renameExit_log hrun₁
    have hne : error ≠ 0 := by
      intro h0
      have hlength := herror h0
      match paths, hlength with
      | [b₁, b₂, b₃, b₄, b₅, b₆, b₇, b₈], _ => exact hshape _ _ _ _ _ _ _ _ rfl
    refine Or.inl ⟨hr ▸ hne, ?_, ?_, ?_⟩
    · rw [hlog₂, hlog₁, hlog]
    · rw [hemptied₂, hemptied₁]
    · rw [hns₂, hns₁]

-- ---------------------------------------------------------------------------
-- Main result
-- ---------------------------------------------------------------------------

/-- The calls of a rename empty files and change no other contents. -/
theorem calls_renameRedirectIo (fvp : Nat) (ap : RenameArgs Nat) (appData : ApplicationData) :
    (renameRedirectIo appData fvp ap).Calls KernelOp.OnlyEmpties := by
  have hlight : ∀ {α : Type} {p : Kernel Nat α}, p.Calls KernelOp.Light →
      p.Calls KernelOp.OnlyEmpties := fun hp => hp.mono fun _ => KernelOp.Light.onlyEmpties
  -- the three renames, each after the one before it succeeded
  have hall : ∀ apRedirected apShadow apOriginal,
      (renameAll fvp apRedirected apShadow apOriginal).Calls KernelOp.OnlyEmpties := by
    intro apRedirected apShadow apOriginal
    rw [renameAll]
    split
    · exact .pure
    · refine .bind (.perform trivial) fun error => ?_
      split
      · exact .pure
      · refine .bind (.perform trivial) fun error => ?_
        split
        · exact .pure
        · refine .bind (.perform trivial) fun error => ?_
          split
          · exact .pure
          · exact hlight (light_renameDone ..)
  refine .bind (hlight (light_renameConversions ..)) fun r => ?_
  obtain ⟨error, paths⟩ := r
  dsimp only
  split
  · refine .bind ((calls_lookupRenamed ..).mono fun _ => KernelOp.LooksOrEmpties.onlyEmpties)
      fun r => ?_
    obtain ⟨error, l⟩ := r
    dsimp only
    split
    · exact hlight (light_renameExit ..)
    · exact .bind (calls_inRecursiveCall trivial trivial (hall ..)) fun _ =>
        hlight (light_renameExit ..)
  · exact hlight (light_renameExit ..)

/-- A rename that fails is all or nothing just if nothing is changed. -/
theorem allOrNothing_iff_of_error {error : Int} (herror : error ≠ 0) :
    AllOrNothing app w w' source target error ↔ w'.ns = w.ns ∧ w'.contents = w.contents :=
  ⟨fun h => h.nothing herror, fun h => ⟨fun _ => h, fun h0 => absurd h0 herror⟩⟩

/-- A rename of a file with `redirectIO` is all or nothing if and only if it does not fail
halfway: after a rename that has moved a file, or after a file was emptied that held
something. -/
theorem rename_all_or_nothing_iff {fvp : Nat} {r : Int × RenameArgs Nat} {log : WorldLog}
    (hcookie : w.cookie = none) (hdata : w.map.getVnodeAppData fvp = some app.createNew)
    (hpaths : RenamesPaths w ap source target)
    (hrun : Runs (logged World.effect) allow (qvrVnopRenameHookEx2 app.context fvp ap) (w, []) r
      (w', log)) :
    AllOrNothing app w w' source target r.1 ↔ NotHalfway app w source target log := by
  obtain ⟨d, hd, hrest⟩ := runs_renameHook_log hcookie hrun
  dsimp only at hd hrest
  rw [hdata] at hd
  obtain rfl : app.createNew = d := Option.some.inj hd
  -- the only contents that change are those of the files the lookups emptied
  have hcontents : w'.contents = w.contents ↔ ∀ vp ∈ emptiedFiles log, w.contents vp = [] := by
    have hrun := contents_of_run (w := w) (calls_renameRedirectIo fvp ap app.createNew) hrest
      fun vp => (if_neg List.not_mem_nil).symm
    constructor
    · intro hsame vp hvp
      have h := hrun vp
      rw [if_pos hvp] at h
      rw [← hsame]
      exact h
    · intro hempty
      funext vp
      have h := hrun vp
      by_cases hvp : vp ∈ emptiedFiles log
      · rw [if_pos hvp] at h
        exact h.trans (hempty vp hvp).symm
      · rw [if_neg hvp] at h
        exact h
  obtain ⟨herror, hlog, hemptied, hns⟩ |
    ⟨apRedirected, apShadow, apOriginal, hrequests, hprogress⟩ :=
    runs_renameRedirectIO_log hpaths rfl hrest
  -- no rename was tried
  · have hlog : renameErrors log = [] := hlog
    have hemptied : emptiedFiles log = [] := hemptied
    refine iff_of_true ((allOrNothing_iff_of_error herror).mpr ⟨hns, hcontents.mpr ?_⟩) (.inl ?_)
    · simp [hemptied]
    · simp [hlog]
  · dsimp only at hprogress
    generalize hlog : renameErrors log = errors at hprogress
    generalize hns : w'.ns = ns at hprogress
    generalize r.1 = error at hprogress
    rw [NotHalfway, hlog]
    cases hprogress with
    -- the backing file could not be renamed: nothing happened
    | first herror =>
      rw [allOrNothing_iff_of_error herror, hcontents, hns]
      simp [herror]
    -- the backing file was renamed and stays so, unless that moved nothing
    | second h₁ herror =>
      rw [allOrNothing_iff_of_error herror, hcontents, hns, first_same_iff hrequests h₁]
      simp [herror, and_comm]
    -- the shadow file too
    | third h₁ h₂ herror =>
      rw [allOrNothing_iff_of_error herror, hcontents, hns, second_same_iff hrequests h₁ h₂]
      simp [herror, and_comm]
    -- all three were renamed
    | all h₁ h₂ h₃ =>
      refine iff_of_true ⟨fun hne => absurd rfl hne, fun _ => ?_⟩ (.inl (by simp))
      rw [hns]
      exact ⟨apRedirected, apShadow, apOriginal, _, _, hrequests, h₁, h₂, h₃⟩

-- ---------------------------------------------------------------------------
-- Two renames
-- ---------------------------------------------------------------------------

namespace Sample

/-- The rename of `/d/a` to `/d/b`. -/
def renameRequest : RenameArgs Nat := renameArgs 2 2 file newFile 4 none

/-- The backing file is renamed; the rename of the shadow file fails. -/
def shadowFails (_ : Nat) : KernelOp Nat → Answer
  | .vnopRename (.original _) _ => { error := 5 }
  | _ => {}

/-- What the rename hook leaves, with the calls that it has made, and what it returns. -/
def renameRun (answers : Nat → KernelOp Nat → Answer) :
    (World × WorldLog) × (Int × RenameArgs Nat) :=
  (qvrVnopRenameHookEx2 application.context 4 renameRequest).exec (logged World.effect) answers 0
    ({ afterLookup with cookie := none }, [])

/-- The hook runs like this, whatever the answers. -/
theorem runs_renameRun (answers : Nat → KernelOp Nat → Answer) :
    Runs (logged World.effect) (fun _ _ => True)
      (qvrVnopRenameHookEx2 application.context 4 renameRequest)
      ({ afterLookup with cookie := none }, []) (renameRun answers).2 (renameRun answers).1 :=
  runs_exec (fun _ _ => trivial) _ 0 _

/-- The request is for those two paths. -/
theorem renamesPaths_renameRequest :
    RenamesPaths { afterLookup with cookie := none } renameRequest file newFile :=
  renamesPaths_renameArgs (by decide +kernel) (by decide +kernel)

end Sample

open Sample in
/-- The rename of the shadow file fails, and the backing file is at its new name. -/
theorem rename_not_all_or_nothing :
    ¬∀ (app : ControlledApp) (w w' : World) (source target : CanonicalPath) (ap : RenameArgs Nat)
      (fvp : Nat) (r : Int × RenameArgs Nat) (log : WorldLog), w.cookie = none →
      w.map.getVnodeAppData fvp = some app.createNew → RenamesPaths w ap source target →
      Runs (logged World.effect) (fun _ _ => True) (qvrVnopRenameHookEx2 app.context fvp ap)
        (w, []) r (w', log) →
      AllOrNothing app w w' source target r.1 := by
  intro h
  have hrun := h application _ (renameRun shadowFails).1.1 file newFile renameRequest 4
    (renameRun shadowFails).2 (renameRun shadowFails).1.2 rfl (by decide +kernel)
    renamesPaths_renameRequest (runs_renameRun shadowFails)
  have herror : (renameRun shadowFails).2.1 ≠ 0 := by decide +kernel
  have hentries : (renameRun shadowFails).1.1.ns.entries ≠ afterLookup.ns.entries := by
    decide +kernel
  exact hentries (congrArg Namespace.entries (hrun.nothing herror).1)

open Sample in
/-- No call fails. -/
theorem rename_all_or_nothing_afterLookup :
    AllOrNothing application { afterLookup with cookie := none } (renameRun fun _ _ => {}).1.1
      file newFile (renameRun fun _ _ => {}).2.1 :=
  (rename_all_or_nothing_iff rfl (by decide +kernel) renamesPaths_renameRequest
    (runs_renameRun fun _ _ => {})).mpr (.inl (by decide +kernel))

end VfsRedirector
