import VfsRedirector.Library.RelativePath
import VfsRedirector.Redirect.Dispatch

/-!
# The protected storage

A lookup of an application in the protected storage is not redirected. The hook
takes it for one when `cn_pnbuf` begins with `redirectTo`, in any letter case, which
says little about where the path leads: it may go on in the last name of `redirectTo`,
as `/work1/my_words` does, or leave the directory by `..`. `ComesBack` is when it ends
at `redirectTo` or below all the same (`letThrough_inStorage_iff`).

## Results

* `comesBack_iff_of_down` — when a path that only goes down comes back.
* `letThrough_inStorage_iff` — when only accesses to the protected storage are let
  through.
-/

namespace VfsRedirector

open Library CanonicalPath RelativePath Prog Kernel

variable {Vnode : Type} {cwd : CanonicalPath} {redirectTo cn dir name rest : List UInt8}

-- ---------------------------------------------------------------------------
-- What the hook is to decide
-- ---------------------------------------------------------------------------

/-- The path resolves to `redirectTo` or below it, without regard to letter case. -/
def InStorage (cwd : CanonicalPath) (redirectTo cn : List UInt8) : Prop :=
  (resolve cwd redirectTo).components.map (List.map tolower) <+:
    (resolve cwd cn).components.map (List.map tolower)

/-- The hook takes the request of an application for an access to the protected
storage: it is not in a recursion, and the only operation that it calls is the original
one, with the request as it is. -/
def LetThrough [DecidableEq Vnode] (ctx : VfsContext) (dvp : Vnode) (cnp : Componentname) : Prop :=
  ∃ r, (qvrVnopLookupHookEx2 ctx dvp cnp).Trace
    [⟨.cookieForRecursiveCall, none⟩, ⟨.isUserClient, false⟩, ⟨.vnopLookup dvp cnp, r⟩] r

-- ---------------------------------------------------------------------------
-- When it decides so
-- ---------------------------------------------------------------------------

/-- What is behind `redirectTo` in a path, read from `redirectTo`. Where the path goes on
in the last name of `redirectTo`, it does not enter it, so this leads back first. -/
def behind (cwd : CanonicalPath) (redirectTo rest : List UInt8) : List (List UInt8) :=
  match rest.splitOn slash with
  | [] => []
  | name :: names =>
    if name = [] then names
    else wayBack (resolve cwd (directoryPart redirectTo)) (lastComponent redirectTo) ++
      (lastComponent redirectTo ++ name) :: names

/-- The names that are gone down in the end begin with those at the end of `redirectTo`
that the `..` behind it have left; if they have left none, that is nothing to ask. -/
def ComesBack (cwd : CanonicalPath) (redirectTo cn : List UInt8) : Prop :=
  let way := RelativePath.of (behind cwd redirectTo (cn.drop redirectTo.length))
  ((resolve cwd redirectTo).components.rtake way.ups).map (List.map tolower) <+:
    way.names.map (List.map tolower)

/-- The beginning of the path is `redirectTo`, in any letter case. -/
def BeginsWith (redirectTo cn : List UInt8) : Prop :=
  (cn.take redirectTo.length).map tolower = redirectTo.map tolower

instance : Decidable (InStorage cwd redirectTo cn) := inferInstanceAs (Decidable (_ <+: _))

instance : Decidable (ComesBack cwd redirectTo cn) := inferInstanceAs (Decidable (_ <+: _))

-- ---------------------------------------------------------------------------
-- Where a path that begins with `redirectTo` leads
-- ---------------------------------------------------------------------------

/-- Lower case keeps slashes, dots and the terminator apart from letters. -/
theorem keepsForm_tolower : KeepsForm tolower where
  slash _ := tolower_eq_iff (by decide)
  dot _ := tolower_eq_iff (by decide)
  zero _ := tolower_eq_zero

/-- A directory part begins with a slash just if the path does. -/
theorem head?_directoryPart (path : List UInt8) :
    (directoryPart path).head? = some slash ↔ path.head? = some slash := by
  have hparts := directoryPart_append_lastComponent path
  cases hdir : directoryPart path with
  | nil =>
    have hslash := slash_notMem_lastComponent path
    rw [hdir, List.nil_append] at hparts
    rw [hparts] at hslash
    have hhead : path.head? ≠ some slash := fun h => hslash (List.mem_of_head? h)
    simp [hhead]
  | cons c d =>
    rw [hdir] at hparts
    rw [← hparts]
    rfl

/-- The first component goes to the first `/`, if there is one. -/
theorem first_component {first : List UInt8} {after : List (List UInt8)}
    (h : rest.splitOn slash = first :: after) : slash ∉ first ∧
      ((rest = first ∧ after = []) ∨
        ∃ t, rest = first ++ slash :: t ∧ after = t.splitOn slash) := by
  by_cases hslash : slash ∈ rest
  · obtain ⟨name, t, rfl, hname⟩ := List.eq_append_cons_of_mem hslash
    rw [List.splitOn_append_cons_self, List.splitOn_eq_singleton hname,
      List.singleton_append, List.cons.injEq] at h
    obtain ⟨rfl, rfl⟩ := h
    exact ⟨hname, .inr ⟨t, rfl, rfl⟩⟩
  · rw [List.splitOn_eq_singleton hslash, List.cons.injEq] at h
    obtain ⟨rfl, rfl⟩ := h
    exact ⟨hslash, .inl ⟨rfl, rfl⟩⟩

/-- The components of a path that goes on after `dir ++ name`. -/
theorem splitOn_goesOn (hdir : EndsWithSlash dir) (hname : slash ∉ name) :
    ∃ names, dir.splitOn slash = names ++ [[]] ∧
      ∀ first after, rest.splitOn slash = first :: after →
        (dir ++ name ++ rest).splitOn slash = names ++ (name ++ first) :: after := by
  obtain ⟨names, hnames⟩ := splitOn_directoryPart hdir
  refine ⟨names, ?_, ?_⟩
  · have hnil := hnames [] (by simp)
    rwa [List.append_nil] at hnil
  · intro first after hrest
    obtain ⟨hfirst, hcases⟩ := first_component hrest
    have hmem : slash ∉ name ++ first := by simp [hname, hfirst]
    obtain ⟨rfl, rfl⟩ | ⟨t, rfl, rfl⟩ := hcases
    · rw [List.append_assoc, hnames _ hmem]
    · rw [← List.append_assoc, List.append_assoc dir, List.splitOn_append_cons_self,
        hnames _ hmem, List.append_assoc]
      rfl

/-- A path that goes on is read from the directory of its last name. -/
theorem resolve_goesOn {path first : List UInt8} {after : List (List UInt8)} (hne : path ≠ [])
    (hrest : rest.splitOn slash = first :: after) : resolve cwd (path ++ rest) =
      (resolve cwd (directoryPart path)).follow ((lastComponent path ++ first) :: after) := by
  obtain ⟨names, hdir, hgoesOn⟩ := @splitOn_goesOn _ _ rest (endsWithSlash_directoryPart path)
    (slash_notMem_lastComponent path)
  replace hgoesOn := hgoesOn first after hrest
  rw [directoryPart_append_lastComponent] at hgoesOn
  have hhead : (path ++ rest).head? = path.head? := List.head?_append_of_ne_nil _ hne
  unfold resolve
  simp only [hhead, head?_directoryPart]
  rw [hgoesOn, hdir, follow_append, follow_append]
  rfl

/-- The storage is its last component in its directory. -/
theorem resolve_eq_enter (hne : redirectTo ≠ []) : resolve cwd redirectTo =
    (resolve cwd (directoryPart redirectTo)).enter (lastComponent redirectTo) := by
  have h := @resolve_goesOn cwd [] redirectTo [] [] hne rfl
  rw [List.append_nil, List.append_nil] at h
  exact h

/-- What begins with `redirectTo` leads on from the storage. -/
theorem resolve_append (hne : redirectTo ≠ []) (rest : List UInt8) :
    resolve cwd (redirectTo ++ rest) =
      (resolve cwd redirectTo).follow (behind cwd redirectTo rest) := by
  obtain ⟨first, after, hrest⟩ := List.exists_cons_of_ne_nil (List.splitOn_ne_nil slash rest)
  unfold behind
  rw [resolve_goesOn hne hrest, resolve_eq_enter hne, hrest]
  dsimp only
  split
  · next hfirst =>
    rw [hfirst, List.append_nil]
    rfl
  · rw [follow_append, follow_wayBack]

/-- A path that begins with `redirectTo` leads into the storage just if it comes back to it. -/
theorem inStorage_iff (hne : redirectTo ≠ []) (hbegins : BeginsWith redirectTo cn) :
    InStorage cwd redirectTo cn ↔ ComesBack cwd redirectTo cn := by
  have hmap : cn.map tolower = (redirectTo ++ cn.drop redirectTo.length).map tolower := by
    conv_lhs => rw [← List.take_append_drop redirectTo.length cn]
    rw [List.map_append, List.map_append, hbegins]
  unfold InStorage ComesBack
  rw [keepsForm_tolower.resolve_congr hmap, resolve_append hne, prefix_follow_iff]

/-- What a name becomes when it goes on is a name. -/
theorem plainName_append (hname : PlainName name) (hslash : slash ∉ rest) (h0 : 0 ∉ rest) :
    PlainName (name ++ rest) := by
  obtain ⟨hne, hns, hn0, hdot, hdots⟩ := hname
  refine ⟨by simp [hne], by simp [hns, hslash], by simp [hn0, h0], ?_⟩
  obtain ⟨c, name, rfl⟩ := List.exists_cons_of_ne_nil hne
  constructor
  · intro h
    simp only [List.cons_append, List.cons.injEq, List.append_eq_nil_iff] at h
    simp [h] at hdot
  · intro h
    simp only [List.cons_append, List.cons.injEq, List.append_eq_singleton_iff] at h
    obtain ⟨rfl, ⟨rfl, -⟩ | ⟨rfl, -⟩⟩ := h
    · exact hdot rfl
    · exact hdots rfl

/-- Nothing is added to the last component just if there is no more, or a slash follows. -/
theorem first_eq_nil_iff {first : List UInt8} {after : List (List UInt8)}
    (hrest : rest.splitOn slash = first :: after) :
    first = [] ↔ rest = [] ∨ rest.head? = some slash := by
  obtain ⟨hfirst, hcases⟩ := first_component hrest
  cases first with
  | nil =>
    obtain ⟨rfl, -⟩ | ⟨t, rfl, -⟩ := hcases <;> simp
  | cons c first =>
    have hc : c ≠ slash := by
      rintro rfl
      simp at hfirst
    obtain ⟨rfl, -⟩ | ⟨t, rfl, -⟩ := hcases <;> simp [hc]

/-- Without a `..` behind it, a path that begins with `redirectTo` comes back if it
does not go on in its last name. -/
theorem comesBack_iff_of_down (hlast : PlainName (lastComponent redirectTo)) (h0 : 0 ∉ rest)
    (hdown : [dot, dot] ∉ rest.splitOn slash) :
    ComesBack cwd redirectTo (redirectTo ++ rest) ↔ rest = [] ∨ rest.head? = some slash := by
  obtain ⟨first, after, hrest⟩ := List.exists_cons_of_ne_nil (List.splitOn_ne_nil slash rest)
  rw [← first_eq_nil_iff hrest]
  rw [hrest, List.mem_cons, not_or] at hdown
  unfold ComesBack behind
  rw [List.drop_left, hrest]
  dsimp only
  -- what follows redirectTo continues its last name, or goes down behind it
  by_cases hfirst : first = []
  · rw [if_pos hfirst, RelativePath.of, foldl_enter_down _ hdown.2]
    simp [hfirst]
  · -- the walk leaves the last name of `redirectTo` and goes down by a longer one
    obtain ⟨hslash, hcases⟩ := first_component hrest
    have hzero : 0 ∉ first := by
      obtain ⟨rfl, -⟩ | ⟨t, rfl, -⟩ := hcases
      · exact h0
      · exact fun h => h0 (List.mem_append_left _ h)
    have hlonger := plainName_append hlast hslash hzero
    have hne : redirectTo ≠ [] := by
      rintro rfl
      exact hlast.1 rfl
    have hway : RelativePath.of ([[dot, dot]] ++ (lastComponent redirectTo ++ first) :: after) =
        ⟨1, (lastComponent redirectTo ++ first) :: after.filter (PlainName ·)⟩ := by
      have hdots : [dot, dot] ∉ (lastComponent redirectTo ++ first) :: after := by
        rw [List.mem_cons, not_or]
        exact ⟨fun h => hlonger.2.2.2.2 h.symm, hdown.2⟩
      have hup : RelativePath.enter ⟨0, []⟩ [dot, dot] = ⟨1, []⟩ := by decide
      rw [RelativePath.of, List.singleton_append, List.foldl_cons, hup, foldl_enter_down _ hdots]
      simp [hlonger]
    rw [if_neg hfirst, wayBack, if_pos hlast, hway, resolve_eq_enter hne,
      CanonicalPath.enter_components hlast]
    simp [List.rtake_concat_succ, hfirst]

-- ---------------------------------------------------------------------------
-- What the hook decides
-- ---------------------------------------------------------------------------

section Hook

variable [DecidableEq Vnode] {ctx : VfsContext} {dvp : Vnode} {cnp : Componentname}

/-- The comparison is for a path that begins with `redirectTo` in any letter case. -/
theorem strncasecmpEq_iff (hredirectTo : 0 ∉ redirectTo) (hcn : 0 ∉ cn) :
    strncasecmpEq redirectTo.length (cn ++ [0]) (redirectTo ++ [0]) = some true ↔
      BeginsWith redirectTo cn := by
  rw [strncasecmpEq_terminated hcn hredirectTo, Option.some.injEq, decide_eq_true_eq]
  rfl

/-- A request of an application is let through just if the comparison says so. -/
theorem letThrough_iff (hctx : ctx.application = some redirectTo) :
    LetThrough ctx dvp cnp ↔
      strncasecmpEq redirectTo.length (cnp.cn_pnbuf ++ [0]) (redirectTo ++ [0]) = some true := by
  have hcreateNew : ctx.createNew = some ⟨redirectTo, true⟩ := by
    rw [VfsContext.createNew, hctx, Option.map_some]
  have hopenExisting : ctx.openExisting = some ⟨redirectTo, false⟩ := by
    rw [VfsContext.openExisting, hctx, Option.map_some]
  unfold LetThrough qvrVnopLookupHookEx2
  rw [hcreateNew, hopenExisting]
  simp only [trace_notInRecursion, Bool.false_eq_true, if_false]
  constructor
  · rintro ⟨r, h⟩
    by_contra hpath
    -- a request that is redirected enters the recursion before anything else
    rw [if_neg hpath] at h
    obtain ⟨_, _, hlog, -⟩ := trace_call.mp h
    rw [List.cons.injEq, Sigma.mk.injEq] at hlog
    cases hlog.1.1
  · intro hpath
    rw [if_pos hpath]
    exact ⟨(0, none), trace_perform.mpr rfl⟩

/-- The hook lets only accesses to the protected storage through exactly for the paths
that do not begin with `redirectTo` or come back to it. -/
theorem letThrough_inStorage_iff (hctx : ctx.application = some redirectTo)
    (hne : redirectTo ≠ []) (hredirectTo : 0 ∉ redirectTo) (hcn : 0 ∉ cnp.cn_pnbuf)
    (dvp : Vnode) (cwd : CanonicalPath) :
    (LetThrough ctx dvp cnp → InStorage cwd redirectTo cnp.cn_pnbuf) ↔
      (BeginsWith redirectTo cnp.cn_pnbuf → ComesBack cwd redirectTo cnp.cn_pnbuf) := by
  rw [letThrough_iff hctx, strncasecmpEq_iff hredirectTo hcn]
  exact forall_congr' fun hbegins => inStorage_iff hne hbegins

/-- "/work1/my_word", in the table of applications -/
def myWord : List UInt8 := [47, 119, 111, 114, 107, 49, 47, 109, 121, 95, 119, 111, 114, 100]

/-- A lookup of `/work1/my_word` with `name` behind it. -/
def lookupBehind (name : List UInt8) : Componentname :=
  ⟨myWord ++ name, myWord.length + name.length, name, name.length, .LOOKUP, true, 0⟩

/-- A lookup of `/work1/my_words` is let through. -/
theorem letThrough_not_inStorage : ¬∀ (redirectTo : List UInt8) (ctx : VfsContext) (dvp : Nat)
    (cnp : Componentname) (cwd : CanonicalPath), ctx.application = some redirectTo →
      redirectTo ≠ [] → 0 ∉ redirectTo → 0 ∉ cnp.cn_pnbuf → LetThrough ctx dvp cnp →
        InStorage cwd redirectTo cnp.cn_pnbuf := by
  intro h
  have hthrough : LetThrough (⟨some myWord⟩ : VfsContext) (0 : Nat) (lookupBehind [115]) :=
    (letThrough_iff rfl).mpr (by decide)
  have hstorage := h myWord ⟨some myWord⟩ 0 (lookupBehind [115]) root rfl (by decide) (by decide)
    (by decide) hthrough
  exact absurd hstorage (by decide)

/-- "/../my_word/a" -/
def outAndBack : List UInt8 :=
  [47, 46, 46, 47, 109, 121, 95, 119, 111, 114, 100, 47, 97]

/-- `/work1/my_word/../my_word/a` comes back. -/
theorem letThrough_inStorage_iff_outAndBack :
    BeginsWith myWord (lookupBehind outAndBack).cn_pnbuf ∧
    ComesBack root myWord (lookupBehind outAndBack).cn_pnbuf ∧
    ((LetThrough (⟨some myWord⟩ : VfsContext) (0 : Nat) (lookupBehind outAndBack) →
        InStorage root myWord (lookupBehind outAndBack).cn_pnbuf) ↔
      (BeginsWith myWord (lookupBehind outAndBack).cn_pnbuf →
        ComesBack root myWord (lookupBehind outAndBack).cn_pnbuf)) := by
  refine ⟨rfl, by decide, ?_⟩
  exact letThrough_inStorage_iff rfl (by decide) (by decide) (by decide) 0 root

end Hook

end VfsRedirector
