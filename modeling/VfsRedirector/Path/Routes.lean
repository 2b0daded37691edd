import VfsRedirector.Path.Collision

/-!
# The two routes to the name of a backing file

The daemon is told the name by the lookup and create hooks, which convert the
path that the application used, `cn_pnbuf`; the name goes to it in a field of
`MAXPATHLEN` bytes, and as the empty string when it does not fit.
`QvrGetBackingVnodeForRedirectedIO` looks up the name that it gets from the path
of the shadow vnode, which `vn_getpath` gives in its canonical form.

Nothing in between makes `cn_pnbuf` canonical, so the routes agree on some of
its spellings only. `RoutesAgree` is when they do (`routes_agree_iff`).

## Results

* `shadowCopy_eq` — the shadow path of a path.
* `routes_agree_iff` — when the daemon is told the name that is then looked up.
-/

namespace VfsRedirector

open Library CanonicalPath

variable {path dir name rest cn : List UInt8} {redirectTo : RedirectTo} {cwd : CanonicalPath}

def MAXPATHLEN : Nat := 1024

-- ---------------------------------------------------------------------------
-- As in the source
-- ---------------------------------------------------------------------------

/-- How `sendVFSDataToClient` fills a `char[MAXPATHLEN]`. -/
def copyPathField (field : List UInt8) (path : Option (List UInt8)) : Option (List UInt8) :=
  match path with
  | none => write field 0 [0]
  | some path => do
    let length ← strlen path
    if length + 1 ≤ field.length then memcpy field 0 path (length + 1) else write field 0 [0]

/-- The string in `Parameters.Lookup.redirectedPath` of the daemon, for a lookup
or a create that names a file by `cn_pnbuf`; `field` is what `data` has there
before. It is not sent when a conversion fails. -/
def redirectedPathOfClient (cn_pnbuf redirectTo field : List UInt8)
    (foundShadow found : Option (Nat → UInt8)) : Option (List UInt8) := do
  match ← qvrConvertToShadowCopyPath cn_pnbuf foundShadow with
  | .error _ => none
  | .ok (shadowPath, _) =>
    match ← qvrConvertToRedirectedPath shadowPath redirectTo found with
    | .error _ => none
    | .ok (redirectedShadowPath, _) => do
      let field ← copyPathField field (some redirectedShadowPath)
      cstring field

/-- The daemon is sent `name`, whatever there is in memory. -/
def SentToClient (redirectTo : RedirectTo) (cn_pnbuf name : List UInt8) : Prop :=
  ∀ rest rest' field foundShadow found, field.length = MAXPATHLEN →
    redirectedPathOfClient (cn_pnbuf ++ 0 :: rest) (redirectTo.bytes ++ 0 :: rest') field
      (some foundShadow) (some found) = some name

/-- `QvrGetBackingVnodeForRedirectedIO` gives `name` to `vnode_lookup`, for a
vnode whose path is `vnodePath`. -/
def LookedUp (redirectTo : RedirectTo) (vnodePath name : List UInt8) : Prop :=
  ∀ rest rest' found, (qvrConvertToRedirectedPath (vnodePath ++ 0 :: rest)
    (redirectTo.bytes ++ 0 :: rest') (some found)).string = some name

-- ---------------------------------------------------------------------------
-- When they agree
-- ---------------------------------------------------------------------------

/-- The components of a spelling in front of the last one. -/
def directoryNames (cn : List UInt8) : List (List UInt8) :=
  ((if cn.head? = some slash then cn.tail else cn).splitOn slash).dropLast

/-- The redirected path of the shadow file fits in the field. -/
def FitsInField (redirectTo : RedirectTo) (cn : List UInt8) : Prop :=
  redirectTo.bytes.length + (if cn.head? = some slash then 0 else 1) + cn.length +
    (if IsShadowName (lastComponent cn) then 0 else shadowPrefix.length) < MAXPATHLEN

/-- An absolute path has no empty, `.` or `..` component before the last one; the
directory of a relative path is spelled like the path of that directory, except
that `/` and `$` may stand for each other. -/
def RoutesAgree (redirectTo : RedirectTo) (cwd : CanonicalPath) (cn : List UInt8) : Prop :=
  FitsInField redirectTo cn ∧
    if cn.head? = some slash then ∀ name ∈ directoryNames cn, PlainName name
    else flatten (join (directoryNames cn)) =
      flatten (join (cwd.follow (directoryNames cn)).components)

-- ---------------------------------------------------------------------------
-- What each route gives
-- ---------------------------------------------------------------------------

/-- The field of a message holds the name if it fits, and else nothing. -/
theorem copyPathField_string {field : List UInt8} (h0 : 0 ∉ name)
    (hfield : field.length = MAXPATHLEN) :
    (copyPathField field (some (name ++ 0 :: rest))).bind cstring =
      some (if name.length < MAXPATHLEN then name else []) := by
  rw [copyPathField, strlen_terminated h0, Option.bind_eq_bind, Option.bind_some, hfield]
  by_cases hfits : name.length < MAXPATHLEN
  · obtain ⟨l, b, rfl, hl⟩ := split_at (p := field) (n := name.length + 1) (by omega)
    have hcopy := @memcpy_string _ rest _ [] b hl
    simp only [List.nil_append, List.length_nil] at hcopy
    rw [if_pos (by omega), hcopy, Option.bind_some, cstring_terminated h0, if_pos hfits]
  · obtain ⟨l, b, rfl, hl⟩ := split_at (p := field) (n := [(0 : UInt8)].length)
      (by rw [hfield]; decide)
    have hwrite := write_split (a := []) (b := b) hl
    simp only [List.nil_append, List.length_nil] at hwrite
    rw [if_neg (by omega), hwrite, Option.bind_some, if_neg hfits]
    rfl

/-- The daemon is told the redirected shadow path of the name as it was passed, if it fits. -/
theorem sentToClient (redirectTo : RedirectTo) (h0 : 0 ∉ cn) (hlen : cn.length < MAXPATHLEN) :
    SentToClient redirectTo cn (if (redirectedShadow redirectTo.bytes cn).length < MAXPATHLEN
      then redirectedShadow redirectTo.bytes cn else []) := by
  intro rest rest' field foundShadow found hfield
  have hint : cn.length < 2 ^ 31 := by
    rw [MAXPATHLEN] at hlen
    omega
  have hshadow0 := zero_notMem_shadowCopy h0
  obtain ⟨junk, hshadow, -⟩ := @qvrConvertToShadowCopyPath_eq _ rest h0 hint foundShadow
  obtain ⟨junk', size, hredirect, -⟩ := @qvrConvertToRedirectedPath_eq _ _ junk rest'
    hshadow0 redirectTo.noNul found
  unfold redirectedPathOfClient
  rw [hshadow, Option.bind_eq_bind, Option.bind_some]
  dsimp only
  rw [hredirect, Option.bind_some]
  exact copyPathField_string (zero_notMem_redirected hshadow0 redirectTo.noNul) hfield

/-- The hook looks up the redirected name of the path that the vnode has. -/
theorem lookedUp (redirectTo : RedirectTo) (p : CanonicalPath) :
    LookedUp redirectTo p.string (redirected redirectTo.bytes p.string) := by
  intro rest rest' found
  exact qvrConvertToRedirectedPath_string p.zero_notMem_string redirectTo.noNul found

-- ---------------------------------------------------------------------------
-- The spelling of the shadow path
-- ---------------------------------------------------------------------------

/-- The last component of the shadow path. -/
def shadowName (name : List UInt8) : List UInt8 :=
  if IsShadowName name then name else shadowPrefix ++ name

/-- A shadow path has the directories of the path, and the shadow name. -/
theorem shadowCopy_eq (path : List UInt8) :
    shadowCopy path = directoryPart path ++ shadowName (lastComponent path) := by
  rw [shadowCopy, shadowName]
  split
  · rw [directoryPart_append_lastComponent]
  · rfl

/-- A shadow name is never `.` or `..`. -/
theorem plainName_shadowName (hslash : slash ∉ name) (h0 : 0 ∉ name) :
    PlainName (shadowName name) := by
  rw [shadowName]
  split
  · next h =>
    have hlong : (name.take shadowPrefix.length).length = shadowPrefix.length := by
      have hmap := congrArg List.length h
      rwa [List.length_map, List.length_map] at hmap
    have hfour : 4 ≤ name.length := by
      rw [List.length_take] at hlong
      simp only [shadowPrefix, List.length_cons, List.length_nil] at hlong
      omega
    refine ⟨?_, hslash, h0, ?_, ?_⟩ <;> · rintro rfl; simp at hfour
  · rw [PlainName, List.mem_append, List.mem_append, not_or, not_or]
    refine ⟨by simp [shadowPrefix], ⟨by decide, hslash⟩, ⟨by decide, h0⟩, ?_, ?_⟩ <;>
      simp [shadowPrefix]

/-- What follows a directory part is the last component. -/
theorem splitOn_directoryPart (hdir : EndsWithSlash dir) :
    ∃ names, ∀ name, slash ∉ name → (dir ++ name).splitOn slash = names ++ [name] := by
  obtain rfl | ⟨d, rfl⟩ := hdir
  · exact ⟨[], fun name h => List.splitOn_eq_singleton h⟩
  · refine ⟨d.splitOn slash, fun name h => ?_⟩
    rw [List.append_assoc, List.singleton_append, List.splitOn_append_cons_self,
      List.splitOn_eq_singleton h]

/-- The path of the shadow file, from the components of a spelling. -/
theorem string_follow (hname : PlainName name) (p : CanonicalPath) (names : List (List UInt8)) :
    (p.follow (names ++ [name])).string = join (p.follow names).components ++ slash :: name := by
  have hcomponents :
      (p.follow (names ++ [name])).components = (p.follow names).components ++ [name] := by
    rw [follow_append, follow_components (by simpa using hname)]
  rw [string, hcomponents, if_neg (by simp), join_append]
  simp [join]

/-- The shadow name of a last component can be that of a file. -/
theorem plainName_lastComponent (h0 : 0 ∉ cn) : PlainName (shadowName (lastComponent cn)) := by
  rw [← directoryPart_append_lastComponent cn, List.mem_append, not_or] at h0
  exact plainName_shadowName (slash_notMem_lastComponent cn) h0.2

/-- A shadow path is not empty. -/
theorem shadowCopy_ne_nil (h0 : 0 ∉ cn) : shadowCopy cn ≠ [] := by
  intro hnil
  rw [shadowCopy_eq, List.append_eq_nil_iff] at hnil
  exact (plainName_lastComponent h0).1 hnil.2

/-- The components of an absolute shadow path are its directories and the shadow name. -/
theorem absolute_spelling {c : List UInt8} (h0 : 0 ∉ slash :: c) :
    ∃ t name, PlainName name ∧ shadowCopy (slash :: c) = slash :: t ∧
      t.splitOn slash = directoryNames (slash :: c) ++ [name] := by
  obtain ⟨d, hdir, hc⟩ := directoryPart_of_slash (t := c)
  have hd : EndsWithSlash d := by
    obtain hnil | ⟨d', hend⟩ := endsWithSlash_directoryPart (slash :: c)
    · rw [hdir] at hnil
      cases hnil
    · rw [hdir] at hend
      cases d' with
      | nil => exact .inl (by simpa using hend)
      | cons x d' => exact .inr ⟨d', by simpa using (List.cons.inj hend).2⟩
  obtain ⟨names, hnames⟩ := splitOn_directoryPart hd
  have hplain := plainName_lastComponent h0
  refine ⟨d ++ shadowName (lastComponent (slash :: c)), _, hplain, ?_, ?_⟩
  · rw [shadowCopy_eq, hdir, List.cons_append]
  · have hdirectory : directoryNames (slash :: c) = names := by
      rw [directoryNames, List.head?_cons, if_pos rfl, List.tail_cons, hc,
        hnames _ (slash_notMem_lastComponent _), List.dropLast_concat]
    rw [hnames _ hplain.2.1, hdirectory]

/-- The components of a relative shadow path are its directories and the shadow name. -/
theorem relative_spelling (h0 : 0 ∉ cn) (hcn : cn.head? ≠ some slash) :
    ∃ name, PlainName name ∧ (shadowCopy cn).head? ≠ some slash ∧
      (shadowCopy cn).splitOn slash = directoryNames cn ++ [name] := by
  obtain ⟨names, hnames⟩ := splitOn_directoryPart (endsWithSlash_directoryPart cn)
  have hplain := plainName_lastComponent h0
  have hparts := directoryPart_append_lastComponent cn
  refine ⟨_, hplain, ?_, ?_⟩
  · rw [shadowCopy_eq]
    cases hd : directoryPart cn with
    | nil =>
      obtain ⟨x, name, hx⟩ := List.exists_cons_of_ne_nil hplain.1
      have hslash := hplain.2.1
      rw [hx, List.mem_cons, not_or] at hslash
      rw [hx, List.nil_append, List.head?_cons]
      simpa using Ne.symm hslash.1
    | cons x d =>
      rw [hd] at hparts
      rw [← hparts] at hcn
      exact hcn
  · have hdirectory : directoryNames cn = names := by
      rw [directoryNames, if_neg hcn, ← hparts, hnames _ (slash_notMem_lastComponent _),
        List.dropLast_concat]
    rw [shadowCopy_eq, hnames _ hplain.2.1, hdirectory]

/-- The prefix makes a path longer by its length. -/
theorem length_shadowCopy (path : List UInt8) : (shadowCopy path).length =
    path.length + (if IsShadowName (lastComponent path) then 0 else shadowPrefix.length) := by
  have hlen := congrArg List.length (directoryPart_append_lastComponent path)
  rw [List.length_append] at hlen
  rw [shadowCopy]
  split
  · rfl
  · rw [List.length_append, List.length_append]
    omega

/-- A shadow path begins with a slash just if the path does. -/
theorem shadowCopy_head (h0 : 0 ∉ cn) :
    (shadowCopy cn).head? = some slash ↔ cn.head? = some slash := by
  by_cases hcn : cn.head? = some slash
  · obtain ⟨c, rfl⟩ : ∃ c, cn = slash :: c := ⟨cn.tail, (List.cons_head?_tail hcn).symm⟩
    obtain ⟨t, -, -, ht, -⟩ := absolute_spelling h0
    rw [ht]
    rfl
  · obtain ⟨-, -, hhead, -⟩ := relative_spelling h0 hcn
    simp [hcn, hhead]

/-- Whether the name fits can be said by the lengths of its parts. -/
theorem fitsInField_iff (h0 : 0 ∉ cn) :
    (redirectedShadow redirectTo.bytes cn).length < MAXPATHLEN ↔ FitsInField redirectTo cn := by
  have hne := shadowCopy_ne_nil h0
  have hbetween :
      (slashBetween (shadowCopy cn)).length = if cn.head? = some slash then 0 else 1 := by
    rw [slashBetween]
    by_cases hcn : cn.head? = some slash
    · rw [if_pos (.inr ((shadowCopy_head h0).mpr hcn)), if_pos hcn]
      rfl
    · rw [if_neg (by simp [hne, shadowCopy_head h0, hcn]), if_neg hcn]
      rfl
  rw [redirectedShadow, length_redirected redirectTo.ne_nil, hbetween, length_shadowCopy,
    FitsInField, Nat.add_assoc _ cn.length]

-- ---------------------------------------------------------------------------
-- The two names
-- ---------------------------------------------------------------------------

/-- An absolute path is its directories and its name, joined. -/
theorem join_spelling {t : List UInt8} {names : List (List UInt8)}
    (h : t.splitOn slash = names ++ [name]) : slash :: t = join names ++ slash :: name := by
  rw [← join_splitOn t, h, join_append]
  simp [join]

/-- For an absolute path the routes agree if all its directories are plain names. -/
theorem absolute_routes {c : List UInt8} (h0 : 0 ∉ slash :: c) :
    redirectedShadow redirectTo.bytes (slash :: c) =
        redirected redirectTo.bytes (resolve cwd (shadowCopy (slash :: c))).string ↔
      ∀ name ∈ directoryNames (slash :: c), PlainName name := by
  obtain ⟨t, name, hname, hshadow, hsplit⟩ := absolute_spelling h0
  have hjoin := join_spelling hsplit
  have hstring := string_follow hname root (directoryNames (slash :: c))
  rw [redirectedShadow, hshadow, resolve_slash, hsplit]
  constructor
  · intro h
    obtain ⟨u, hu, -⟩ := (root.follow (directoryNames (slash :: c) ++ [name])).string_eq_slash_cons
    have hlen := congrArg List.length h
    rw [length_redirected redirectTo.ne_nil, length_redirected redirectTo.ne_nil, hu,
      slashBetween, slashBetween, if_pos (.inr rfl), if_pos (.inr rfl), ← hu, hstring, hjoin,
      List.length_append, List.length_append] at hlen
    apply (length_join_follow root (directoryNames (slash :: c))).2
    rw [show join root.components = [] from rfl, List.length_nil]
    omega
  · intro h
    rw [hstring, follow_components h, hjoin]
    rfl

/-- A path without a slash in front gets one, and is flattened. -/
theorem redirected_of_relative (hne : path ≠ []) (hpath : path.head? ≠ some slash) :
    redirected redirectTo.bytes path = redirectTo.bytes ++ slash :: flatten path := by
  rw [redirected, if_neg redirectTo.ne_nil, slashBetween, if_neg (by simp [hne, hpath]),
    flattenName_of_head hpath]
  rfl

/-- For a relative path they agree if the directories make the same flat name from the working
directory. -/
theorem relative_routes (h0 : 0 ∉ cn) (hcn : cn.head? ≠ some slash) :
    redirectedShadow redirectTo.bytes cn =
        redirected redirectTo.bytes (resolve cwd (shadowCopy cn)).string ↔
      flatten (join (directoryNames cn)) =
        flatten (join (cwd.follow (directoryNames cn)).components) := by
  obtain ⟨name, hname, hhead, hsplit⟩ := relative_spelling h0 hcn
  have hjoin := join_spelling hsplit
  have hne := shadowCopy_ne_nil h0
  obtain ⟨u, hu, hhead'⟩ := (cwd.follow (directoryNames cn ++ [name])).string_eq_slash_cons
  have hstring := string_follow hname cwd (directoryNames cn)
  rw [redirectedShadow, resolve, if_neg hhead, hsplit, redirected_of_relative hne hhead, hu,
    redirected_of_slash redirectTo.ne_nil hhead', List.append_cancel_left_eq, List.cons.injEq]
  have hcancel : flatten (shadowCopy cn) = flatten u ↔
      flatten (slash :: shadowCopy cn) = flatten (slash :: u) := by
    simp [flatten]
  rw [hcancel, hjoin, ← hu, hstring, flatten_append, flatten_append, List.append_cancel_right_eq]
  simp

/-- The daemon is told the name that is looked up exactly when `RoutesAgree`. -/
theorem routes_agree_iff (redirectTo : RedirectTo) (cwd : CanonicalPath) (cn : List UInt8)
    (h0 : 0 ∉ cn) (hlen : cn.length < MAXPATHLEN) :
    ∃ a b, SentToClient redirectTo cn a ∧
      LookedUp redirectTo (resolve cwd (shadowCopy cn)).string b ∧
      (a = b ↔ RoutesAgree redirectTo cwd cn) := by
  refine ⟨_, _, sentToClient redirectTo h0 hlen, lookedUp redirectTo _, ?_⟩
  rw [RoutesAgree, ← fitsInField_iff h0]
  by_cases hfits : (redirectedShadow redirectTo.bytes cn).length < MAXPATHLEN
  · rw [if_pos hfits]
    by_cases hcn : cn.head? = some slash
    · obtain ⟨c, rfl⟩ : ∃ c, cn = slash :: c := ⟨cn.tail, (List.cons_head?_tail hcn).symm⟩
      rw [absolute_routes h0, if_pos hcn]
      simp [hfits]
    · rw [relative_routes h0 hcn, if_neg hcn]
      simp [hfits]
  · rw [if_neg hfits]
    have hne : redirected redirectTo.bytes (resolve cwd (shadowCopy cn)).string ≠ [] := by
      rw [redirected, if_neg redirectTo.ne_nil]
      simp [redirectTo.ne_nil]
    simp [hfits, Ne.symm hne]

/-- "/a//b" -/
def pathTwoSlashes : List UInt8 := [47, 97, 47, 47, 98]

/-- For `/a//b` the daemon is told `/w/a$$.QS_b`, and the hook looks up `/w/a$.QS_b`. -/
theorem routes_part : ¬∀ (redirectTo : RedirectTo) (cwd : CanonicalPath) (cn : List UInt8),
    0 ∉ cn → cn.length < MAXPATHLEN → ∀ a b, SentToClient redirectTo cn a →
      LookedUp redirectTo (resolve cwd (shadowCopy cn)).string b → a = b := by
  intro h
  have h0 : 0 ∉ pathTwoSlashes := by decide
  have hlen : pathTwoSlashes.length < MAXPATHLEN := by decide
  have heq := h workDirectory root pathTwoSlashes h0 hlen _ _ (sentToClient workDirectory h0 hlen)
    (lookedUp workDirectory _)
  exact absurd heq (by decide)

/-- The routes for `/a//b` again. -/
theorem routes_agree_iff_two_slashes : ∃ a b, SentToClient workDirectory pathTwoSlashes a ∧
    LookedUp workDirectory (resolve root (shadowCopy pathTwoSlashes)).string b ∧
    (a = b ↔ RoutesAgree workDirectory root pathTwoSlashes) :=
  routes_agree_iff workDirectory root pathTwoSlashes (by decide) (by decide)

/-- On a canonical path only its length matters. -/
theorem routesAgree_canonical (p : CanonicalPath) (hfits : FitsInField redirectTo p.string) :
    RoutesAgree redirectTo cwd p.string := by
  refine ⟨hfits, ?_⟩
  by_cases hroot : p.components = []
  · rw [string, if_pos hroot, List.head?_cons, if_pos rfl]
    decide
  · obtain ⟨t, hstring, hsplit⟩ := string_splitOn hroot
    rw [hstring, List.head?_cons, if_pos rfl, directoryNames, List.head?_cons, if_pos rfl,
      List.tail_cons, hsplit]
    exact fun name hname => p.plain name (List.dropLast_subset _ hname)

end VfsRedirector
