import VfsRedirector.Path.Shadow

/-!
# The strings that the conversions return

Each conversion byte for byte, and how the two names of a rename belong together.

The conversion to a shadow path keeps the length of the path in an `int`. A path
that it makes from one of just below 2^31 bytes is too long for it, so a second
conversion gives the same string as the first one only below that length
(`shadow_path_inserted`). `shadowString` is the string for a path of any length,
as far as there is one; both names of a rename are made from it, whatever the
length (`full_path_ends_with_bare_name`).

## Results

* `shadow_path_inserted` — the shadow path, in its buffer.
* `redirected_path_made` — the redirected path, in its buffer.
* `full_path_ends_with_bare_name` — the two names that a rename computes.
-/

namespace VfsRedirector

open Library

variable {path file dir name rest rest' b : List UInt8} {n pos : Nat}

-- ---------------------------------------------------------------------------
-- A path of any length
-- ---------------------------------------------------------------------------

/-- The scan reads nothing behind where it begins. -/
theorem afterSlash_append (p b : List UInt8) (h : n ≤ p.length) :
    afterSlash (p ++ b) n = afterSlash p n := by
  induction n with
  | zero => rfl
  | succ n ih =>
    rw [afterSlash, afterSlash, List.getElem?_append_left (by omega), ih (by omega)]

/-- The scan ends where it began at the latest. -/
theorem afterSlash_le (h : afterSlash path n = some pos) : pos ≤ n := by
  induction n with
  | zero =>
    rw [afterSlash, Option.some.injEq] at h
    omega
  | succ n ih =>
    rw [afterSlash, Option.bind_eq_bind, Option.bind_eq_some_iff] at h
    obtain ⟨c, -, hc⟩ := h
    by_cases hslash : c = slash
    · rw [if_neg (not_not.mpr hslash), Option.some.injEq] at hc
      omega
    · rw [if_pos hslash] at hc
      have := ih hc
      omega

/-- A length is not less than it is as an `int`. -/
theorem bmod_le (n : Nat) : (n : Int).bmod (2 ^ 32) ≤ n := by
  rw [Int.bmod_def]
  push_cast
  split_ifs <;> omega

/-- What is behind the terminator does not matter. -/
theorem fileNamePos_append (path b : List UInt8) :
    fileNamePos (path ++ 0 :: b) path.length = fileNamePos (path ++ [0]) path.length := by
  have hle := bmod_le path.length
  have happend : path ++ 0 :: b = path ++ [0] ++ b := by simp
  unfold fileNamePos
  dsimp only
  rw [happend, afterSlash_append]
  rw [List.length_append, List.length_singleton]
  omega

/-- The name begins at the terminator at the latest. -/
theorem fileNamePos_le (h : fileNamePos (path ++ [0]) path.length = some pos) :
    pos ≤ path.length := by
  have hle := bmod_le path.length
  unfold fileNamePos at h
  dsimp only at h
  split at h
  · cases h
  · by_cases hlast : ((path.length : Int).bmod (2 ^ 32) + 1).toNat ≤ path.length
    · have := afterSlash_le h
      omega
    · have hn : ((path.length : Int).bmod (2 ^ 32) + 1).toNat = path.length + 1 := by omega
      have hread : (path ++ [0])[path.length]? = some 0 := List.getElem?_concat_length
      rw [hn, afterSlash, hread, Option.bind_eq_bind, Option.bind_some, if_pos (by decide)] at h
      exact afterSlash_le h

/-- Below -1, for as many lengths as are negative as an `int`. -/
theorem fileNamePos_negative (hlo : 2 ^ 31 ≤ n) (hhi : n < 2 ^ 32 - 1) :
    fileNamePos path n = none := by
  have hpos : (n : Int).bmod (2 ^ 32) < -1 := by
    rw [Int.bmod_def]
    push_cast
    split_ifs <;> omega
  unfold fileNamePos
  dsimp only
  rw [if_pos hpos]

/-- The string that the conversion of a path of any length leaves, if its scan
stays inside the buffer. -/
def shadowString (path : List UInt8) : Option (List UInt8) :=
  (fileNamePos (path ++ [0]) path.length).map fun pos =>
    if IsShadowName (path.drop pos) then path
    else path.take pos ++ (shadowPrefix ++ path.drop pos)

/-- Where there is a shadow string, the conversion puts it into its buffer. -/
theorem converted_of_shadowString {s : List UInt8} (h0 : 0 ∉ path) (h : shadowString path = some s)
    (rest : List UInt8) (found : Nat → UInt8) :
    ∃ junk size, qvrConvertToShadowCopyPath (path ++ 0 :: rest) (some found) =
      some (.ok (s ++ 0 :: junk, size)) := by
  rw [shadowString, Option.map_eq_some_iff] at h
  obtain ⟨pos, hpos, rfl⟩ := h
  have hparts := List.take_append_drop pos path
  have hlen : (path.take pos).length = pos := List.length_take_of_le (fileNamePos_le hpos)
  obtain ⟨junk, hat, -⟩ := @qvrConvertToShadowCopyPath_at (path.take pos) (path.drop pos) rest
    (by rw [hparts]; exact h0)
    (fun b => by rw [← List.append_assoc, hparts, fileNamePos_append, hlen, hpos]) found
  rw [← List.append_assoc, hparts] at hat
  exact ⟨junk, _, hat⟩

/-- Where there is none, the conversion reads in front of the path. -/
theorem not_converted_of_shadowString (h0 : 0 ∉ path) (h : shadowString path = none)
    (rest : List UInt8) (found : Nat → UInt8) :
    qvrConvertToShadowCopyPath (path ++ 0 :: rest) (some found) = none := by
  obtain ⟨buffer, halloc, hsize⟩ := allocate_some found (path.length + shadowPrefix.length + 1)
  obtain ⟨l, b, rfl, hl⟩ := split_at (p := buffer) (n := path.length + 1) (by omega)
  have hcopy := @memcpy_string _ rest _ [] b hl
  rw [shadowString, Option.map_eq_none_iff] at h
  simp only [List.nil_append, List.length_nil] at hcopy
  unfold qvrConvertToShadowCopyPath
  rw [strlen_terminated h0, Option.bind_eq_bind, Option.bind_some]
  dsimp only
  rw [halloc]
  dsimp only
  rw [hcopy, Option.bind_eq_bind, Option.bind_some, fileNamePos_append, h]
  rfl

/-- The shadow string of a path whose length is an `int` is its shadow path. -/
theorem shadowString_eq (hlen : path.length < 2 ^ 31) :
    shadowString path = some (shadowCopy path) := by
  have hparts := directoryPart_append_lastComponent path
  have hpos := @fileNamePos_eq _ _ [] (endsWithSlash_directoryPart path)
    (slash_notMem_lastComponent path) (by rw [hparts]; exact hlen)
  rw [← List.append_assoc, hparts] at hpos
  rw [shadowString, hpos, Option.map_some, shadowCopy]
  have htake := @List.take_left _ (directoryPart path) (lastComponent path)
  have hdrop := @List.drop_left _ (directoryPart path) (lastComponent path)
  rw [hparts] at htake hdrop
  rw [htake, hdrop]

/-- The prefix is in the string, so it has a byte that is no slash. -/
theorem shadowString_dot {s : List UInt8} (h : shadowString path = some s) : 46 ∈ s := by
  rw [shadowString, Option.map_eq_some_iff] at h
  obtain ⟨pos, -, rfl⟩ := h
  split
  · next hshadow =>
    apply List.drop_subset pos path
    rw [IsShadowName] at hshadow
    cases hname : path.drop pos with
    | nil =>
      rw [hname] at hshadow
      cases hshadow
    | cons c name =>
      rw [hname] at hshadow
      have hc := (List.cons.inj hshadow).1
      rw [show tolower 46 = 46 from rfl, tolower_eq_iff (by decide)] at hc
      rw [hc]
      exact List.mem_cons_self
  · exact List.mem_append_right _ (List.mem_append_left _ (by decide))

/-- A shadow string is a C string. -/
theorem zero_notMem_shadowString {s : List UInt8} (h0 : 0 ∉ path)
    (h : shadowString path = some s) : 0 ∉ s := by
  rw [shadowString, Option.map_eq_some_iff] at h
  obtain ⟨pos, -, rfl⟩ := h
  split
  · exact h0
  · rw [List.mem_append, List.mem_append, not_or, not_or]
    exact ⟨fun hz => h0 (List.take_subset _ _ hz), by decide,
      fun hz => h0 (List.drop_subset _ _ hz)⟩

-- ---------------------------------------------------------------------------
-- The shadow path
-- ---------------------------------------------------------------------------

/-- A name with the prefix is a shadow name. -/
theorem isShadowName_prefixed (name : List UInt8) : IsShadowName (shadowPrefix ++ name) := by
  rw [IsShadowName, List.take_left]

/-- The last component of a shadow path begins with the prefix. -/
theorem shadowCopy_idempotent (path : List UInt8) :
    shadowCopy (shadowCopy path) = shadowCopy path := by
  by_cases hshadow : IsShadowName (lastComponent path)
  · rw [shadowCopy, shadowCopy, if_pos hshadow, if_pos hshadow]
  · have hslash : slash ∉ shadowPrefix ++ lastComponent path := by
      rw [List.mem_append, not_or]
      exact ⟨by decide, slash_notMem_lastComponent path⟩
    have hcopy : shadowCopy path = directoryPart path ++ (shadowPrefix ++ lastComponent path) := by
      rw [shadowCopy, if_neg hshadow]
    have hlast := lastComponent_append (endsWithSlash_directoryPart path) hslash
    rw [hcopy, shadowCopy, hlast, if_pos (isShadowName_prefixed _)]

/-- With memory for it the shadow path is what the buffer holds. -/
theorem qvrConvertToShadowCopyPath_string (h0 : 0 ∉ path) (hlen : path.length < 2 ^ 31)
    (found : Nat → UInt8) :
    (qvrConvertToShadowCopyPath (path ++ 0 :: rest) (some found)).string =
      some (shadowCopy path) := by
  obtain ⟨junk, hconvert, -⟩ := @qvrConvertToShadowCopyPath_eq _ rest h0 hlen found
  rw [hconvert]
  exact cstring_terminated (zero_notMem_shadowCopy h0)

/-- The shadow path in its buffer: the path itself where the last component has
the prefix already, else the prefix goes in front of that component. To convert
the result again changes nothing, as long as the result is shorter than 2^31. -/
theorem shadow_path_inserted (path rest : List UInt8) (found : Nat → UInt8) (h0 : 0 ∉ path)
    (hlen : path.length < 2 ^ 31) :
    ∃ shadow junk, qvrConvertToShadowCopyPath (path ++ 0 :: rest) (some found) =
        some (.ok (shadow ++ 0 :: junk, path.length + 5)) ∧
      (shadow ++ 0 :: junk).length = path.length + 5 ∧ 0 ∉ shadow ∧
      (IsShadowName (lastComponent path) → shadow = path) ∧
      (¬IsShadowName (lastComponent path) →
        shadow = directoryPart path ++ (shadowPrefix ++ lastComponent path)) ∧
      ((∀ rest' found', (qvrConvertToShadowCopyPath (shadow ++ 0 :: rest') (some found')).string =
        some shadow) ↔ shadow.length < 2 ^ 31) := by
  obtain ⟨junk, hconvert, hsize⟩ := @qvrConvertToShadowCopyPath_eq _ rest h0 hlen found
  have h0' := zero_notMem_shadowCopy h0
  refine ⟨shadowCopy path, junk, hconvert, hsize, h0', ?_, ?_, ?_, ?_⟩
  · intro hshadow
    rw [shadowCopy, if_pos hshadow]
  · intro hshadow
    rw [shadowCopy, if_neg hshadow]
  -- a path too long for the source's int is not converted again
  · intro hagain
    by_contra hlong
    have hnone : shadowString (shadowCopy path) = none := by
      rw [List.length_append, List.length_cons] at hsize
      rw [shadowString, fileNamePos_negative (by omega) (by omega)]
      rfl
    have hstring := hagain [] found
    rw [not_converted_of_shadowString h0' hnone] at hstring
    cases hstring
  · intro hshort rest' found'
    rw [qvrConvertToShadowCopyPath_string h0' hshort, shadowCopy_idempotent]

/-- "/a/b" -/
def pathAB : List UInt8 := [47, 97, 47, 98]

/-- The conversion of `/a/b`. -/
theorem shadow_path_inserted_file :
    ∃ shadow junk, qvrConvertToShadowCopyPath (pathAB ++ 0 :: []) (some fun _ => 0) =
        some (.ok (shadow ++ 0 :: junk, pathAB.length + 5)) ∧
      (shadow ++ 0 :: junk).length = pathAB.length + 5 ∧ 0 ∉ shadow ∧
      (IsShadowName (lastComponent pathAB) → shadow = pathAB) ∧
      (¬IsShadowName (lastComponent pathAB) →
        shadow = directoryPart pathAB ++ (shadowPrefix ++ lastComponent pathAB)) ∧
      ((∀ rest' found', (qvrConvertToShadowCopyPath (shadow ++ 0 :: rest') (some found')).string =
        some shadow) ↔ shadow.length < 2 ^ 31) :=
  shadow_path_inserted pathAB [] (fun _ => 0) (by decide) (by decide)

/-- The longest path of one component that the conversion takes. -/
def longestName : List UInt8 := List.replicate (2 ^ 31 - 1) 97

/-- The shadow name of the longest name is too long to convert it again. -/
theorem shadow_path_inserted_once : ¬∀ (path rest : List UInt8) (found : Nat → UInt8), 0 ∉ path →
    path.length < 2 ^ 31 → ∀ shadow,
      (qvrConvertToShadowCopyPath (path ++ 0 :: rest) (some found)).string = some shadow →
      ∀ rest' found', (qvrConvertToShadowCopyPath (shadow ++ 0 :: rest') (some found')).string =
        some shadow := by
  intro h
  have hmem : ∀ c ∈ longestName, c = 97 := fun c hc => List.eq_of_mem_replicate hc
  have h0 : 0 ∉ longestName := fun hz => absurd (hmem 0 hz) (by decide)
  have hslash : slash ∉ longestName := fun hs => absurd (hmem slash hs) (by decide)
  have hlen : longestName.length = 2 ^ 31 - 1 := List.length_replicate
  have hname : ¬IsShadowName longestName := by
    have hmin : min shadowPrefix.length (2 ^ 31 - 1) = 4 := by
      simp only [shadowPrefix, List.length_cons, List.length_nil]
      omega
    rw [IsShadowName, longestName, List.take_replicate, hmin]
    decide
  have hshadow : (shadowCopy longestName).length = 2 ^ 31 + 3 := by
    rw [length_shadowCopy, lastComponent_self hslash, if_neg hname, hlen]
    rfl
  have hstring := h longestName [] (fun _ => 0) h0 (by omega) _
    (qvrConvertToShadowCopyPath_string h0 (by omega) _) [] fun _ => 0
  have hnone : shadowString (shadowCopy longestName) = none := by
    rw [shadowString, fileNamePos_negative (by omega) (by omega)]
    rfl
  rw [not_converted_of_shadowString (zero_notMem_shadowCopy h0) hnone] at hstring
  cases hstring

-- ---------------------------------------------------------------------------
-- The redirected path
-- ---------------------------------------------------------------------------

/-- The redirected path in its buffer: the directory, a slash if the name needs
one, the slashes of the name as they are, and the rest of it with `$` for `/`.
Without a directory the slashes of the name go as well. -/
theorem redirected_path_made (file redirectedDir rest rest' : List UInt8) (found : Nat → UInt8)
    (hfile : 0 ∉ file) (hdir : 0 ∉ redirectedDir) :
    ∃ name junk size, qvrConvertToRedirectedPath (file ++ 0 :: rest) (redirectedDir ++ 0 :: rest')
        (some found) = some (.ok (name ++ 0 :: junk, size)) ∧
      (name ++ 0 :: junk).length = size ∧ 0 ∉ name ∧
      (redirectedDir ≠ [] → name = redirectedDir ++
        ((if file ≠ [] ∧ file.head? ≠ some slash then [slash] else []) ++
          (file.takeWhile (· = slash) ++
            (file.dropWhile (· = slash)).map fun c => if c = slash then dollar else c))) ∧
      (redirectedDir = [] → name =
        (file.dropWhile (· = slash)).map fun c => if c = slash then dollar else c) := by
  obtain ⟨junk, size, hconvert, hsize⟩ :=
    @qvrConvertToRedirectedPath_eq _ _ rest rest' hfile hdir found
  refine ⟨_, junk, size, hconvert, hsize, zero_notMem_redirected hfile hdir, ?_, ?_⟩
  · intro hne
    have hbetween : slashBetween file =
        if file ≠ [] ∧ file.head? ≠ some slash then [slash] else [] := by
      by_cases hslash : file = [] ∨ file.head? = some slash
      · rw [slashBetween, if_pos hslash, if_neg (by rwa [← not_or, not_not])]
      · rw [slashBetween, if_neg hslash, if_pos (not_or.mp hslash)]
    rw [redirected, if_neg hne, hbetween]
    rfl
  · intro hnil
    rw [redirected, if_pos hnil]
    rfl

/-- The redirected path of `/a/b` in `/a/b`. -/
theorem redirected_path_made_file :
    ∃ name junk size, qvrConvertToRedirectedPath (pathAB ++ 0 :: []) (pathAB ++ 0 :: [])
        (some fun _ => 0) = some (.ok (name ++ 0 :: junk, size)) ∧
      (name ++ 0 :: junk).length = size ∧ 0 ∉ name ∧
      (pathAB ≠ [] → name = pathAB ++
        ((if pathAB ≠ [] ∧ pathAB.head? ≠ some slash then [slash] else []) ++
          (pathAB.takeWhile (· = slash) ++
            (pathAB.dropWhile (· = slash)).map fun c => if c = slash then dollar else c))) ∧
      (pathAB = [] → name =
        (pathAB.dropWhile (· = slash)).map fun c => if c = slash then dollar else c) :=
  redirected_path_made pathAB pathAB [] [] (fun _ => 0) (by decide) (by decide)

-- ---------------------------------------------------------------------------
-- The two names of a rename
-- ---------------------------------------------------------------------------

/-- A flattened name has no slash. -/
theorem slash_notMem_flatten (path : List UInt8) : slash ∉ flatten path := by
  rw [flatten, List.mem_map]
  rintro ⟨c, -, hc⟩
  by_cases hslash : c = slash
  · rw [if_pos hslash] at hc
    exact absurd hc (by decide)
  · rw [if_neg hslash] at hc
    exact hslash hc

/-- The second conversion redirects the shadow string. -/
theorem qvrConvertToShadowAndThenRedirectedPath_of_shadowString {s : List UInt8} (h0 : 0 ∉ path)
    (hdir : 0 ∉ dir) (h : shadowString path = some s) (foundShadow found : Nat → UInt8) :
    (qvrConvertToShadowAndThenRedirectedPath (path ++ 0 :: rest) (dir ++ 0 :: rest')
      (some foundShadow) (some found)).string = some (redirected dir s) := by
  obtain ⟨junk, size, hshadow⟩ := converted_of_shadowString h0 h rest foundShadow
  rw [qvrConvertToShadowAndThenRedirectedPath, hshadow]
  exact qvrConvertToRedirectedPath_string (zero_notMem_shadowString h0 h) hdir found

/-- Without a shadow string the two conversions have no result. -/
theorem qvrConvertToShadowAndThenRedirectedPath_of_none (h0 : 0 ∉ path)
    (h : shadowString path = none) (foundShadow found : Nat → UInt8) :
    (qvrConvertToShadowAndThenRedirectedPath (path ++ 0 :: rest) (dir ++ 0 :: rest')
      (some foundShadow) (some found)).string = none := by
  rw [qvrConvertToShadowAndThenRedirectedPath, not_converted_of_shadowString h0 h]
  rfl

/-- The full path is the directory, slashes and the bare name. -/
theorem redirected_eq_bare {s : List UInt8} (hdir : dir ≠ []) (hs : ∃ c ∈ s, c ≠ slash) :
    ∃ slashes, slashes ≠ [] ∧ (∀ c ∈ slashes, c = slash) ∧
      redirected dir s = dir ++ (slashes ++ redirected [] s) ∧ redirected [] s ≠ [] ∧
      slash ∉ redirected [] s := by
  have hbare : redirected [] s = flatten (withoutSlashes s) := by
    rw [redirected, if_pos rfl]
  have hleading : ∀ c ∈ s.takeWhile (· = slash), c = slash :=
    fun c hc => by simpa using List.mem_takeWhile_imp hc
  obtain ⟨c, hc, hne⟩ := hs
  -- the slashes: the one that is put in, and those the path begins with
  refine ⟨slashBetween s ++ s.takeWhile (· = slash), ?_, ?_, ?_, ?_, ?_⟩
  · rw [Ne, List.append_eq_nil_iff, not_and]
    intro hbetween
    cases s with
    | nil => cases hc
    | cons d s =>
      by_cases hd : d = slash
      · rw [List.takeWhile_cons_of_pos (by simpa using hd)]
        exact List.cons_ne_nil _ _
      · rw [slashBetween, if_neg (by simp [hd])] at hbetween
        cases hbetween
  · intro d hd
    rw [List.mem_append] at hd
    rcases hd with hd | hd
    · rw [slashBetween] at hd
      split at hd
      · cases hd
      · exact List.mem_singleton.mp hd
    · exact hleading d hd
  · rw [redirected, if_neg hdir, hbare, flattenName, List.append_assoc]
  · rw [hbare, flatten, Ne, List.map_eq_nil_iff, withoutSlashes, List.dropWhile_eq_nil_iff]
    intro hall
    exact hne (by simpa using hall c hc)
  · rw [hbare]
    exact slash_notMem_flatten _

/-- The two names that a rename computes, whatever the allocations find: there
is a full path exactly when there is a bare name, always below 2^31 bytes, and
it is the directory, slashes and that name. -/
theorem full_path_ends_with_bare_name (redirectTo : RedirectTo) (path rest rest' : List UInt8)
    (foundShadow found foundShadow' found' : Nat → UInt8) (h0 : 0 ∉ path) :
    let full := (qvrConvertToShadowAndThenRedirectedPath (path ++ 0 :: rest)
      (redirectTo.bytes ++ 0 :: rest') (some foundShadow) (some found)).string
    let bare := (qvrConvertToShadowAndThenRedirectedPath (path ++ 0 :: rest) (0 :: rest')
      (some foundShadow') (some found')).string
    (path.length < 2 ^ 31 → bare ≠ none) ∧ (full = none ↔ bare = none) ∧
      ∀ name, bare = some name → name ≠ [] ∧ slash ∉ name ∧
        ∃ slashes, slashes ≠ [] ∧ (∀ c ∈ slashes, c = slash) ∧
          full = some (redirectTo.bytes ++ (slashes ++ name)) := by
  intro full bare
  cases hshadow : shadowString path with
  -- a path too long for the source's int is not converted, whatever the directory
  | none =>
    have hfull : full = none := qvrConvertToShadowAndThenRedirectedPath_of_none h0 hshadow _ _
    have hbare : bare = none :=
      @qvrConvertToShadowAndThenRedirectedPath_of_none _ [] _ _ h0 hshadow _ _
    refine ⟨?_, by rw [hfull, hbare], ?_⟩
    · intro hlen
      rw [shadowString_eq hlen] at hshadow
      cases hshadow
    · intro name hname
      rw [hbare] at hname
      cases hname
  -- both are the shadow path's: with the directory before it, and without
  | some s =>
    have hfull : full = some (redirected redirectTo.bytes s) :=
      qvrConvertToShadowAndThenRedirectedPath_of_shadowString h0 redirectTo.noNul hshadow _ _
    have hbare : bare = some (redirected [] s) :=
      @qvrConvertToShadowAndThenRedirectedPath_of_shadowString _ [] _ _ _ h0 (by simp) hshadow _ _
    obtain ⟨slashes, hne, hall, heq, hnil, hnot⟩ := redirected_eq_bare redirectTo.ne_nil
      ⟨46, shadowString_dot hshadow, by decide⟩
    refine ⟨fun _ => by rw [hbare]; exact Option.some_ne_none _, by simp [hfull, hbare], ?_⟩
    intro name hname
    rw [hbare, Option.some.injEq] at hname
    subst hname
    exact ⟨hnil, hnot, slashes, hne, hall, by rw [hfull, heq]⟩

/-- The two names for `/a/b`. -/
theorem full_path_ends_with_bare_name_file :
    let full := (qvrConvertToShadowAndThenRedirectedPath (pathAB ++ 0 :: [])
      (workDirectory.bytes ++ 0 :: []) (some fun _ => 0) (some fun _ => 0)).string
    let bare := (qvrConvertToShadowAndThenRedirectedPath (pathAB ++ 0 :: []) (0 :: [])
      (some fun _ => 0) (some fun _ => 0)).string
    (pathAB.length < 2 ^ 31 → bare ≠ none) ∧ (full = none ↔ bare = none) ∧
      ∀ name, bare = some name → name ≠ [] ∧ slash ∉ name ∧
        ∃ slashes, slashes ≠ [] ∧ (∀ c ∈ slashes, c = slash) ∧
          full = some (workDirectory.bytes ++ (slashes ++ name)) :=
  full_path_ends_with_bare_name workDirectory pathAB [] [] (fun _ => 0) (fun _ => 0) (fun _ => 0)
    (fun _ => 0) (by decide)

end VfsRedirector
