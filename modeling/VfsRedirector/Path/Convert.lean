import Mathlib.Data.List.DropRight
import VfsRedirector.Library.CString
import VfsRedirector.Library.PathName

/-!
# Path conversions

`QvrConvertToShadowCopyPath` puts `.QS_` in front of the last component of a
path; `QvrConvertToRedirectedPath` makes one file name in the protected storage
out of a path, with every `/` after the leading ones replaced by `$`. Both write
into a buffer from `IOMalloc` and are given here as they access memory; what the
buffer holds in the end is `shadowCopy` and `redirected` of the input
(`qvrConvertToShadowCopyPath_eq`, `qvrConvertToRedirectedPath_eq`).

A result is `none` for an access outside of the objects, else the error or the
buffer with its size. `assert` is compiled out.

## Results

* `qvrConvertToShadowCopyPath_eq` — what the buffer of a shadow path holds.
* `qvrConvertToRedirectedPath_eq` — what that of a redirected path holds.
-/

namespace VfsRedirector

open Library

def ENOMEM : Nat := 12

def dollar : UInt8 := 36

/-- `SHADOW_PREFIX`, ".QS_" -/
def shadowPrefix : List UInt8 := [46, 81, 83, 95]

/-- What a conversion returns: the error, or a buffer and its size. -/
abbrev Converted := Option (Except Nat (List UInt8 × Nat))

/-- The string in the buffer that a conversion returns. -/
def Converted.string : Converted → Option (List UInt8)
  | some (.ok (buffer, _)) => cstring buffer
  | _ => none

-- ---------------------------------------------------------------------------
-- As in the source
-- ---------------------------------------------------------------------------

/-- The loop over `pos`, counted from one position further right, which is
where it is left: from `n = pos + 1` to after the last `/`, or to 0. -/
def afterSlash (shadowPath : List UInt8) : Nat → Option Nat
  | 0 => some 0
  | n + 1 => do
    let c ← shadowPath[n]?
    if c ≠ slash then afterSlash shadowPath n else some (n + 1)

/-- `pos` is an `int`; below -1 the loop reads in front of the buffer. -/
def fileNamePos (shadowPath : List UInt8) (pathLen : Nat) : Option Nat :=
  let pos : Int := (pathLen : Int).bmod (2 ^ 32)
  if pos < -1 then none else afterSlash shadowPath (pos + 1).toNat

def qvrConvertToShadowCopyPath (path : List UInt8) (found : Option (Nat → UInt8)) : Converted := do
  let pathLen ← strlen path
  let prefixLen := shadowPrefix.length
  let shadowPathLen := pathLen + prefixLen
  let shadowPathSize := shadowPathLen + 1
  match allocate found shadowPathSize with
  | none => some (.error ENOMEM)
  | some shadowPath => do
    let shadowPath ← memcpy shadowPath 0 path (pathLen + 1)
    let pos ← fileNamePos shadowPath pathLen
    let isShadow ← strncasecmpEq prefixLen (shadowPath.drop pos) (shadowPrefix ++ [0])
    if isShadow then some (.ok (shadowPath, shadowPathSize))
    else do
      -- the name moves right with its terminator, then the prefix goes in
      let shadowPath ← memmove shadowPath (pos + prefixLen) pos (pathLen + 1 - pos)
      let shadowPath ← memcpy shadowPath pos (shadowPrefix ++ [0]) prefixLen
      some (.ok (shadowPath, shadowPathSize))

/-- `while( '/' == file[ 0 ] ) file = &file[ 1 ];` -/
def skipSlashes : List UInt8 → Option (List UInt8)
  | [] => none
  | c :: file => if c = slash then skipSlashes file else some (c :: file)

/-- How far `while( '/' == redirectedFilePath[ i ] ) ++i;` goes. -/
def leadingSlashes : List UInt8 → Option Nat
  | [] => none
  | c :: p => if c = slash then (leadingSlashes p).map (· + 1) else some 0

/-- The loop that replaces `/` up to the terminator. -/
def replaceSlashes : List UInt8 → Option (List UInt8)
  | [] => none
  | c :: p =>
    if c = 0 then some (c :: p)
    else (replaceSlashes p).map ((if c = slash then dollar else c) :: ·)

def slashRequired (prefixLength : Nat) (first : UInt8) : Bool :=
  !(prefixLength = 0 || first = slash || first = 0)

/-- The directory and its `/` go to the beginning of the buffer. Without a
directory the name loses its leading slashes instead; it is returned as well. -/
def copyPrefix (redirectedFilePath redirectedDir file : List UInt8) (prefixLength : Nat)
    (slashRequired : Bool) : Option (List UInt8 × List UInt8) :=
  if prefixLength ≠ 0 then do
    let redirectedFilePath ← memcpy redirectedFilePath 0 redirectedDir prefixLength
    let redirectedFilePath ←
      if slashRequired then write redirectedFilePath prefixLength [slash]
      else some redirectedFilePath
    some (redirectedFilePath, file)
  else do
    let file ← skipSlashes file
    some (redirectedFilePath, file)

/-- The name goes to `i`, and the directories in it become a part of it. -/
def copyName (redirectedFilePath file : List UInt8) (i : Nat) : Option (List UInt8) := do
  let fileLength ← strlen file
  let redirectedFilePath ← memcpy redirectedFilePath i file (fileLength + 1)
  let leading ← leadingSlashes (redirectedFilePath.drop i)
  let replaced ← replaceSlashes (redirectedFilePath.drop (i + leading))
  some (redirectedFilePath.take (i + leading) ++ replaced)

def qvrConvertToRedirectedPath (file redirectedDir : List UInt8) (found : Option (Nat → UInt8)) :
    Converted := do
  let prefixLength ← strlen redirectedDir
  let first ← file.head?
  let slashLength := if slashRequired prefixLength first then 1 else 0
  let fileLength ← strlen file
  let nameBufferSize := prefixLength + slashLength + fileLength + 4 -- sizeof(L'\0')
  match allocate found nameBufferSize with
  | none => some (.error ENOMEM)
  | some redirectedFilePath => do
    let (redirectedFilePath, file) ← copyPrefix redirectedFilePath redirectedDir file prefixLength
      (slashRequired prefixLength first)
    let redirectedFilePath ← copyName redirectedFilePath file (prefixLength + slashLength)
    some (.ok (redirectedFilePath, nameBufferSize))

/-- `foundShadow` and `found` are for the two allocations. -/
def qvrConvertToShadowAndThenRedirectedPath (path redirectedDir : List UInt8)
    (foundShadow found : Option (Nat → UInt8)) : Converted := do
  match ← qvrConvertToShadowCopyPath path foundShadow with
  | .error error => some (.error error)
  | .ok (shadowPath, _) => qvrConvertToRedirectedPath shadowPath redirectedDir found

-- ---------------------------------------------------------------------------
-- On strings
-- ---------------------------------------------------------------------------

/-- The path up to and with the last `/`. -/
def directoryPart (path : List UInt8) : List UInt8 := path.rdropWhile (· ≠ slash)

/-- What follows the last `/`. -/
def lastComponent (path : List UInt8) : List UInt8 := path.rtakeWhile (· ≠ slash)

/-- Begins with the shadow prefix in any letter case. -/
def IsShadowName (name : List UInt8) : Prop :=
  (name.take shadowPrefix.length).map tolower = shadowPrefix.map tolower

instance (name : List UInt8) : Decidable (IsShadowName name) :=
  inferInstanceAs (Decidable (_ = _))

def shadowCopy (path : List UInt8) : List UInt8 :=
  if IsShadowName (lastComponent path) then path
  else directoryPart path ++ (shadowPrefix ++ lastComponent path)

/-- Directories become a part of the name. -/
def flatten (path : List UInt8) : List UInt8 := path.map fun c => if c = slash then dollar else c

def withoutSlashes (path : List UInt8) : List UInt8 := path.dropWhile (· = slash)

/-- The `/` that is put between the directory and a name that has none. -/
def slashBetween (file : List UInt8) : List UInt8 :=
  if file = [] ∨ file.head? = some slash then [] else [slash]

/-- The leading slashes stay; directories after them become a part of the name. -/
def flattenName (file : List UInt8) : List UInt8 :=
  file.takeWhile (· = slash) ++ flatten (withoutSlashes file)

def redirected (redirectedDir file : List UInt8) : List UInt8 :=
  if redirectedDir = [] then flatten (withoutSlashes file)
  else redirectedDir ++ (slashBetween file ++ flattenName file)

/-- The name in the protected storage for the shadow copy of a path. -/
def redirectedShadow (redirectedDir path : List UInt8) : List UInt8 :=
  redirected redirectedDir (shadowCopy path)

/-- `redirectTo` of an `ApplicationData`: a directory, without the `/` at its end. -/
structure RedirectTo where
  bytes : List UInt8
  ne_nil : bytes ≠ []
  noSlash : bytes.getLast? ≠ some slash
  noNul : 0 ∉ bytes

-- ---------------------------------------------------------------------------
-- The conversion to a shadow path
-- ---------------------------------------------------------------------------

section Shadow

variable {path dir name rest : List UInt8} {found : Nat → UInt8}

/-- A path is made of its directories and its name. -/
theorem directoryPart_append_lastComponent (path : List UInt8) :
    directoryPart path ++ lastComponent path = path :=
  List.rdropWhile_append_rtakeWhile

/-- The last component of a path has no slash. -/
theorem slash_notMem_lastComponent (path : List UInt8) : slash ∉ lastComponent path := by
  intro h
  have hne := List.mem_rtakeWhile_imp h
  simp at hne

/-- A directory part is empty or ends with `/`. -/
def EndsWithSlash (dir : List UInt8) : Prop := dir = [] ∨ ∃ d, dir = d ++ [slash]

/-- The directory part of a path ends with a slash, or is empty. -/
theorem endsWithSlash_directoryPart (path : List UInt8) : EndsWithSlash (directoryPart path) := by
  by_cases h : directoryPart path = []
  · exact .inl h
  · refine .inr ⟨(directoryPart path).dropLast, ?_⟩
    have hlast := List.rdropWhile_last_not (fun c => decide (c ≠ slash)) path h
    have hc : (directoryPart path).getLast h = slash := by simpa [directoryPart] using hlast
    rw [← hc, List.dropLast_append_getLast]

/-- The loop over `pos` stops behind the last slash. -/
theorem afterSlash_eq (hdir : EndsWithSlash dir) (hname : slash ∉ name) :
    afterSlash (dir ++ (name ++ rest)) (dir.length + name.length) = some dir.length := by
  induction name using List.reverseRecOn generalizing rest with
  | nil =>
    obtain rfl | ⟨d, rfl⟩ := hdir
    · rfl
    · simp [afterSlash]
  | append_singleton name c ih =>
    rw [List.mem_append, not_or] at hname
    have hc : c ≠ slash := by
      rintro rfl
      exact hname.2 (List.mem_singleton_self _)
    have hread : (dir ++ (name ++ [c] ++ rest))[dir.length + name.length]? = some c := by simp
    rw [List.length_append, List.length_singleton, ← Nat.add_assoc, afterSlash, hread]
    have hstep := @ih (c :: rest) hname.1
    simpa [hc] using hstep

/-- Where the name begins, of a path whose length is an `int`. -/
theorem fileNamePos_eq (hdir : EndsWithSlash dir) (hname : slash ∉ name)
    (hlen : (dir ++ name).length < 2 ^ 31) :
    fileNamePos (dir ++ (name ++ 0 :: rest)) (dir ++ name).length = some dir.length := by
  have hpos : (((dir ++ name).length : Nat) : Int).bmod (2 ^ 32) = (dir ++ name).length := by
    apply Int.bmod_eq_of_le <;> omega
  have hterm : slash ∉ name ++ [0] := by
    rw [List.mem_append, not_or]
    exact ⟨hname, by decide⟩
  have hscan := @afterSlash_eq dir (name ++ [0]) rest hdir hterm
  rw [List.append_assoc, List.singleton_append] at hscan
  have hn : dir.length + (name ++ [0]).length = (((dir ++ name).length : Int) + 1).toNat := by
    simp only [List.length_append, List.length_singleton]
    omega
  unfold fileNamePos
  simp only [hpos]
  rw [if_neg (by omega), ← hn, hscan]

/-- The prefix is put in where a name that has none begins. -/
theorem prefix_inserted {buffer : List UInt8} (hbuf : buffer.length = name.length + 5) (htake :
    ∃ b, buffer = name ++ 0 :: b) :
    ∃ moved, memmove (dir ++ buffer) (dir.length + shadowPrefix.length) dir.length
        (name.length + 1) = some moved ∧
      memcpy moved dir.length (shadowPrefix ++ [0]) shadowPrefix.length =
        some (dir ++ (shadowPrefix ++ (name ++ [0]))) := by
  obtain ⟨w, l, hsplit, hw⟩ := split_at (p := buffer) (n := shadowPrefix.length)
    (by rw [hbuf]; simp [shadowPrefix])
  have hl : l.length = name.length + 1 := by
    rw [hsplit, List.length_append, hw] at hbuf
    simp only [shadowPrefix, List.length_cons, List.length_nil] at hbuf
    omega
  refine ⟨dir ++ (w ++ (name ++ [0])), ?_, ?_⟩
  · obtain ⟨b, hb⟩ := htake
    have hcopy := @memcpy_string _ b _ (dir ++ w) [] hl
    rw [memmove, List.drop_left, hb]
    rw [List.append_nil, List.length_append, hw, List.append_assoc, ← hsplit, hb] at hcopy
    rw [hcopy, List.append_assoc]
  · rw [memcpy_split hw (by simp)]
    simp [shadowPrefix]

/-- What the buffer holds, for a name that is found at `dir.length`. -/
theorem qvrConvertToShadowCopyPath_at (h0 : 0 ∉ dir ++ name)
    (hpos : ∀ b, fileNamePos (dir ++ (name ++ 0 :: b)) (dir ++ name).length = some dir.length)
    (found : Nat → UInt8) :
    ∃ junk, qvrConvertToShadowCopyPath (dir ++ (name ++ 0 :: rest)) (some found) =
        some (.ok ((if IsShadowName name then dir ++ name else dir ++ (shadowPrefix ++ name)) ++
          0 :: junk, (dir ++ name).length + 5)) ∧
      ((if IsShadowName name then dir ++ name else dir ++ (shadowPrefix ++ name)) ++
        0 :: junk).length = (dir ++ name).length + 5 := by
  obtain ⟨buffer, halloc, hsize⟩ :=
    allocate_some found ((dir ++ name).length + shadowPrefix.length + 1)
  obtain ⟨l, b, rfl, hl⟩ := split_at (p := buffer) (n := (dir ++ name).length + 1) (by omega)
  have hb : b.length = 4 := by
    rw [List.length_append, hl] at hsize
    simp only [shadowPrefix, List.length_cons, List.length_nil] at hsize
    omega
  -- the path is copied first, with room for the prefix behind it
  have hcopy := @memcpy_string _ rest _ [] b hl
  have h0name : 0 ∉ name := by
    rw [List.mem_append, not_or] at h0
    exact h0.2
  have hcmp : strncasecmpEq shadowPrefix.length (name ++ 0 :: b) (shadowPrefix ++ [0]) =
      some (decide (IsShadowName name)) :=
    strncasecmpEq_terminated h0name (by decide)
  have hlength : (dir ++ name).length = dir.length + name.length := List.length_append
  simp only [List.nil_append, List.length_nil] at hcopy
  rw [← List.append_assoc]
  unfold qvrConvertToShadowCopyPath
  rw [strlen_terminated h0, Option.bind_eq_bind, Option.bind_some]
  dsimp only
  rw [halloc]
  dsimp only
  rw [hcopy, Option.bind_eq_bind, Option.bind_some, List.append_assoc, hpos b,
    Option.bind_eq_bind, Option.bind_some, List.drop_left, hcmp]
  -- a shadow name stays; before another the prefix is moved in
  by_cases hshadow : IsShadowName name
  · refine ⟨b, ?_, ?_⟩
    · rw [Option.bind_some, if_pos (decide_eq_true hshadow), if_pos hshadow, List.append_assoc]
      rfl
    · rw [if_pos hshadow, List.length_append, List.length_cons, hb]
  · obtain ⟨moved, hmove, hinserted⟩ := @prefix_inserted dir name (name ++ 0 :: b)
      (by simp [hb]) ⟨b, rfl⟩
    have hn : (dir ++ name).length + 1 - dir.length = name.length + 1 := by
      omega
    refine ⟨[], ?_, ?_⟩
    · rw [Option.bind_some, if_neg (by rw [decide_eq_true_eq]; exact hshadow), hn, hmove,
        Option.bind_some, hinserted, if_neg hshadow]
      simp [shadowPrefix]
    · rw [if_neg hshadow]
      simp only [shadowPrefix, List.length_append, List.length_cons, List.length_nil]
      omega

/-- The buffer holds the shadow path with its terminator, and has the size that
is returned. -/
theorem qvrConvertToShadowCopyPath_eq (h0 : 0 ∉ path) (hlen : path.length < 2 ^ 31)
    (found : Nat → UInt8) :
    ∃ junk, qvrConvertToShadowCopyPath (path ++ 0 :: rest) (some found) =
        some (.ok (shadowCopy path ++ 0 :: junk, path.length + 5)) ∧
      (shadowCopy path ++ 0 :: junk).length = path.length + 5 := by
  have hparts := directoryPart_append_lastComponent path
  have hat := @qvrConvertToShadowCopyPath_at (directoryPart path) (lastComponent path) rest
    (by rw [hparts]; exact h0)
    (fun b => fileNamePos_eq (endsWithSlash_directoryPart path) (slash_notMem_lastComponent path)
      (by rw [hparts]; exact hlen)) found
  rw [← List.append_assoc, hparts] at hat
  exact hat

end Shadow

-- ---------------------------------------------------------------------------
-- The conversion to a redirected path
-- ---------------------------------------------------------------------------

section Redirected

variable {file dir buffer rest rest' junk : List UInt8} {found : Nat → UInt8}

/-- The first loop goes over the slashes in front of the name. -/
theorem skipSlashes_eq :
    skipSlashes (file ++ 0 :: rest) = some (withoutSlashes file ++ 0 :: rest) := by
  induction file with
  | nil => rfl
  | cons c file ih =>
    by_cases hc : c = slash
    · rw [List.cons_append, skipSlashes, if_pos hc, ih, withoutSlashes, withoutSlashes,
        List.dropWhile_cons_of_pos (by simpa using hc)]
    · rw [List.cons_append, skipSlashes, if_neg hc, withoutSlashes,
        List.dropWhile_cons_of_neg (by simpa using hc), List.cons_append]

/-- The second loop counts the slashes in front of the name. -/
theorem leadingSlashes_eq :
    leadingSlashes (file ++ 0 :: rest) = some (file.takeWhile (· = slash)).length := by
  induction file with
  | nil => rfl
  | cons c file ih =>
    by_cases hc : c = slash
    · rw [List.cons_append, leadingSlashes, if_pos hc, ih,
        List.takeWhile_cons_of_pos (by simpa using hc)]
      rfl
    · rw [List.cons_append, leadingSlashes, if_neg hc,
        List.takeWhile_cons_of_neg (by simpa using hc)]
      rfl

/-- The third loop replaces every slash up to the terminator. -/
theorem replaceSlashes_eq (h0 : 0 ∉ file) :
    replaceSlashes (file ++ 0 :: rest) = some (flatten file ++ 0 :: rest) := by
  induction file with
  | nil => rfl
  | cons c file ih =>
    rw [List.mem_cons, not_or] at h0
    rw [List.cons_append, replaceSlashes, if_neg (Ne.symm h0.1), ih h0.2]
    rfl

/-- A name without its slashes has no terminator in it. -/
theorem zero_notMem_withoutSlashes (h0 : 0 ∉ file) : 0 ∉ withoutSlashes file :=
  fun h => h0 (List.dropWhile_sublist _ |>.subset h)

/-- The slashes in front and the rest are the name. -/
theorem takeWhile_append_withoutSlashes (file : List UInt8) :
    file.takeWhile (· = slash) ++ withoutSlashes file = file :=
  List.takeWhile_append_dropWhile

/-- Over a part of the buffer that holds the name with its terminator. -/
theorem copyName_eq {l : List UInt8} (h0 : 0 ∉ file) (hl : l.length = file.length + 1) :
    copyName (dir ++ (l ++ junk)) (file ++ 0 :: rest) dir.length =
      some (dir ++ (flattenName file ++ 0 :: junk)) := by
  have hmem : dir ++ (file ++ 0 :: junk) =
      (dir ++ file.takeWhile (· = slash)) ++ (withoutSlashes file ++ 0 :: junk) := by
    rw [List.append_assoc, ← List.append_assoc (List.takeWhile _ file),
      takeWhile_append_withoutSlashes]
  unfold copyName
  simp only [Option.bind_eq_bind]
  rw [strlen_terminated h0, Option.bind_some, memcpy_string hl, Option.bind_some, List.drop_left,
    leadingSlashes_eq, Option.bind_some, hmem, ← List.length_append, List.drop_left,
    replaceSlashes_eq (zero_notMem_withoutSlashes h0), Option.bind_some, List.take_left,
    flattenName, List.append_assoc, List.append_assoc]

/-- A name without its leading slashes has none in front. -/
theorem takeWhile_withoutSlashes (file : List UInt8) :
    (withoutSlashes file).takeWhile (· = slash) = [] := by
  induction file with
  | nil => rfl
  | cons c file ih =>
    by_cases hc : c = slash
    · rw [withoutSlashes, List.dropWhile_cons_of_pos (by simpa using hc)]
      exact ih
    · rw [withoutSlashes, List.dropWhile_cons_of_neg (by simpa using hc),
        List.takeWhile_cons_of_neg (by simpa using hc)]

/-- A name without slashes in front is flattened from its first letter on. -/
theorem flattenName_withoutSlashes (file : List UInt8) :
    flattenName (withoutSlashes file) = flatten (withoutSlashes file) := by
  rw [flattenName, takeWhile_withoutSlashes, List.nil_append, withoutSlashes, withoutSlashes,
    List.dropWhile_idempotent]

/-- The source looks at the first character to see whether a slash is required. -/
theorem slashRequired_eq (hdir : dir ≠ []) (h0 : 0 ∉ file) :
    ∃ first, (file ++ 0 :: rest).head? = some first ∧
      slashBetween file = if slashRequired dir.length first then [slash] else [] := by
  have hlen : dir.length ≠ 0 := List.length_eq_zero_iff.not.mpr hdir
  cases file with
  | nil => exact ⟨0, rfl, by simp [slashBetween, slashRequired]⟩
  | cons c file =>
    rw [List.mem_cons, not_or] at h0
    refine ⟨c, rfl, ?_⟩
    by_cases hc : c = slash
    · simp [slashBetween, slashRequired, hc]
    · simp [slashBetween, slashRequired, hc, Ne.symm h0.1, hdir]

/-- Over a part of the buffer that holds the directory and its `/`. -/
theorem copyPrefix_eq {l l' : List UInt8} {required : Bool} (hdir : dir ≠ [])
    (hl : l.length = dir.length)
    (hl' : l'.length = (if required then [slash] else []).length) :
    copyPrefix (l ++ (l' ++ junk)) (dir ++ 0 :: rest) file dir.length required =
      some (dir ++ ((if required then [slash] else []) ++ junk), file) := by
  have hlen : dir.length ≠ 0 := List.length_eq_zero_iff.not.mpr hdir
  have hcopy : memcpy (l ++ (l' ++ junk)) 0 (dir ++ 0 :: rest) dir.length =
      some (dir ++ (l' ++ junk)) := by
    have h := @memcpy_split (dir ++ 0 :: rest) l [] (l' ++ junk) _ hl (by simp)
    rwa [List.take_left, List.nil_append, List.nil_append] at h
  rw [copyPrefix, if_pos hlen, hcopy]
  cases required with
  | true =>
    have hwrite := write_split (a := dir) (b := junk) (s := [slash]) hl'
    rw [Option.bind_eq_bind, Option.bind_some, if_pos rfl, hwrite]
    rfl
  | false =>
    rw [List.length_eq_zero_iff.mp hl']
    rfl

/-- To replace slashes changes no length. -/
theorem length_flattenName (file : List UInt8) : (flattenName file).length = file.length := by
  rw [flattenName, flatten, List.length_append, List.length_map, ← List.length_append,
    takeWhile_append_withoutSlashes]

/-- The redirected path is as long as the directory, the slash between and the name. -/
theorem length_redirected (hdir : dir ≠ []) :
    (redirected dir file).length = dir.length + (slashBetween file).length + file.length := by
  rw [redirected, if_neg hdir, List.length_append, List.length_append, length_flattenName,
    Nat.add_assoc]

/-- The buffer holds the redirected path with its terminator, and has the size
that is returned. -/
theorem qvrConvertToRedirectedPath_eq (hfile : 0 ∉ file) (hdir : 0 ∉ dir) (found : Nat → UInt8) :
    ∃ junk size, qvrConvertToRedirectedPath (file ++ 0 :: rest) (dir ++ 0 :: rest') (some found) =
        some (.ok (redirected dir file ++ 0 :: junk, size)) ∧
      (redirected dir file ++ 0 :: junk).length = size := by
  -- without a directory the whole path becomes one name
  by_cases hempty : dir = []
  · subst hempty
    obtain ⟨first, hfirst⟩ : ∃ first, (file ++ 0 :: rest).head? = some first := by
      cases file <;> exact ⟨_, rfl⟩
    -- the name is no longer than the path, so the buffer takes it
    have hname : (withoutSlashes file).length ≤ file.length :=
      (List.dropWhile_sublist _).length_le
    obtain ⟨buffer, halloc, hsize⟩ := allocate_some found (0 + 0 + file.length + 4)
    obtain ⟨l, b, rfl, hl⟩ := split_at (p := buffer) (n := (withoutSlashes file).length + 1)
      (by omega)
    have hcopy := @copyName_eq _ [] rest b _
      (zero_notMem_withoutSlashes hfile) hl
    rw [flattenName_withoutSlashes] at hcopy
    refine ⟨b, 0 + 0 + file.length + 4, ?_, ?_⟩
    · unfold qvrConvertToRedirectedPath
      simp only [Option.bind_eq_bind]
      rw [strlen_terminated hdir, Option.bind_some, hfirst, Option.bind_some,
        strlen_terminated hfile, Option.bind_some]
      dsimp only [List.length_nil]
      rw [if_neg (by simp [slashRequired]), halloc]
      dsimp only
      rw [copyPrefix, if_neg (by simp), skipSlashes_eq]
      dsimp only [Option.bind_eq_bind, Option.bind_some]
      rw [show 0 + 0 = ([] : List UInt8).length from rfl, ← List.nil_append (l ++ b), hcopy,
        redirected, if_pos rfl]
      rfl
    · rw [redirected, if_pos rfl]
      simp only [List.length_append, flatten, List.length_map, List.length_cons] at hsize hl ⊢
      omega
  -- a slash goes between the directory and a path that begins with none
  · obtain ⟨first, hfirst, hbetween⟩ := @slashRequired_eq _ _ rest hempty hfile
    have hslash : (if slashRequired dir.length first then 1 else 0) =
        (slashBetween file).length := by
      rw [hbetween]
      split <;> rfl
    obtain ⟨buffer, halloc, hsize⟩ :=
      allocate_some found (dir.length + (slashBetween file).length + file.length + 4)
    -- the buffer: the directory, the slash, the path with its end, and the rest
    obtain ⟨l, b, rfl, hl⟩ := split_at (p := buffer) (n := dir.length) (by omega)
    rw [List.length_append] at hsize
    obtain ⟨l', b, rfl, hl'⟩ := split_at (p := b) (n := (slashBetween file).length) (by omega)
    rw [List.length_append] at hsize
    obtain ⟨l'', b, rfl, hl''⟩ := split_at (p := b) (n := file.length + 1) (by omega)
    rw [List.length_append] at hsize
    have hinserted := @copyPrefix_eq (file ++ 0 :: rest) _ rest' (l'' ++ b) _ _ _
      hempty hl (hbetween ▸ hl')
    have hcopy := @copyName_eq _ (dir ++ slashBetween file) rest b _ hfile hl''
    rw [← hbetween] at hinserted
    rw [List.length_append, List.append_assoc] at hcopy
    refine ⟨b, dir.length + (slashBetween file).length + file.length + 4, ?_, ?_⟩
    · unfold qvrConvertToRedirectedPath
      simp only [Option.bind_eq_bind]
      rw [strlen_terminated hdir, Option.bind_some, hfirst, Option.bind_some,
        strlen_terminated hfile, Option.bind_some, hslash, halloc]
      dsimp only
      rw [hinserted, Option.bind_some]
      dsimp only
      rw [hcopy, Option.bind_some, redirected, if_neg hempty]
      simp only [List.append_assoc]
    · rw [List.length_append, length_redirected hempty, List.length_cons]
      omega

end Redirected

-- ---------------------------------------------------------------------------
-- The strings that come out
-- ---------------------------------------------------------------------------

section Strings

variable {path file dir rest rest' : List UInt8}

/-- The shadow path of a C string is one. -/
theorem zero_notMem_shadowCopy (h0 : 0 ∉ path) : 0 ∉ shadowCopy path := by
  rw [shadowCopy]
  split
  · exact h0
  · rw [← directoryPart_append_lastComponent path, List.mem_append, not_or] at h0
    rw [List.mem_append, List.mem_append, not_or, not_or]
    exact ⟨h0.1, by decide, h0.2⟩

/-- The flattened name of a C string is one. -/
theorem zero_notMem_flatten (h0 : 0 ∉ path) : 0 ∉ flatten path := by
  rw [flatten, List.mem_map]
  rintro ⟨c, hc, hzero⟩
  split at hzero
  · exact absurd hzero (by decide)
  · exact h0 (hzero ▸ hc)

/-- The redirected path of two C strings is one. -/
theorem zero_notMem_redirected (hfile : 0 ∉ file) (hdir : 0 ∉ dir) : 0 ∉ redirected dir file := by
  have hname := zero_notMem_flatten (zero_notMem_withoutSlashes hfile)
  rw [redirected]
  split
  · exact hname
  · have hleading : 0 ∉ file.takeWhile (· = slash) :=
      fun h => hfile ((List.takeWhile_sublist _).subset h)
    have hbetween : 0 ∉ slashBetween file := by
      rw [slashBetween]
      split <;> decide
    simp only [flattenName, List.mem_append, not_or]
    exact ⟨hdir, hbetween, hleading, hname⟩

/-- With memory for it the redirected path is what the buffer holds. -/
theorem qvrConvertToRedirectedPath_string (hfile : 0 ∉ file) (hdir : 0 ∉ dir)
    (found : Nat → UInt8) :
    (qvrConvertToRedirectedPath (file ++ 0 :: rest) (dir ++ 0 :: rest') (some found)).string =
      some (redirected dir file) := by
  obtain ⟨junk, size, hconvert, -⟩ := @qvrConvertToRedirectedPath_eq _ _ rest rest'
    hfile hdir found
  rw [hconvert]
  exact cstring_terminated (zero_notMem_redirected hfile hdir)

/-- The two conversions give the redirected path of the shadow path. -/
theorem qvrConvertToShadowAndThenRedirectedPath_string (hpath : 0 ∉ path)
    (hlen : path.length < 2 ^ 31) (hdir : 0 ∉ dir) (foundShadow found : Nat → UInt8) :
    (qvrConvertToShadowAndThenRedirectedPath (path ++ 0 :: rest) (dir ++ 0 :: rest')
      (some foundShadow) (some found)).string = some (redirectedShadow dir path) := by
  obtain ⟨junk, hshadow, -⟩ := @qvrConvertToShadowCopyPath_eq _ rest hpath hlen foundShadow
  rw [qvrConvertToShadowAndThenRedirectedPath, hshadow]
  exact qvrConvertToRedirectedPath_string (zero_notMem_shadowCopy hpath) hdir found

end Strings

end VfsRedirector
