import VfsRedirector.Library.Log
import VfsRedirector.Library.Trace

/-!
# The client's `cp`

The daemon copies a file to the protected storage when a lookup asks for it. `cp`
opens the copy with `O_EXCL`, then reads and writes until the end of the source, and
ends with -1 as soon as a call fails.

A system call returns the error that it leaves in `errno`, or what it has done. Its
effect on the files is that of `posix`: a write appends what it has taken, and what
a read returns is left open. The loops have a bound, and what they return within it
does not depend on it.

A copy that fails is not removed: `failed_copy_iff`.

## Results

* `runs_cp` — a run opens both files, or changes nothing.
* `failed_copyData`, `failed_cpOpened` — a call on the target fails exactly if the
  copy does.
* `failed_copy_iff` — when a copy that fails leaves the target as it was.
-/

namespace VfsRedirector.Client

open Library

/-- The flags that `cp` uses. -/
inductive OpenFlag where
  | O_RDONLY
  | O_WRONLY
  | O_CREAT
  | O_TRUNC
  | O_EXCL
  deriving DecidableEq

inductive PosixOp where
  | openPath (path : List UInt8) (flags : List OpenFlag)
  | read (fd count : Nat)
  | write (fd : Nat) (bytes : List UInt8)
  | close (fd : Nat)
  deriving DecidableEq

/-- An error is what `errno` is set to where -1 is returned. A read returns the bytes that
are in the buffer then. -/
@[reducible]
def PosixOp.Res : PosixOp → Type
  | openPath .. | write .. => Except Int Nat
  | read .. => Except Int (List UInt8)
  | close _ => Except Int Unit

abbrev Posix := Prog PosixOp.Res

abbrev PosixCall := Σ o : PosixOp, o.Res

namespace Posix

def openPath (path : List UInt8) (flags : List OpenFlag) : Posix (Except Int Nat) :=
  .perform (PosixOp.openPath path flags)

def read (fd count : Nat) : Posix (Except Int (List UInt8)) := .perform (PosixOp.read fd count)

def write (fd : Nat) (bytes : List UInt8) : Posix (Except Int Nat) :=
  .perform (PosixOp.write fd bytes)

def close (fd : Nat) : Posix (Except Int Unit) := .perform (PosixOp.close fd)

end Posix

def EINTR : Int := 4

/-- `sizeof buf` -/
def bufSize : Nat := 4096

-- ---------------------------------------------------------------------------
-- cp
-- ---------------------------------------------------------------------------

open Posix

/-- The loop that writes the `nread` bytes from `outPtr` on; `none` at the bound. -/
def writeData (fdTo : Nat) (buf : List UInt8) :
    Nat → Nat → Nat → Posix (Option (Except Int Unit))
  | 0, _, _ => pure none
  | bound + 1, outPtr, nread => do
    match ← write fdTo ((buf.drop outPtr).take nread) with
    | .ok nwritten =>
      if nread - nwritten > 0 then writeData fdTo buf bound (outPtr + nwritten) (nread - nwritten)
      else pure (some (.ok ()))
    | .error errno =>
      if errno ≠ EINTR then pure (some (.error errno))
      else if nread > 0 then writeData fdTo buf bound outPtr nread
      else pure (some (.ok ()))

/-- The loop that reads, with what is left in `buf` from the round before. -/
def copyData (fdFrom fdTo : Nat) : Nat → List UInt8 → Posix (Option (Except Int Unit))
  | 0, _ => pure none
  | bound + 1, buf => do
    match ← read fdFrom bufSize with
    | .error errno => pure (some (.error errno))
    | .ok [] => pure (some (.ok ()))
    | .ok data => do
      let buf := data ++ buf.drop data.length
      match ← writeData fdTo buf bound 0 data.length with
      | some (.ok ()) => copyData fdFrom fdTo bound buf
      | notWritten => pure notWritten

/-- `out_error`: -1 is returned with the error that led here. -/
def outError (fdFrom : Nat) (fdTo : Option Nat) (savedErrno : Int) :
    Posix (Option (Except Int Unit)) := do
  let _ ← close fdFrom
  match fdTo with
  | some fdTo => do
    let _ ← close fdTo
    pure (some (.error savedErrno))
  | none => pure (some (.error savedErrno))

/-- With both files open. -/
def cpOpened (bound : Nat) (buf : List UInt8) (fdFrom fdTo : Nat) :
    Posix (Option (Except Int Unit)) := do
  match ← copyData fdFrom fdTo bound buf with
  | none => pure none
  | some (.error errno) => outError fdFrom (some fdTo) errno
  | some (.ok ()) => do
    match ← close fdTo with
    | .error errno => outError fdFrom none errno
    | .ok () => do
      let _ ← close fdFrom
      pure (some (.ok ()))

def createFlags : List OpenFlag := [.O_WRONLY, .O_CREAT, .O_TRUNC, .O_EXCL]

/-- 0 is `ok`; `buf` is what the buffer holds at first. -/
def cp (bound : Nat) (buf target source : List UInt8) : Posix (Option (Except Int Unit)) := do
  match ← openPath source [.O_RDONLY] with
  | .error errno => pure (some (.error errno))
  | .ok fdFrom => do
    match ← openPath target createFlags with
    | .error errno => outError fdFrom none errno
    | .ok fdTo => cpOpened bound buf fdFrom fdTo

-- ---------------------------------------------------------------------------
-- The bound
-- ---------------------------------------------------------------------------

open Prog in
/-- A loop that ends within a bound makes the same calls with any other. -/
theorem writeData_bound {fdTo bound outPtr nread : Nat} {buf : List UInt8} {log : List PosixCall}
    {r : Except Int Unit} (h : (writeData fdTo buf bound outPtr nread).Trace log (some r))
    {bound' : Nat} (hle : bound ≤ bound') :
    (writeData fdTo buf bound' outPtr nread).Trace log (some r) := by
  -- more fuel than needed changes nothing
  induction bound generalizing outPtr nread log bound' with
  | zero => cases (trace_pure.mp h).2
  | succ bound ih =>
    obtain ⟨bound', rfl⟩ := Nat.exists_eq_add_one_of_ne_zero (Nat.ne_zero_of_lt hle)
    obtain ⟨written, rest, rfl, hrest⟩ := trace_perform_bind.mp h
    refine trace_perform_bind.mpr ⟨written, rest, rfl, ?_⟩
    have hle := Nat.le_of_succ_le_succ hle
    cases written with
    | ok nwritten =>
      dsimp only at hrest ⊢
      split at hrest
      · rw [if_pos ‹_›]
        exact ih hrest hle
      · rw [if_neg ‹_›]
        exact hrest
    | error errno =>
      dsimp only at hrest ⊢
      split at hrest
      · rw [if_pos ‹_›]
        exact hrest
      · rw [if_neg ‹_›]
        split at hrest
        · rw [if_pos ‹_›]
          exact ih hrest hle
        · rw [if_neg ‹_›]
          exact hrest

open Prog in
/-- The loop that reads makes the same calls within any bound in which it ends. -/
theorem copyData_bound {fdFrom fdTo bound : Nat} {buf : List UInt8} {log : List PosixCall}
    {r : Except Int Unit} (h : (copyData fdFrom fdTo bound buf).Trace log (some r))
    {bound' : Nat} (hle : bound ≤ bound') :
    (copyData fdFrom fdTo bound' buf).Trace log (some r) := by
  induction bound generalizing buf log bound' with
  | zero => cases (trace_pure.mp h).2
  | succ bound ih =>
    obtain ⟨bound', rfl⟩ := Nat.exists_eq_add_one_of_ne_zero (Nat.ne_zero_of_lt hle)
    obtain ⟨data, rest, rfl, hrest⟩ := trace_perform_bind.mp h
    refine trace_perform_bind.mpr ⟨data, rest, rfl, ?_⟩
    have hle := Nat.le_of_succ_le_succ hle
    match data, hrest with
    | .error errno, hrest => exact hrest
    | .ok [], hrest => exact hrest
    | .ok (b :: data), hrest =>
      obtain ⟨written, first, last, rfl, hfirst, hlast⟩ := trace_bind.mp hrest
      match written, hfirst, hlast with
      | some (.ok ()), hfirst, hlast =>
        exact trace_bind.mpr ⟨_, _, _, rfl, writeData_bound hfirst hle, ih hlast hle⟩
      | some (.error errno), hfirst, hlast =>
        exact trace_bind.mpr ⟨_, _, _, rfl, writeData_bound hfirst hle, hlast⟩
      | none, hfirst, hlast => cases (trace_pure.mp hlast).2

open Prog in
/-- What `cp` returns does not depend on the bound. -/
theorem cp_bound {bound : Nat} {buf target source : List UInt8} {log : List PosixCall}
    {r : Except Int Unit} (h : (cp bound buf target source).Trace log (some r))
    {bound' : Nat} (hle : bound ≤ bound') : (cp bound' buf target source).Trace log (some r) := by
  obtain ⟨opened, log₁, rfl, h₁⟩ := trace_perform_bind.mp h
  refine trace_perform_bind.mpr ⟨opened, log₁, rfl, ?_⟩
  match opened, h₁ with
  | .error errno, h₁ => exact h₁
  | .ok fdFrom, h₁ =>
    obtain ⟨created, log₂, rfl, h₂⟩ := trace_perform_bind.mp h₁
    refine trace_perform_bind.mpr ⟨created, log₂, rfl, ?_⟩
    match created, h₂ with
    | .error errno, h₂ => exact h₂
    | .ok fdTo, h₂ =>
      obtain ⟨copied, first, rest, rfl, hfirst, hrest⟩ := trace_bind.mp h₂
      match copied, hfirst, hrest with
      | none, hfirst, hrest => cases (trace_pure.mp hrest).2
      | some r', hfirst, hrest =>
        exact trace_bind.mpr ⟨_, _, _, rfl, copyData_bound hfirst hle, hrest⟩

-- ---------------------------------------------------------------------------
-- The files
-- ---------------------------------------------------------------------------

def ENOENT : Int := 2

def EBADF : Int := 9

def EEXIST : Int := 17

/-- The contents of the files that exist, and the paths of the files that are open. -/
structure Files where
  content : List UInt8 → Option (List UInt8)
  fds : List (Option (List UInt8)) := []

/-- A call that could succeed fails, or succeeds: a read with `data`, a write with
the first `count` bytes. -/
inductive SysAnswer where
  | fails (errno : Int)
  | succeeds (data : List UInt8) (count : Nat)

def PosixAllowed : PosixOp → SysAnswer → Prop
  | .read _ count, .succeeds data _ => data.length ≤ count
  | .write _ bytes, .succeeds _ count => count ≤ bytes.length
  | _, _ => True

namespace Files

/-- The file that is open at `fd`. -/
def path (s : Files) (fd : Nat) : Option (List UInt8) := (s.fds[fd]?).join

/-- A file that is opened, with its contents after that. -/
def opened (s : Files) (path : List UInt8) (content : List UInt8) : Files × Except Int Nat :=
  (⟨Function.update s.content path (some content), s.fds ++ [some path]⟩, .ok s.fds.length)

def open_ (s : Files) (path : List UInt8) (flags : List OpenFlag) : Files × Except Int Nat :=
  match s.content path with
  | some content =>
    if .O_CREAT ∈ flags ∧ .O_EXCL ∈ flags then (s, .error EEXIST)
    else s.opened path (if .O_TRUNC ∈ flags then [] else content)
  | none => if .O_CREAT ∈ flags then s.opened path [] else (s, .error ENOENT)

def read (s : Files) (fd : Nat) (data : List UInt8) : Files × Except Int (List UInt8) :=
  if (s.path fd).isSome then (s, .ok data) else (s, .error EBADF)

/-- The end of the file is where its only writer is. -/
def append (s : Files) (path bytes : List UInt8) : Files :=
  { s with content := Function.update s.content path ((s.content path).map (· ++ bytes)) }

def write (s : Files) (fd : Nat) (bytes : List UInt8) (count : Nat) : Files × Except Int Nat :=
  match s.path fd with
  | some path => (s.append path (bytes.take count), .ok count)
  | none => (s, .error EBADF)

def closed (s : Files) (fd : Nat) : Files := { s with fds := s.fds.set fd none }

def close (s : Files) (fd : Nat) : Files × Except Int Unit :=
  if (s.path fd).isSome then (s.closed fd, .ok ()) else (s, .error EBADF)

end Files

/-- The effect of a system call. -/
def posix : Env PosixOp.Res Files SysAnswer
  | s, .openPath _ _, .fails errno => (s, .error errno)
  | s, .openPath path flags, .succeeds _ _ => s.open_ path flags
  | s, .read _ _, .fails errno => (s, .error errno)
  | s, .read fd _, .succeeds data _ => s.read fd data
  | s, .write _ _, .fails errno => (s, .error errno)
  | s, .write fd bytes, .succeeds _ count => s.write fd bytes count
  | s, .close fd, .fails errno => (s.closed fd, .error errno)
  | s, .close fd, .succeeds _ _ => s.close fd

-- ---------------------------------------------------------------------------
-- The calls that fail
-- ---------------------------------------------------------------------------

open Prog

/-- A failure that `cp` does not go on from. -/
def PosixCall.Fails (fdTo : Nat) : PosixCall → Prop
  | ⟨.read .., .error _⟩ => True
  | ⟨.write .., .error errno⟩ => errno ≠ EINTR
  | ⟨.close fd, .error _⟩ => fd = fdTo
  | _ => False

def Failed (fdTo : Nat) (log : List PosixCall) : Prop := ∃ call ∈ log, PosixCall.Fails fdTo call

section Failed

variable {fdTo : Nat} {call : PosixCall} {log log' : List PosixCall}

@[simp] theorem failed_nil : ¬Failed fdTo [] := fun ⟨_, hcall, _⟩ => nomatch hcall

@[simp] theorem failed_cons :
    Failed fdTo (call :: log) ↔ PosixCall.Fails fdTo call ∨ Failed fdTo log := by
  simp only [Failed, List.mem_cons, or_and_right, exists_or, exists_eq_left]

@[simp] theorem failed_append : Failed fdTo (log ++ log') ↔ Failed fdTo log ∨ Failed fdTo log' := by
  simp only [Failed, List.mem_append, or_and_right, exists_or]

end Failed

/-- The loop ends with an error if a write fails, unless it is interrupted. -/
theorem failed_writeData {fdTo fd bound outPtr nread : Nat} {buf : List UInt8}
    {log : List PosixCall} {r : Except Int Unit}
    (h : (writeData fdTo buf bound outPtr nread).Trace log (some r)) :
    Failed fd log ↔ r ≠ .ok () := by
  -- over the writes that are left
  induction bound generalizing outPtr nread log with
  | zero =>
    obtain ⟨-, hr⟩ := trace_pure.mp h
    cases hr
  | succ bound ih =>
    obtain ⟨written, rest, rfl, hrest⟩ := trace_perform_bind.mp h
    cases written with
    | ok nwritten =>
      dsimp only at hrest
      have hcall : ¬PosixCall.Fails fd ⟨.write fdTo ((buf.drop outPtr).take nread), .ok nwritten⟩ :=
        id
      rw [failed_cons, or_iff_right hcall]
      split at hrest
      · exact ih hrest
      · obtain ⟨rfl, hr⟩ := trace_pure.mp hrest
        cases hr
        simp
    -- EINTR is no failure, any other error is
    | error errno =>
      dsimp only at hrest
      rw [failed_cons]
      show errno ≠ EINTR ∨ Failed fd rest ↔ _
      split at hrest
      · rename_i herrno
        obtain ⟨rfl, hr⟩ := trace_pure.mp hrest
        cases hr
        simp [herrno]
      · rename_i herrno
        rw [or_iff_right herrno]
        split at hrest
        · exact ih hrest
        · obtain ⟨rfl, hr⟩ := trace_pure.mp hrest
          cases hr
          simp

/-- The loop ends with an error just if a read or a write fails for good. -/
theorem failed_copyData {fdFrom fdTo fd bound : Nat} {buf : List UInt8} {log : List PosixCall}
    {r : Except Int Unit} (h : (copyData fdFrom fdTo bound buf).Trace log (some r)) :
    Failed fd log ↔ r ≠ .ok () := by
  -- over the reads that are left
  induction bound generalizing buf log with
  | zero =>
    obtain ⟨-, hr⟩ := trace_pure.mp h
    cases hr
  | succ bound ih =>
    obtain ⟨data, rest, rfl, hrest⟩ := trace_perform_bind.mp h
    rw [failed_cons]
    match data, hrest with
    | .error errno, hrest =>
      obtain ⟨rfl, hr⟩ := trace_pure.mp hrest
      cases hr
      exact iff_of_true (.inl trivial) (by simp)
    -- the end of the source
    | .ok [], hrest =>
      obtain ⟨rfl, hr⟩ := trace_pure.mp hrest
      cases hr
      exact iff_of_false (by rintro (h | h); exacts [h, failed_nil h]) (by simp)
    | .ok (b :: data), hrest =>
      rw [or_iff_right (show ¬PosixCall.Fails fd ⟨.read fdFrom bufSize, .ok (b :: data)⟩ from id)]
      obtain ⟨written, first, last, rfl, hfirst, hlast⟩ := trace_bind.mp hrest
      rw [failed_append]
      match written, hfirst, hlast with
      | some (.ok ()), hfirst, hlast =>
        rw [or_iff_right ((failed_writeData hfirst).not.mpr (by simp))]
        exact ih hlast
      | some (.error errno), hfirst, hlast =>
        obtain ⟨rfl, hr⟩ := trace_pure.mp hlast
        cases hr
        rw [or_iff_left failed_nil]
        exact failed_writeData hfirst
      | none, hfirst, hlast =>
        obtain ⟨-, hr⟩ := trace_pure.mp hlast
        cases hr

/-- `cp` returns -1 if a call fails, the `close` of the source apart. -/
theorem failed_cpOpened {fdFrom fdTo bound : Nat} {buf : List UInt8} {log : List PosixCall}
    {r : Except Int Unit} (hne : fdFrom ≠ fdTo)
    (h : (cpOpened bound buf fdFrom fdTo).Trace log (some r)) :
    Failed fdTo log ↔ r ≠ .ok () := by
  obtain ⟨copied, first, rest, rfl, hfirst, hrest⟩ := trace_bind.mp h
  rw [failed_append]
  match copied, hfirst, hrest with
  | none, hfirst, hrest =>
    obtain ⟨-, hr⟩ := trace_pure.mp hrest
    cases hr
  -- a read or a write failed
  | some (.error errno), hfirst, hrest =>
    obtain ⟨_, log₁, rfl, h₁⟩ := trace_perform_bind.mp hrest
    obtain ⟨_, log₂, rfl, h₂⟩ := trace_perform_bind.mp h₁
    obtain ⟨rfl, hr⟩ := trace_pure.mp h₂
    cases hr
    exact iff_of_true (.inl ((failed_copyData hfirst).mpr (by simp))) (by simp)
  -- what can still fail is closing the target
  | some (.ok ()), hfirst, hrest =>
    rw [or_iff_right ((failed_copyData hfirst).not.mpr (by simp))]
    obtain ⟨closed, log₁, rfl, h₁⟩ := trace_perform_bind.mp hrest
    match closed, h₁ with
    | .error errno, h₁ =>
      obtain ⟨_, log₂, rfl, h₂⟩ := trace_perform_bind.mp h₁
      obtain ⟨rfl, hr⟩ := trace_pure.mp h₂
      cases hr
      exact iff_of_true ⟨_, List.mem_cons_self, rfl⟩ (by simp)
    | .ok (), h₁ =>
      obtain ⟨closedFrom, log₂, rfl, h₂⟩ := trace_perform_bind.mp h₁
      obtain ⟨rfl, hr⟩ := trace_pure.mp h₂
      cases hr
      refine iff_of_false ?_ (by simp)
      rw [failed_cons, failed_cons]
      rintro (hcall | hcall | hcall)
      · exact hcall
      · cases closedFrom with
        | ok u => exact hcall
        | error errno => exact hne hcall
      · exact failed_nil hcall

-- ---------------------------------------------------------------------------
-- The copy in a run
-- ---------------------------------------------------------------------------

/-- The source is opened at the next descriptor, or is not there. -/
theorem Files.open_source (s : Files) (path : List UInt8) :
    s.open_ path [.O_RDONLY] = (s, .error ENOENT) ∨
      s.open_ path [.O_RDONLY] = (⟨s.content, s.fds ++ [some path]⟩, .ok s.fds.length) := by
  unfold open_
  cases hcontent : s.content path with
  | none => exact .inl rfl
  | some content =>
    refine .inr ?_
    show s.opened path content = _
    unfold opened
    rw [← hcontent, Function.update_eq_self]

/-- A file that is created with `O_EXCL` was absent. -/
theorem Files.open_target (s : Files) (path : List UInt8) :
    s.open_ path createFlags = (s, .error EEXIST) ∨
      (s.content path = none ∧ s.open_ path createFlags = s.opened path []) := by
  unfold open_
  cases hcontent : s.content path with
  | none => exact .inr ⟨rfl, rfl⟩
  | some content => exact .inl rfl

/-- To open the source changes no file. -/
theorem posix_openSource (s : Files) (path : List UInt8) (c : SysAnswer) :
    (∃ errno, posix s (.openPath path [.O_RDONLY]) c = (s, .error errno)) ∨
      posix s (.openPath path [.O_RDONLY]) c =
        (⟨s.content, s.fds ++ [some path]⟩, .ok s.fds.length) := by
  cases c with
  | fails errno => exact .inl ⟨errno, rfl⟩
  | succeeds data count => exact (s.open_source path).imp_left fun h => ⟨ENOENT, h⟩

/-- To open the target creates it, or changes nothing. -/
theorem posix_openTarget (s : Files) (path : List UInt8) (c : SysAnswer) :
    (∃ errno, posix s (.openPath path createFlags) c = (s, .error errno)) ∨
      (s.content path = none ∧ posix s (.openPath path createFlags) c = s.opened path []) := by
  cases c with
  | fails errno => exact .inl ⟨errno, rfl⟩
  | succeeds data count => exact (s.open_target path).imp_left fun h => ⟨EEXIST, h⟩

/-- The calls on open files. -/
def PosixOp.OnOpen : PosixOp → Prop
  | .openPath .. => False
  | _ => True

/-- The loop that writes uses open files only. -/
theorem onOpen_writeData (fdTo bound outPtr nread : Nat) (buf : List UInt8) :
    (writeData fdTo buf bound outPtr nread).Calls PosixOp.OnOpen := by
  induction bound generalizing outPtr nread with
  | zero => exact .pure
  | succ bound ih =>
    refine .bind (.perform trivial) fun written => ?_
    cases written with
    | ok nwritten =>
      dsimp only
      split
      · exact ih _ _
      · exact .pure
    | error errno =>
      dsimp only
      split
      · exact .pure
      · split
        · exact ih _ _
        · exact .pure

/-- The loop that reads uses open files only. -/
theorem onOpen_copyData (fdFrom fdTo bound : Nat) (buf : List UInt8) :
    (copyData fdFrom fdTo bound buf).Calls PosixOp.OnOpen := by
  induction bound generalizing buf with
  | zero => exact .pure
  | succ bound ih =>
    refine .bind (.perform trivial) fun data => ?_
    match data with
    | .error errno => exact .pure
    | .ok [] => exact .pure
    | .ok (b :: data) =>
      refine .bind (onOpen_writeData _ _ _ _ _) fun written => ?_
      match written with
      | some (.ok ()) => exact ih _
      | some (.error errno) => exact .pure
      | none => exact .pure

/-- The exit for errors uses open files only. -/
theorem onOpen_outError (fdFrom : Nat) (fdTo : Option Nat) (errno : Int) :
    (outError fdFrom fdTo errno).Calls PosixOp.OnOpen := by
  refine .bind (.perform trivial) fun _ => ?_
  cases fdTo with
  | none => exact .pure
  | some fdTo => exact .bind (.perform trivial) fun _ => .pure

/-- What follows the two opens uses open files only. -/
theorem onOpen_cpOpened (bound : Nat) (buf : List UInt8) (fdFrom fdTo : Nat) :
    (cpOpened bound buf fdFrom fdTo).Calls PosixOp.OnOpen := by
  refine .bind (onOpen_copyData _ _ _ _) fun copied => ?_
  match copied with
  | none => exact .pure
  | some (.error errno) => exact onOpen_outError _ _ _
  | some (.ok ()) =>
    refine .bind (.perform trivial) fun closed => ?_
    match closed with
    | .error errno => exact onOpen_outError _ _ _
    | .ok () => exact .bind (.perform trivial) fun _ => .pure

/-- A file is still there after another, or its own contents, have changed. -/
theorem Files.isSome_update {content : List UInt8 → Option (List UInt8)} {path target : List UInt8}
    {new : Option (List UInt8)} (h : (content target).isSome = true)
    (hnew : path = target → new.isSome = true) :
    (Function.update content path new target).isSome = true := by
  by_cases heq : target = path
  · subst heq
    rw [Function.update_self]
    exact hnew rfl
  · rw [Function.update_of_ne heq]
    exact h

/-- Only a write changes what is in a file. -/
theorem Files.content_read (s : Files) (fd : Nat) (data : List UInt8) :
    (s.read fd data).1 = s := by
  unfold read
  split <;> rfl

/-- `close` leaves all contents. -/
theorem Files.content_close (s : Files) (fd : Nat) : (s.close fd).1.content = s.content := by
  unfold close
  split <;> rfl

/-- A write appends to the file of its descriptor, if it is open. -/
theorem Files.content_write (s : Files) (fd : Nat) (bytes : List UInt8) (count : Nat) :
    (s.write fd bytes count).1 =
      match s.path fd with
      | some path => s.append path (bytes.take count)
      | none => s := by
  unfold write
  split <;> rfl

/-- A file that exists stays: no call of `cp` removes one. -/
theorem exists_posix {s : Files} {target : List UInt8} (h : (s.content target).isSome = true)
    (o : PosixOp) (c : SysAnswer) (ho : o.OnOpen) :
    ((posix s o c).1.content target).isSome = true := by
  cases o with
  | openPath path flags => exact ho.elim
  | read fd count =>
    cases c with
    | fails errno => exact h
    | succeeds data n =>
      show ((s.read fd data).1.content target).isSome = true
      rw [s.content_read]
      exact h
  -- a write lengthens a file and removes none
  | write fd bytes =>
    cases c with
    | fails errno => exact h
    | succeeds data count =>
      show ((s.write fd bytes count).1.content target).isSome = true
      rw [s.content_write]
      split
      · refine Files.isSome_update h fun heq => ?_
        rw [heq, Option.isSome_map]
        exact h
      · exact h
  | close fd =>
    cases c with
    | fails errno => exact h
    | succeeds data n =>
      show ((s.close fd).1.content target).isSome = true
      rw [s.content_close]
      exact h

abbrev CpRuns {α : Type} (p : Posix α) (s : Files × List PosixCall) (a : α)
    (s' : Files × List PosixCall) : Prop :=
  Runs (logged posix) PosixAllowed p s a s'

/-- A target that cannot be opened is not touched. -/
theorem content_outError {fdFrom : Nat} {errno : Int} {s s' : Files × List PosixCall}
    {r : Option (Except Int Unit)} (h : CpRuns (outError fdFrom none errno) s r s') :
    r = some (.error errno) ∧ s'.1.content = s.1.content ∧
      ∃ closed, s'.2 = s.2 ++ [⟨.close fdFrom, closed⟩] := by
  obtain ⟨c, -, h₁⟩ := runs_call.mp h
  obtain ⟨rfl, rfl⟩ := runs_pure.mp h₁
  refine ⟨rfl, ?_, _, rfl⟩
  cases c with
  | fails errno => rfl
  | succeeds data count => exact s.1.content_close fdFrom

/-- A run in which `source` or `target` is not opened, or the run after both are. -/
theorem runs_cp {bound : Nat} {buf target source : List UInt8} {s s' : Files}
    {r : Except Int Unit} {log : List PosixCall}
    (h : CpRuns (cp bound buf target source) (s, []) (some r) (s', log)) :
    (r ≠ .ok () ∧ s'.content = s.content ∧
      ∀ fd, ⟨.openPath target createFlags, .ok fd⟩ ∉ log) ∨
    (s.content target = none ∧ ∃ fdFrom s₁ log₁,
      log₁ = [⟨.openPath source [.O_RDONLY], .ok fdFrom⟩,
        ⟨.openPath target createFlags, .ok (fdFrom + 1)⟩] ∧
      s₁.content = Function.update s.content target (some []) ∧
      s₁.path (fdFrom + 1) = some target ∧
      CpRuns (cpOpened bound buf fdFrom (fdFrom + 1)) (s₁, log₁) (some r) (s', log)) := by
  have hflags : createFlags ≠ [.O_RDONLY] := by decide
  obtain ⟨c, -, h₁⟩ := runs_call.mp h
  obtain ⟨errno, hopen⟩ | hopen := posix_openSource s source c
  -- the source cannot be opened
  · simp only [logged, hopen, List.nil_append] at h₁
    obtain ⟨hr, hs'⟩ := runs_pure.mp h₁
    obtain ⟨rfl, rfl⟩ := Prod.mk.inj hs'
    cases hr
    exact .inl ⟨by simp, rfl, by simp⟩
  · simp only [logged, hopen, List.nil_append] at h₁
    obtain ⟨c', -, h₂⟩ := runs_call.mp h₁
    obtain ⟨errno, hcreate⟩ | ⟨habsent, hcreate⟩ := posix_openTarget
      ⟨s.content, s.fds ++ [some source]⟩ target c'
    -- the target cannot be made; the source is closed
    · simp only [logged, hcreate] at h₂
      obtain ⟨hr, hcontent, closed, rfl⟩ := content_outError h₂
      cases hr
      exact .inl ⟨by simp, hcontent, by simp [hflags]⟩
    · simp only [logged, hcreate, Files.opened, List.length_append, List.length_singleton] at h₂
      exact .inr ⟨habsent, s.fds.length, _, _, rfl, rfl, by simp [Files.path], h₂⟩

/-- **A failed copy leaves nothing behind**, that is, `cp` returns -1 only with the target
as it was before, exactly if the target is not opened or no call fails after that. -/
theorem failed_copy_iff {bound : Nat} {buf target source : List UInt8} {s s' : Files}
    {r : Except Int Unit} {log : List PosixCall}
    (h : CpRuns (cp bound buf target source) (s, []) (some r) (s', log)) :
    (r ≠ .ok () → s'.content target = s.content target) ↔
      ∀ fdTo, ⟨.openPath target createFlags, .ok fdTo⟩ ∈ log → ¬Failed fdTo log := by
  obtain ⟨-, hcontent, hlog⟩ | ⟨habsent, fdFrom, s₁, log₁, rfl, hcontent, -, hopened⟩ := runs_cp h
  · exact iff_of_true (fun _ => by rw [hcontent]) fun fdTo hopen => absurd hopen (hlog fdTo)
  · obtain ⟨rest, hlog, htrace⟩ := hopened.trace
    dsimp only at hlog
    subst hlog
    have hcreated : (s₁.content target).isSome = true := by
      rw [hcontent, Function.update_self]
      rfl
    have hkeeps : Triple posix PosixAllowed (fun s => (s.content target).isSome = true)
        (cpOpened bound buf fdFrom (fdFrom + 1)) fun _ s => (s.content target).isSome = true :=
      (onOpen_cpOpened _ _ _ _).triple fun s o c ho hs => exists_posix hs o c ho
    -- the target was absent before, and is there once it was created
    have hleft : s'.content target ≠ s.content target := by
      rw [habsent]
      exact Option.isSome_iff_ne_none.mp (hkeeps _ _ _ hcreated hopened.unlogged)
    have hfailed := failed_cpOpened (Nat.succ_ne_self fdFrom).symm htrace
    -- the target is opened once
    have hfd : ∀ fdTo, ⟨.openPath target createFlags, .ok fdTo⟩ ∈
        [⟨.openPath source [.O_RDONLY], .ok fdFrom⟩,
          ⟨.openPath target createFlags, .ok (fdFrom + 1)⟩] ++ rest → fdTo = fdFrom + 1 := by
      intro fdTo hcall
      have hrest : ⟨.openPath target createFlags, .ok fdTo⟩ ∉ rest := fun hcall =>
        (onOpen_cpOpened bound buf fdFrom (fdFrom + 1)).of_trace htrace _ hcall
      rw [List.mem_append, or_iff_left hrest] at hcall
      simpa [createFlags] using hcall
    constructor
    · intro h fdTo hcall
      obtain rfl := hfd fdTo hcall
      by_cases hr : r = .ok ()
      · rw [failed_append, or_iff_right (by simp [PosixCall.Fails]), hfailed]
        simpa using hr
      · exact absurd (h hr) hleft
    · intro h hr
      have hnot := h (fdFrom + 1) (by simp)
      rw [failed_append] at hnot
      exact absurd (.inr (hfailed.mpr hr)) hnot

namespace DiskFull

def source : List UInt8 := [47, 97]

def target : List UInt8 := [47, 98]

/-- The source is there. -/
def disk : Files := ⟨fun path => if path = source then some [1, 2] else none, []⟩

def ENOSPC : Int := 28

/-- One of the two bytes is written. -/
def calls : List PosixCall :=
  [⟨.openPath source [.O_RDONLY], .ok 0⟩, ⟨.openPath target createFlags, .ok 1⟩,
    ⟨.read 0 bufSize, .ok [1, 2]⟩, ⟨.write 1 [1, 2], .ok 1⟩, ⟨.write 1 [2], .error ENOSPC⟩,
    ⟨.close 0, .ok ()⟩, ⟨.close 1, .ok ()⟩]

/-- `cp` runs like this, and one byte of the two is left in the target. -/
theorem run : ∃ left : Files,
    CpRuns (cp 3 [] target source) (disk, []) (some (.error ENOSPC)) (left, calls) ∧
    left.content target = some [1] ∧ disk.content target = none :=
  ⟨_, .call (c := .succeeds [] 0) trivial <| .call (c := .succeeds [] 0) trivial <|
    .call (c := .succeeds [1, 2] 0) (show 2 ≤ 4096 by decide) <|
    .call (c := .succeeds [] 1) (show 1 ≤ 2 by decide) <|
    .call (c := .fails ENOSPC) trivial <| .call (c := .succeeds [] 0) trivial <|
    .call (c := .succeeds [] 0) trivial <| .pure, rfl, rfl⟩

end DiskFull

open DiskFull in
/-- The disk is full after the first byte. -/
theorem failed_copy_iff_diskFull : ∃ left : Files,
    ((Except.error ENOSPC : Except Int Unit) ≠ .ok () →
        left.content target = disk.content target) ↔
      ∀ fdTo, ⟨.openPath target createFlags, .ok fdTo⟩ ∈ calls → ¬Failed fdTo calls :=
  run.imp fun _ h => failed_copy_iff h.1

open DiskFull in
/-- What was written of the copy is left. -/
theorem failed_copy_left : ¬ ∀ (bound : Nat) (buf target source : List UInt8) (s s' : Files)
    (r : Except Int Unit) (log : List PosixCall),
    CpRuns (cp bound buf target source) (s, []) (some r) (s', log) →
      r ≠ .ok () → s'.content target = s.content target := by
  intro h
  obtain ⟨left, hrun, hleft, habsent⟩ := run
  have hsame := h 3 [] target source disk left (.error ENOSPC) calls hrun (by simp)
  rw [hleft, habsent] at hsame
  cases hsame

end VfsRedirector.Client
