import VfsRedirector.Client.Copy

/-!
# What a copy holds

A copy that succeeds holds what was read of the source up to its end: the contents of
the target are the data of the reads in their order, whatever each read returns, however
little a write takes and however often it is interrupted.

The two loops share the number of bytes that are left. `writes_append` is what the inner
one does: the bytes from `outPtr` on, as many as are left, come to the end of the target.
`copy_append` puts one such step behind every read.

## Results

* `writes_append` — the writes append what they are given.
* `cpOpened_append` — the target gets what was read.
* `copy_exact` — a copy that succeeds is exact.
-/

namespace VfsRedirector.Client

open Library

-- ---------------------------------------------------------------------------
-- The reads
-- ---------------------------------------------------------------------------

/-- What a read of `fd` returns. -/
def PosixCall.readOf (fd : Nat) : PosixCall → Option (Except Int (List UInt8))
  | ⟨.read fd' _, data⟩ => if fd' = fd then some data else none
  | _ => none

/-- What the reads of `fd` have returned, in their order. -/
def readsOf (fd : Nat) (log : List PosixCall) : List (Except Int (List UInt8)) :=
  log.filterMap (PosixCall.readOf fd)

/-- The reads go through what is `left` of a file: each returns the next part of it, and
nothing only at the end. -/
def Delivers : List UInt8 → List (Except Int (List UInt8)) → Prop
  | _, [] => True
  | left, .error _ :: reads => Delivers left reads
  | left, .ok data :: reads =>
    data <+: left ∧ (data = [] → left = []) ∧ Delivers (left.drop data.length) reads

section Reads

variable {fd fd' count : Nat} {call : PosixCall} {log : List PosixCall} {bytes : List UInt8}

/-- The reads of two logs follow each other. -/
theorem readsOf_append (log' : List PosixCall) :
    readsOf fd (log ++ log') = readsOf fd log ++ readsOf fd log' :=
  List.filterMap_append

/-- A call that reads nothing of `fd` adds no read. -/
theorem readsOf_concat_none (h : call.readOf fd = none) :
    readsOf fd (log ++ [call]) = readsOf fd log := by
  rw [readsOf_append]
  simp [readsOf, h]

/-- A read adds what it returned. -/
theorem readsOf_concat_read (data : Except Int (List UInt8)) :
    readsOf fd (log ++ [⟨.read fd count, data⟩]) = readsOf fd log ++ [data] := by
  rw [readsOf_append]
  simp [readsOf, PosixCall.readOf]

/-- Reads that come to the end have delivered the whole file. -/
theorem Delivers.flatten_eq {content : List UInt8} {pieces : List (List UInt8)}
    (h : Delivers content (pieces.map .ok ++ [.ok []])) : pieces.flatten = content := by
  induction pieces generalizing content with
  | nil =>
    obtain ⟨-, hend, -⟩ := h
    exact (hend rfl).symm
  | cons piece pieces ih =>
    obtain ⟨hpart, -, hrest⟩ := h
    obtain ⟨left, rfl⟩ := hpart
    rw [List.drop_left] at hrest
    rw [List.flatten_cons, ih hrest]

end Reads

-- ---------------------------------------------------------------------------
-- The loops
-- ---------------------------------------------------------------------------

namespace Files

theorem append_nil (s : Files) (path : List UInt8) : s.append path [] = s := by
  unfold append
  simp

/-- To append twice is to append both parts at once. -/
theorem append_append (s : Files) (path first last : List UInt8) :
    (s.append path first).append path last = s.append path (first ++ last) := by
  unfold append
  simp only [Function.update_self, Function.update_idem, Option.map_map]
  congr 2
  exact congrArg (Option.map · _) (funext fun content => List.append_assoc content first last)

end Files

open Prog

/-- The effect of the loop that writes: the bytes are at the end of the target, in their
order and once each. -/
theorem writes_append (fd : Nat) {fdTo bound outPtr nread : Nat} {buf target : List UInt8}
    {s s' : Files × List PosixCall} (hpath : s.1.path fdTo = some target)
    (hleft : nread ≤ (buf.drop outPtr).length)
    (h : CpRuns (writeData fdTo buf bound outPtr nread) s (some (.ok ())) s') :
    s'.1 = s.1.append target ((buf.drop outPtr).take nread) ∧
      readsOf fd s'.2 = readsOf fd s.2 := by
  -- over the writes that are left; each takes some of the bytes that remain
  induction bound generalizing outPtr nread s with
  | zero =>
    obtain ⟨hr, -⟩ := runs_pure.mp h
    cases hr
  | succ bound ih =>
    set bytes := (buf.drop outPtr).take nread with hbytes
    obtain ⟨c, hc, h₁⟩ := runs_perform_bind.mp h
    cases c with
    | fails errno =>
      dsimp only [logged, posix] at h₁
      split at h₁
      · obtain ⟨hr, -⟩ := runs_pure.mp h₁
        cases hr
      · split at h₁
        · -- interrupted: the same bytes are written again, none of which was taken
          obtain ⟨hfiles, hreads⟩ := ih (by exact hpath) hleft h₁
          exact ⟨hfiles, hreads.trans (readsOf_concat_none rfl)⟩
        · rename_i hnone
          obtain rfl : nread = 0 := Nat.eq_zero_of_not_pos hnone
          obtain ⟨-, rfl⟩ := runs_pure.mp h₁
          refine ⟨?_, readsOf_concat_none rfl⟩
          rw [hbytes, List.take_zero, Files.append_nil]
    | succeeds data nwritten =>
      -- a write takes no more than it is given
      have htaken : nwritten ≤ nread := by
        have hcount : nwritten ≤ bytes.length := hc
        rw [hbytes, List.length_take] at hcount
        omega
      have hwrite : s.1.write fdTo bytes nwritten =
          (s.1.append target (bytes.take nwritten), .ok nwritten) := by
        unfold Files.write
        rw [hpath]
      dsimp only [logged, posix] at h₁
      rw [← hbytes, hwrite] at h₁
      dsimp only at h₁
      split at h₁
      -- bytes remain: the next write begins where this one ended
      · have hnext : nread - nwritten ≤ (buf.drop (outPtr + nwritten)).length := by
          rw [List.length_drop] at hleft ⊢
          omega
        obtain ⟨hfiles, hreads⟩ := ih (by exact hpath) hnext h₁
        refine ⟨?_, hreads.trans (readsOf_concat_none rfl)⟩
        rw [hfiles, Files.append_append, hbytes, List.take_take, Nat.min_eq_left htaken,
          ← List.drop_drop, ← List.take_add, Nat.add_sub_cancel' htaken]
      · rename_i hdone
        have hall : nwritten = nread := by omega
        obtain ⟨-, rfl⟩ := runs_pure.mp h₁
        refine ⟨?_, readsOf_concat_none rfl⟩
        rw [hbytes, List.take_take, hall, Nat.min_self]

/-- The effect of the loop that reads: what was read is at the end of the target. -/
theorem copy_append {fdFrom fdTo bound : Nat} {buf target : List UInt8}
    {s s' : Files × List PosixCall} (hpath : s.1.path fdTo = some target)
    (h : CpRuns (copyData fdFrom fdTo bound buf) s (some (.ok ())) s') :
    ∃ pieces : List (List UInt8), (∀ piece ∈ pieces, piece ≠ []) ∧
      readsOf fdFrom s'.2 = readsOf fdFrom s.2 ++ (pieces.map .ok ++ [.ok []]) ∧
      s'.1 = s.1.append target pieces.flatten := by
  induction bound generalizing buf s with
  | zero =>
    obtain ⟨hr, -⟩ := runs_pure.mp h
    cases hr
  | succ bound ih =>
    obtain ⟨c, -, h₁⟩ := runs_perform_bind.mp h
    have hfiles : (posix s.1 (.read fdFrom bufSize) c).1 = s.1 := by
      cases c with
      | fails errno => rfl
      | succeeds data count => exact s.1.content_read fdFrom data
    dsimp only [logged] at h₁
    rw [hfiles] at h₁
    generalize (posix s.1 (.read fdFrom bufSize) c).2 = data at h₁
    match data, h₁ with
    | .error errno, h₁ =>
      obtain ⟨hr, -⟩ := runs_pure.mp h₁
      cases hr
    | .ok [], h₁ =>
      obtain ⟨-, rfl⟩ := runs_pure.mp h₁
      refine ⟨[], by simp, readsOf_concat_read _, ?_⟩
      rw [List.flatten_nil, Files.append_nil]
    | .ok (b :: data), h₁ =>
      obtain ⟨written, s₂, hwrites, hrest⟩ := runs_bind.mp h₁
      match written, hrest with
      | none, hrest =>
        obtain ⟨hr, -⟩ := runs_pure.mp hrest
        cases hr
      | some (.error errno), hrest =>
        obtain ⟨hr, -⟩ := runs_pure.mp hrest
        cases hr
      | some (.ok ()), hrest =>
        -- the buffer starts with what was read, so just this is written
        obtain ⟨hfiles₂, hreads₂⟩ := writes_append fdFrom
          (s := (s.1, s.2 ++ [⟨.read fdFrom bufSize, .ok (b :: data)⟩])) hpath (by simp) hwrites
        rw [List.drop_zero, List.take_left] at hfiles₂
        have hpath₂ : s₂.1.path fdTo = some target := by
          rw [hfiles₂]
          exact hpath
        obtain ⟨pieces, hne, hreads, hfiles'⟩ := ih hpath₂ hrest
        refine ⟨(b :: data) :: pieces, List.forall_mem_cons.mpr ⟨by simp, hne⟩, ?_, ?_⟩
        · rw [hreads, hreads₂, readsOf_concat_read]
          simp
        · rw [hfiles', hfiles₂, Files.append_append, List.flatten_cons]

-- ---------------------------------------------------------------------------
-- The copy
-- ---------------------------------------------------------------------------

/-- `close` changes no contents. -/
theorem posix_close_content (s : Files) (fd : Nat) (c : SysAnswer) :
    (posix s (.close fd) c).1.content = s.content := by
  cases c with
  | fails errno => rfl
  | succeeds data count => exact s.content_close fd

/-- With both files open, `cp` succeeds at the end of the source only. -/
theorem cpOpened_append {fdFrom fdTo bound : Nat} {buf target : List UInt8}
    {s s' : Files × List PosixCall} (hpath : s.1.path fdTo = some target)
    (h : CpRuns (cpOpened bound buf fdFrom fdTo) s (some (.ok ())) s') :
    ∃ pieces : List (List UInt8), (∀ piece ∈ pieces, piece ≠ []) ∧
      readsOf fdFrom s'.2 = readsOf fdFrom s.2 ++ (pieces.map .ok ++ [.ok []]) ∧
      s'.1.content = (s.1.append target pieces.flatten).content := by
  obtain ⟨copied, s₁, hcopied, hrest⟩ := runs_bind.mp h
  match copied, hcopied, hrest with
  | none, _, hrest =>
    obtain ⟨hr, -⟩ := runs_pure.mp hrest
    cases hr
  -- the copy failed: both files are closed and cp fails
  | some (.error errno), _, hrest =>
    obtain ⟨_, -, h₁⟩ := runs_perform_bind.mp hrest
    obtain ⟨_, -, h₂⟩ := runs_perform_bind.mp h₁
    obtain ⟨hr, -⟩ := runs_pure.mp h₂
    cases hr
  -- all was copied; closing the target can still fail
  | some (.ok ()), hcopied, hrest =>
    obtain ⟨pieces, hne, hreads, hfiles⟩ := copy_append hpath hcopied
    obtain ⟨c, -, h₁⟩ := runs_perform_bind.mp hrest
    dsimp only [logged] at h₁
    generalize hclosed : (posix s₁.1 (.close fdTo) c).2 = closed at h₁
    match closed, h₁ with
    | .error errno, h₁ =>
      obtain ⟨_, -, h₂⟩ := runs_perform_bind.mp h₁
      obtain ⟨hr, -⟩ := runs_pure.mp h₂
      cases hr
    | .ok (), h₁ =>
      obtain ⟨c', -, h₂⟩ := runs_perform_bind.mp h₁
      obtain ⟨-, rfl⟩ := runs_pure.mp h₂
      refine ⟨pieces, hne, ?_, ?_⟩
      · exact (readsOf_concat_none rfl).trans ((readsOf_concat_none rfl).trans hreads)
      · dsimp only [logged]
        rw [posix_close_content, posix_close_content, hfiles]

/-- **A copy is exact**: if `cp` returns 0 then the target was absent, and holds what the
reads of the source have returned, up to the end of the source. -/
theorem copy_exact {bound : Nat} {buf target source : List UInt8} {s s' : Files}
    {log : List PosixCall}
    (h : CpRuns (cp bound buf target source) (s, []) (some (.ok ())) (s', log)) :
    s.content target = none ∧ ∃ (fdFrom : Nat) (pieces : List (List UInt8)),
      ⟨.openPath source [.O_RDONLY], .ok fdFrom⟩ ∈ log ∧
      (∀ piece ∈ pieces, piece ≠ []) ∧
      readsOf fdFrom log = pieces.map .ok ++ [.ok []] ∧
      s'.content = Function.update s.content target (some pieces.flatten) ∧
      ∀ content, Delivers content (readsOf fdFrom log) → s'.content target = some content := by
  obtain ⟨hr, -⟩ | ⟨habsent, fdFrom, s₁, log₁, rfl, hcontent, hpath, hopened⟩ := runs_cp h
  · exact absurd rfl hr
  · obtain ⟨pieces, hne, hreads, hcontent'⟩ := cpOpened_append hpath hopened
    have hpieces : s'.content = Function.update s.content target (some pieces.flatten) := by
      rw [show s'.content = (s₁.append target pieces.flatten).content from hcontent']
      unfold Files.append
      simp [hcontent]
    have hlog : ⟨.openPath source [.O_RDONLY], .ok fdFrom⟩ ∈ log :=
      triple_mem_log _ _ _ _ _ List.mem_cons_self hopened
    refine ⟨habsent, fdFrom, pieces, hlog, hne, hreads, hpieces, fun content hdelivers => ?_⟩
    rw [show readsOf fdFrom log = _ from hreads] at hdelivers
    rw [hpieces, Function.update_self, ← hdelivers.flatten_eq]

namespace Interrupted

def source : List UInt8 := [47, 97]

def target : List UInt8 := [47, 98]

def disk : Files := ⟨fun path => if path = source then some [1, 2, 3, 4] else none, []⟩

/-- Of three bytes none is written at first, then one, then two after an interruption. -/
def calls : List PosixCall :=
  [⟨.openPath source [.O_RDONLY], .ok 0⟩, ⟨.openPath target createFlags, .ok 1⟩,
    ⟨.read 0 bufSize, .ok [1, 2, 3]⟩, ⟨.write 1 [1, 2, 3], .ok 0⟩, ⟨.write 1 [1, 2, 3], .ok 1⟩,
    ⟨.write 1 [2, 3], .error EINTR⟩, ⟨.write 1 [2, 3], .ok 2⟩, ⟨.read 0 bufSize, .ok [4]⟩,
    ⟨.write 1 [4], .ok 1⟩, ⟨.read 0 bufSize, .ok []⟩, ⟨.close 1, .ok ()⟩, ⟨.close 0, .ok ()⟩]

/-- `cp` runs like this. -/
theorem run : ∃ copied : Files,
    CpRuns (cp 5 [] target source) (disk, []) (some (.ok ())) (copied, calls) :=
  ⟨_, .call (c := .succeeds [] 0) trivial <| .call (c := .succeeds [] 0) trivial <|
    .call (c := .succeeds [1, 2, 3] 0) (show 3 ≤ 4096 by decide) <|
    .call (c := .succeeds [] 0) (show 0 ≤ 3 by decide) <|
    .call (c := .succeeds [] 1) (show 1 ≤ 3 by decide) <|
    .call (c := .fails EINTR) trivial <| .call (c := .succeeds [] 2) (show 2 ≤ 2 by decide) <|
    .call (c := .succeeds [4] 0) (show 1 ≤ 4096 by decide) <|
    .call (c := .succeeds [] 1) (show 1 ≤ 1 by decide) <|
    .call (c := .succeeds [] 0) (show 0 ≤ 4096 by decide) <|
    .call (c := .succeeds [] 0) trivial <| .call (c := .succeeds [] 0) trivial <| .pure⟩

end Interrupted

open Interrupted in
/-- A copy with short writes and an interruption. -/
theorem copy_exact_interrupted : ∃ copied : Files,
    disk.content target = none ∧ ∃ (fdFrom : Nat) (pieces : List (List UInt8)),
      ⟨.openPath source [.O_RDONLY], .ok fdFrom⟩ ∈ calls ∧
      (∀ piece ∈ pieces, piece ≠ []) ∧
      readsOf fdFrom calls = pieces.map .ok ++ [.ok []] ∧
      copied.content = Function.update disk.content target (some pieces.flatten) ∧
      ∀ content, Delivers content (readsOf fdFrom calls) →
        copied.content target = some content :=
  run.imp fun _ h => copy_exact h

end VfsRedirector.Client
