import Mathlib.Algebra.Order.Ring.Int
import Mathlib.Algebra.Order.Ring.Nat
import Mathlib.Data.List.Basic

/-!
# C strings and the buffers they live in

A pointer is given by the bytes from where it points to the end of the object
it points into, so that advancing it is `List.drop` and a read past the end of
the object is a read from the empty list. Every access is checked: an operation
is `none` when C would read or write outside of an object. A program that is
`some` on an input has therefore stayed inside its buffers on it.

The rules are about a terminated string, which in memory is `s ++ 0 :: rest`
for an `s` without a zero byte.

## Results

* `strlen_terminated` — `strlen` of a terminated string.
* `memcpy_split` — a copy over as many bytes.
* `strncasecmpEq_terminated` — a comparison with the whole of a string.
-/

namespace VfsRedirector.Library

variable {s p dst src found : List UInt8} {rest l a b : List UInt8} {c : UInt8} {n : Nat}

/-- The string at a pointer, if it is terminated inside its object. -/
def cstring : List UInt8 → Option (List UInt8)
  | [] => none
  | c :: p => if c = 0 then some [] else (cstring p).map (c :: ·)

def strlen (p : List UInt8) : Option Nat := (cstring p).map List.length

def tolower (c : UInt8) : UInt8 := if 65 ≤ c ∧ c ≤ 90 then c + 32 else c

/-- Whether `strncasecmp` gives 0: it stops at the first difference, at a
terminator or after `n` bytes, and reads no further. -/
def strncasecmpEq : Nat → List UInt8 → List UInt8 → Option Bool
  | 0, _, _ => some true
  | n + 1, c :: p, d :: q =>
    if tolower c ≠ tolower d then some false
    else if c = 0 then some true
    else strncasecmpEq n p q
  | _ + 1, _, _ => none

/-- `dst` with `bytes` written from `pos` on. -/
def write (dst : List UInt8) (pos : Nat) (bytes : List UInt8) : Option (List UInt8) :=
  if pos + bytes.length ≤ dst.length then
    some (dst.take pos ++ bytes ++ dst.drop (pos + bytes.length))
  else none

/-- Writes the first `n` bytes of `src` to `&dst[pos]`. -/
def memcpy (dst : List UInt8) (pos : Nat) (src : List UInt8) (n : Nat) : Option (List UInt8) :=
  if n ≤ src.length then write dst pos (src.take n) else none

/-- Moves `n` bytes inside a buffer; the two ranges may overlap. -/
def memmove (buf : List UInt8) (pos from' n : Nat) : Option (List UInt8) :=
  memcpy buf pos (buf.drop from') n

/-- An allocation of `size` bytes; `found` is what it finds in memory, `none`
when it fails. -/
def allocate (found : Option (Nat → UInt8)) (size : Nat) : Option (List UInt8) :=
  found.map fun m => (List.range size).map m

/-- The string in a buffer ends at its terminator. -/
theorem cstring_terminated (h : 0 ∉ s) : cstring (s ++ 0 :: rest) = some s := by
  induction s with
  | nil => simp [cstring]
  | cons c s ih =>
    rw [List.mem_cons, not_or] at h
    rw [List.cons_append, cstring, if_neg (Ne.symm h.1), ih h.2]
    rfl

/-- What `cstring` reads is followed by the terminator. -/
theorem eq_of_cstring (h : cstring p = some s) : ∃ rest, p = s ++ 0 :: rest ∧ 0 ∉ s := by
  induction p generalizing s with
  | nil => simp [cstring] at h
  | cons c p ih =>
    rw [cstring] at h
    by_cases hc : c = 0
    · rw [if_pos hc, Option.some.injEq] at h
      subst h hc
      exact ⟨p, rfl, by simp⟩
    · rw [if_neg hc, Option.map_eq_some_iff] at h
      obtain ⟨s', hs', rfl⟩ := h
      obtain ⟨rest, rfl, h0⟩ := ih hs'
      exact ⟨rest, rfl, by simp [Ne.symm hc, h0]⟩

/-- A string that ends is the same in a longer object. -/
theorem cstring_append (h : cstring p = some s) (rest : List UInt8) :
    cstring (p ++ rest) = some s := by
  obtain ⟨tail, rfl, h0⟩ := eq_of_cstring h
  rw [List.append_assoc]
  exact cstring_terminated h0

/-- `strlen` is the length of what is before the terminator. -/
theorem strlen_terminated (h : 0 ∉ s) : strlen (s ++ 0 :: rest) = some s.length := by
  rw [strlen, cstring_terminated h]
  rfl

@[simp] theorem allocate_none : allocate none n = none := rfl

/-- An allocation that succeeds gives a buffer of its size, whatever is in it. -/
theorem allocate_some (m : Nat → UInt8) (size : Nat) :
    ∃ buf, allocate (some m) size = some buf ∧ buf.length = size :=
  ⟨(List.range size).map m, rfl, by simp⟩

/-- A buffer that is long enough, split after its first `n` bytes. -/
theorem split_at (h : n ≤ p.length) : ∃ l b, p = l ++ b ∧ l.length = n :=
  ⟨p.take n, p.drop n, (List.take_append_drop n p).symm, List.length_take_of_le h⟩

/-- Writing over `l` in a buffer `a ++ l ++ b`. -/
theorem write_split (hl : l.length = s.length) :
    write (a ++ (l ++ b)) a.length s = some (a ++ (s ++ b)) := by
  have hfits : a.length + s.length ≤ (a ++ (l ++ b)).length := by
    simp only [List.length_append]
    omega
  rw [write, if_pos hfits, List.take_left, ← List.drop_drop, List.drop_left, ← hl, List.drop_left,
    List.append_assoc]

/-- The bytes are copied over as many others, and the rest stays. -/
theorem memcpy_split (hl : l.length = n) (hn : n ≤ src.length) :
    memcpy (a ++ (l ++ b)) a.length src n = some (a ++ (src.take n ++ b)) := by
  rw [memcpy, if_pos hn]
  apply write_split
  rw [hl, List.length_take_of_le hn]

/-- Copying a string with its terminator. -/
theorem memcpy_string (hl : l.length = s.length + 1) :
    memcpy (a ++ (l ++ b)) a.length (s ++ 0 :: rest) (s.length + 1) =
      some (a ++ (s ++ 0 :: b)) := by
  have htake : (s ++ 0 :: rest).take (s.length + 1) = s ++ [0] := by
    rw [List.take_length_add_append]
    rfl
  rw [memcpy_split hl (by simp), htake, List.append_assoc]
  rfl

/-- Only a letter is what another byte becomes. -/
theorem tolower_eq_iff (hn : c.toNat < 65) {d : UInt8} : tolower d = c ↔ d = c := by
  unfold tolower
  split
  · next hupper =>
    obtain ⟨hlo, hhi⟩ := hupper
    rw [UInt8.le_iff_toNat_le] at hlo hhi
    rw [← UInt8.toNat_inj, ← UInt8.toNat_inj, UInt8.toNat_add]
    simp at hlo hhi ⊢
    omega
  · rfl

/-- Only the terminator has the terminator as its lower case. -/
theorem tolower_eq_zero : tolower c = 0 ↔ c = 0 := tolower_eq_iff (by decide)

/-- Comparing a terminated string with the whole of another one. -/
theorem strncasecmpEq_terminated {q tail : List UInt8} (hs : 0 ∉ s) (hq : 0 ∉ q) :
    strncasecmpEq q.length (s ++ 0 :: rest) (q ++ tail) =
      some (decide ((s.take q.length).map tolower = q.map tolower)) := by
  induction q generalizing s with
  | nil => simp [strncasecmpEq]
  | cons d q ih =>
    rw [List.mem_cons, not_or] at hq
    have hd : tolower d ≠ 0 := fun h => hq.1 (tolower_eq_zero.mp h).symm
    cases s with
    | nil =>
      have hdiff : tolower 0 ≠ tolower d := by
        rw [tolower_eq_zero.mpr rfl]
        exact hd.symm
      simp [strncasecmpEq, hdiff]
    | cons c s =>
      rw [List.mem_cons, not_or] at hs
      by_cases hcd : tolower c = tolower d
      · have hc : c ≠ 0 := Ne.symm hs.1
        simp [strncasecmpEq, hcd, hc, ih hs.2 hq.2]
      · simp [strncasecmpEq, hcd]

end VfsRedirector.Library
