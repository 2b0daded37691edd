import VfsRedirector.Library.CString

/-!
# C objects in memory

The fields of a struct or a union are at fixed places in a run of bytes. `Layout`
computes these places as a C compiler does: each field at the next multiple of
its alignment, the whole rounded up to the greatest one.

`HoldsAt m pos bytes` says that the bytes are found at a place. Writing a field
makes it hold what is written and leaves every field alone that does not overlap
(`write_spec`). Integers are little-endian.

## Results

* `ofLE_toLE` — a number is read as it was written.
* `Fields.write_next` — one more field, behind the others.
* `Fields.readLE`, `Fields.readString` — each field is read as it was written.
-/

namespace VfsRedirector.Library

/-- Size and alignment of a type. -/
structure Layout where
  size : Nat
  align : Nat

namespace Layout

def roundUp (n a : Nat) : Nat := (n + (a - 1)) / a * a

def array (l : Layout) (n : Nat) : Layout := ⟨l.size * n, l.align⟩

/-- Where the fields begin that follow on `pos`, and where the last of them ends. -/
def place : Nat → List Layout → List Nat × Nat
  | pos, [] => ([], pos)
  | pos, field :: fields =>
    let start := roundUp pos field.align
    let (starts, stop) := place (start + field.size) fields
    (start :: starts, stop)

def maxAlign (fields : List Layout) : Nat := (fields.map align).foldr max 1

def struct (fields : List Layout) : Layout :=
  ⟨roundUp (place 0 fields).2 (maxAlign fields), maxAlign fields⟩

def union (members : List Layout) : Layout :=
  ⟨roundUp ((members.map size).foldr max 0) (maxAlign members), maxAlign members⟩

/-- Where the `i`-th field of a struct is. -/
def offset (fields : List Layout) (i : Nat) : Nat := (place 0 fields).1.getD i 0

end Layout

-- ---------------------------------------------------------------------------
-- Integers
-- ---------------------------------------------------------------------------

/-- The `w` lowest bytes of a number. -/
def toLE : Nat → Nat → List UInt8
  | 0, _ => []
  | w + 1, n => UInt8.ofNat n :: toLE w (n / 256)

def ofLE : List UInt8 → Nat
  | [] => 0
  | c :: bytes => c.toNat + 256 * ofLE bytes

@[simp] theorem length_toLE (w n : Nat) : (toLE w n).length = w := by
  induction w generalizing n with
  | zero => rfl
  | succ w ih => rw [toLE, List.length_cons, ih]

/-- A number that was written in `w` bytes is read modulo `256 ^ w`. -/
theorem ofLE_toLE (w n : Nat) : ofLE (toLE w n) = n % 256 ^ w := by
  induction w generalizing n with
  | zero => rw [toLE, ofLE, Nat.pow_zero, Nat.mod_one]
  | succ w ih =>
    rw [toLE, ofLE, ih, Nat.pow_succ', Nat.mod_mul]
    simp

/-- The lowest bytes come first. -/
theorem toLE_take (n : Nat) {w w' : Nat} (h : w ≤ w') : (toLE w' n).take w = toLE w n := by
  induction w generalizing n w' with
  | zero => rfl
  | succ w ih =>
    cases w' with
    | zero => omega
    | succ w' =>
      unfold toLE
      rw [List.take_succ_cons, ih _ (by omega)]

-- ---------------------------------------------------------------------------
-- Places
-- ---------------------------------------------------------------------------

/-- The bytes are at `pos`. -/
def HoldsAt (m : List UInt8) (pos : Nat) (bytes : List UInt8) : Prop :=
  ∀ i, i < bytes.length → m[pos + i]? = bytes[i]?

/-- What is not between `lo` and `hi` is the same. -/
def SameOutside (m m' : List UInt8) (lo hi : Nat) : Prop :=
  m'.length = m.length ∧ ∀ j, j < lo ∨ hi ≤ j → m'[j]? = m[j]?

variable {m m' bytes s rest : List UInt8} {pos lo hi n w bits : Nat}

/-- What is apart from a write is as it was. -/
theorem HoldsAt.of_sameOutside (h : HoldsAt m pos bytes) (hsame : SameOutside m m' lo hi)
    (hapart : pos + bytes.length ≤ lo ∨ hi ≤ pos) : HoldsAt m' pos bytes := by
  intro i hi'
  rw [hsame.2 _ (by omega)]
  exact h i hi'

/-- The lower half of an integer is where the whole is. -/
theorem HoldsAt.of_le (h : HoldsAt m pos (toLE w n)) {v : Nat} (hv : v ≤ w) :
    HoldsAt m pos (toLE v n) := by
  intro i hi
  rw [length_toLE] at hi
  rw [h i (by rw [length_toLE]; omega), ← toLE_take n hv, List.getElem?_take_of_lt hi]

/-- What is at a place and after it. -/
theorem HoldsAt.drop_eq (h : HoldsAt m pos bytes) :
    m.drop pos = bytes ++ m.drop (pos + bytes.length) := by
  refine List.ext_getElem? fun i => ?_
  rw [List.getElem?_drop]
  by_cases hi : i < bytes.length
  · rw [List.getElem?_append_left hi, h i hi]
  · rw [List.getElem?_append_right (by omega), List.getElem?_drop]
    congr 1
    omega

/-- A prefix of the memory holds what it held in its bounds. -/
theorem HoldsAt.take (h : HoldsAt m pos bytes) (hlen : pos + bytes.length ≤ n) :
    HoldsAt (m.take n ++ rest) pos bytes := by
  intro i hi
  have hm := h i hi
  have hin : pos + i < m.length := by
    by_contra hout
    rw [List.getElem?_eq_none (by omega), eq_comm, List.getElem?_eq_none_iff] at hm
    omega
  rw [List.getElem?_append_left (by rw [List.length_take]; omega),
    List.getElem?_take_of_lt (by omega)]
  exact hm

/-- Writing inside of the memory. -/
theorem write_spec (h : pos + bytes.length ≤ m.length) :
    ∃ m', write m pos bytes = some m' ∧ HoldsAt m' pos bytes ∧
      SameOutside m m' pos (pos + bytes.length) := by
  have htake : (m.take pos).length = pos := by
    rw [List.length_take]
    omega
  refine ⟨_, if_pos h, fun i hi => ?_, ?_, fun j hj => ?_⟩
  · rw [List.append_assoc, List.getElem?_append_right (by omega), htake,
      List.getElem?_append_left (by omega), Nat.add_sub_cancel_left]
  · simp only [List.length_append, List.length_drop, htake]
    omega
  · rw [List.append_assoc]
    obtain hj | hj := hj
    · rw [List.getElem?_append_left (by omega), List.getElem?_take_of_lt hj]
    · rw [List.getElem?_append_right (by omega), List.getElem?_append_right (by omega),
        List.getElem?_drop, htake]
      congr 1
      omega

-- ---------------------------------------------------------------------------
-- Reading
-- ---------------------------------------------------------------------------

/-- `n` bytes at a place. -/
def readBytes (m : List UInt8) (pos n : Nat) : Option (List UInt8) :=
  if pos + n ≤ m.length then some ((m.drop pos).take n) else none

/-- The integer of `w` bytes at a place. -/
def readLE (m : List UInt8) (pos w : Nat) : Option Nat := (readBytes m pos w).map ofLE

/-- A number that memory holds is read modulo its width. -/
theorem HoldsAt.readLE (h : HoldsAt m pos (toLE w n)) (hlen : pos + w ≤ m.length) :
    readLE m pos w = some (n % 256 ^ w) := by
  rw [Library.readLE, readBytes, if_pos hlen, h.drop_eq, Option.map_some,
    List.take_left' (length_toLE w n), ofLE_toLE]

/-- The string in the `n` bytes at a place. -/
def readString (m : List UInt8) (pos n : Nat) : Option (List UInt8) :=
  (readBytes m pos n).bind cstring

/-- A string with its terminator is what a reader finds at its place. -/
theorem HoldsAt.cstring (h : HoldsAt m pos (s ++ [0])) (hs : 0 ∉ s) :
    cstring (m.drop pos) = some s := by
  rw [h.drop_eq, List.append_assoc]
  exact cstring_terminated hs

/-- A string that memory holds in its field is read. -/
theorem HoldsAt.readString (h : HoldsAt m pos (s ++ [0])) (hs : 0 ∉ s) (hn : s.length < n)
    (hlen : pos + n ≤ m.length) : readString m pos n = some s := by
  have htake : (m.drop pos).take n =
      s ++ 0 :: (m.drop (pos + (s ++ [0]).length)).take (n - (s ++ [0]).length) := by
    rw [h.drop_eq, List.take_append,
      List.take_of_length_le (by rw [List.length_append]; exact hn), List.append_assoc]
    rfl
  rw [Library.readString, readBytes, if_pos hlen, Option.bind_some, htake]
  exact cstring_terminated hs

/-- What a field holds can be read past the end of the field. -/
theorem cstring_of_readString (h : readString m pos n = some s) :
    cstring (m.drop pos) = some s := by
  unfold readString readBytes at h
  split at h
  · rw [← List.take_append_drop n (m.drop pos)]
    exact cstring_append h _
  · cases h

/-- Reading behind the place up to which two memories differ. -/
theorem readLE_congr (hlen : m.length = m'.length) {k : Nat} (hdrop : m.drop k = m'.drop k)
    (hk : k ≤ pos) : readLE m pos w = readLE m' pos w := by
  have hpos : m.drop pos = m'.drop pos := by
    obtain ⟨i, rfl⟩ := Nat.exists_eq_add_of_le hk
    rw [← List.drop_drop, ← List.drop_drop, hdrop]
  unfold readLE readBytes
  rw [hlen, hpos]

-- ---------------------------------------------------------------------------
-- Several places at once
-- ---------------------------------------------------------------------------

/-- Each place of the list holds its bytes, in a memory of `n` bytes. -/
def Fields (n : Nat) (fields : List (Nat × List UInt8)) (m : List UInt8) : Prop :=
  m.length = n ∧ ∀ field ∈ fields, HoldsAt m field.1 field.2

/-- They all end before `pos`. -/
def Below (fields : List (Nat × List UInt8)) (pos : Nat) : Prop :=
  ∀ field ∈ fields, field.1 + field.2.length ≤ pos

variable {fields : List (Nat × List UInt8)}

/-- Memory in which no field is filled yet. -/
theorem Fields.nil (h : m.length = n) : Fields n [] m :=
  ⟨h, fun _ hfield => absurd hfield List.not_mem_nil⟩

/-- Writing apart from the places that hold something. -/
theorem Fields.write (h : Fields n fields m) (hin : pos + bytes.length ≤ n)
    (hapart : ∀ field ∈ fields, field.1 + field.2.length ≤ pos ∨ pos + bytes.length ≤ field.1) :
    ∃ m', write m pos bytes = some m' ∧ Fields n ((pos, bytes) :: fields) m' := by
  obtain ⟨hlen, hholds⟩ := h
  obtain ⟨m', hwrite, hnew, hsame⟩ := @write_spec m bytes pos (by omega)
  refine ⟨m', hwrite, hsame.1.trans hlen, fun field hfield => ?_⟩
  obtain rfl | hfield := List.mem_cons.mp hfield
  · exact hnew
  · exact (hholds field hfield).of_sameOutside hsame (hapart field hfield)

/-- No fields are below every place. -/
theorem Below.nil : Below [] pos := fun _ hfield => absurd hfield List.not_mem_nil

/-- A field that begins where the others end keeps them below its own end. -/
theorem Below.cons (h : Below fields lo) (hlo : lo ≤ hi) (hpos : pos + bytes.length ≤ hi) :
    Below ((pos, bytes) :: fields) hi := by
  intro field hfield
  obtain rfl | hfield := List.mem_cons.mp hfield
  · exact hpos
  · exact Nat.le_trans (h field hfield) hlo

/-- Writing in ascending order: what is written lies before `hi` then. -/
theorem Fields.write_next (h : Fields n fields m) (hbelow : Below fields lo) (hlo : lo ≤ pos)
    (hpos : pos + bytes.length ≤ hi) (hin : hi ≤ n) :
    ∃ m', Library.write m pos bytes = some m' ∧ Fields n ((pos, bytes) :: fields) m' ∧
      Below ((pos, bytes) :: fields) hi := by
  obtain ⟨m', hwrite, hfields⟩ := h.write (Nat.le_trans hpos hin)
    fun field hfield => Or.inl (Nat.le_trans (hbelow field hfield) hlo)
  exact ⟨m', hwrite, hfields, hbelow.cons (by omega) hpos⟩

/-- The first `k` bytes laid over another memory. -/
theorem Fields.take (h : Fields n fields m) (hm' : m'.length = n) {k : Nat} (hk : k ≤ n)
    (hin : Below fields k) :
    Fields n fields (m.take k ++ m'.drop k) := by
  refine ⟨?_, fun field hfield => (h.2 field hfield).take (hin field hfield)⟩
  rw [List.length_append, List.length_take, List.length_drop, h.1, hm']
  omega

/-- Of a list of fields each number can be read. -/
theorem Fields.readLE (h : Fields n fields m) (hmem : (pos, toLE w bits) ∈ fields)
    (hin : pos + w ≤ n) : readLE m pos w = some (bits % 256 ^ w) :=
  (h.2 _ hmem).readLE (by rw [h.1]; exact hin)

/-- Of a list of fields each string can be read. -/
theorem Fields.readString (h : Fields n fields m) (hmem : (pos, s ++ [0]) ∈ fields) (hs : 0 ∉ s)
    {k : Nat} (hk : s.length < k) (hin : pos + k ≤ n) : readString m pos k = some s :=
  (h.2 _ hmem).readString hs hk (by rw [h.1]; exact hin)

end VfsRedirector.Library
