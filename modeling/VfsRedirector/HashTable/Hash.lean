import Mathlib
import VfsRedirector.Library.Crc

/-!
# The hash functions

A key is hashed byte by byte. `ght_one_at_a_time_hash` is what a new table has;
`ght_crc_hash` and `ght_rotating_hash` may be set. The table of the functions is not theirs:
a hash table works with any (`fn_hash`). What is theirs is how they tell keys apart.

`ght_crc_hash` looks up what a byte does to the register. The table is right: it is what eight
steps of a register do (`crc32Table_get`), so that the hash is the remainder that the CRC-32
specification asks for. A key is a sequence of bytes of a length below 2^31, as the loops count
with an `int`.

## Results

* `ghtCrcHash_remainder`: the hash is the complement of a remainder.
* `near_keys_differ`: keys that differ in one place only have different hashes.
-/

namespace VfsRedirector

open Library Polynomial

-- ---------------------------------------------------------------------------
-- The functions
-- ---------------------------------------------------------------------------

set_option maxRecDepth 4000 in
/-- What the byte at the top of the register leaves in it when it goes out. -/
def crc32Table : Vector UInt32 256 := #v[
    0x00000000, 0x04c11db7, 0x09823b6e, 0x0d4326d9, 0x130476dc, 0x17c56b6b, 0x1a864db2, 0x1e475005,
    0x2608edb8, 0x22c9f00f, 0x2f8ad6d6, 0x2b4bcb61, 0x350c9b64, 0x31cd86d3, 0x3c8ea00a, 0x384fbdbd,
    0x4c11db70, 0x48d0c6c7, 0x4593e01e, 0x4152fda9, 0x5f15adac, 0x5bd4b01b, 0x569796c2, 0x52568b75,
    0x6a1936c8, 0x6ed82b7f, 0x639b0da6, 0x675a1011, 0x791d4014, 0x7ddc5da3, 0x709f7b7a, 0x745e66cd,
    0x9823b6e0, 0x9ce2ab57, 0x91a18d8e, 0x95609039, 0x8b27c03c, 0x8fe6dd8b, 0x82a5fb52, 0x8664e6e5,
    0xbe2b5b58, 0xbaea46ef, 0xb7a96036, 0xb3687d81, 0xad2f2d84, 0xa9ee3033, 0xa4ad16ea, 0xa06c0b5d,
    0xd4326d90, 0xd0f37027, 0xddb056fe, 0xd9714b49, 0xc7361b4c, 0xc3f706fb, 0xceb42022, 0xca753d95,
    0xf23a8028, 0xf6fb9d9f, 0xfbb8bb46, 0xff79a6f1, 0xe13ef6f4, 0xe5ffeb43, 0xe8bccd9a, 0xec7dd02d,
    0x34867077, 0x30476dc0, 0x3d044b19, 0x39c556ae, 0x278206ab, 0x23431b1c, 0x2e003dc5, 0x2ac12072,
    0x128e9dcf, 0x164f8078, 0x1b0ca6a1, 0x1fcdbb16, 0x018aeb13, 0x054bf6a4, 0x0808d07d, 0x0cc9cdca,
    0x7897ab07, 0x7c56b6b0, 0x71159069, 0x75d48dde, 0x6b93dddb, 0x6f52c06c, 0x6211e6b5, 0x66d0fb02,
    0x5e9f46bf, 0x5a5e5b08, 0x571d7dd1, 0x53dc6066, 0x4d9b3063, 0x495a2dd4, 0x44190b0d, 0x40d816ba,
    0xaca5c697, 0xa864db20, 0xa527fdf9, 0xa1e6e04e, 0xbfa1b04b, 0xbb60adfc, 0xb6238b25, 0xb2e29692,
    0x8aad2b2f, 0x8e6c3698, 0x832f1041, 0x87ee0df6, 0x99a95df3, 0x9d684044, 0x902b669d, 0x94ea7b2a,
    0xe0b41de7, 0xe4750050, 0xe9362689, 0xedf73b3e, 0xf3b06b3b, 0xf771768c, 0xfa325055, 0xfef34de2,
    0xc6bcf05f, 0xc27dede8, 0xcf3ecb31, 0xcbffd686, 0xd5b88683, 0xd1799b34, 0xdc3abded, 0xd8fba05a,
    0x690ce0ee, 0x6dcdfd59, 0x608edb80, 0x644fc637, 0x7a089632, 0x7ec98b85, 0x738aad5c, 0x774bb0eb,
    0x4f040d56, 0x4bc510e1, 0x46863638, 0x42472b8f, 0x5c007b8a, 0x58c1663d, 0x558240e4, 0x51435d53,
    0x251d3b9e, 0x21dc2629, 0x2c9f00f0, 0x285e1d47, 0x36194d42, 0x32d850f5, 0x3f9b762c, 0x3b5a6b9b,
    0x0315d626, 0x07d4cb91, 0x0a97ed48, 0x0e56f0ff, 0x1011a0fa, 0x14d0bd4d, 0x19939b94, 0x1d528623,
    0xf12f560e, 0xf5ee4bb9, 0xf8ad6d60, 0xfc6c70d7, 0xe22b20d2, 0xe6ea3d65, 0xeba91bbc, 0xef68060b,
    0xd727bbb6, 0xd3e6a601, 0xdea580d8, 0xda649d6f, 0xc423cd6a, 0xc0e2d0dd, 0xcda1f604, 0xc960ebb3,
    0xbd3e8d7e, 0xb9ff90c9, 0xb4bcb610, 0xb07daba7, 0xae3afba2, 0xaafbe615, 0xa7b8c0cc, 0xa379dd7b,
    0x9b3660c6, 0x9ff77d71, 0x92b45ba8, 0x9675461f, 0x8832161a, 0x8cf30bad, 0x81b02d74, 0x857130c3,
    0x5d8a9099, 0x594b8d2e, 0x5408abf7, 0x50c9b640, 0x4e8ee645, 0x4a4ffbf2, 0x470cdd2b, 0x43cdc09c,
    0x7b827d21, 0x7f436096, 0x7200464f, 0x76c15bf8, 0x68860bfd, 0x6c47164a, 0x61043093, 0x65c52d24,
    0x119b4be9, 0x155a565e, 0x18197087, 0x1cd86d30, 0x029f3d35, 0x065e2082, 0x0b1d065b, 0x0fdc1bec,
    0x3793a651, 0x3352bbe6, 0x3e119d3f, 0x3ad08088, 0x2497d08d, 0x2056cd3a, 0x2d15ebe3, 0x29d4f654,
    0xc5a92679, 0xc1683bce, 0xcc2b1d17, 0xc8ea00a0, 0xd6ad50a5, 0xd26c4d12, 0xdf2f6bcb, 0xdbee767c,
    0xe3a1cbc1, 0xe760d676, 0xea23f0af, 0xeee2ed18, 0xf0a5bd1d, 0xf464a0aa, 0xf9278673, 0xfde69bc4,
    0x89b8fd09, 0x8d79e0be, 0x803ac667, 0x84fbdbd0, 0x9abc8bd5, 0x9e7d9662, 0x933eb0bb, 0x97ffad0c,
    0xafb010b1, 0xab710d06, 0xa6322bdf, 0xa2f33668, 0xbcb4666d, 0xb8757bda, 0xb5365d03, 0xb1f740b4]

/-- The body of the loop of `ght_one_at_a_time_hash`. -/
def oneAtATimeStep (i_hash : UInt32) (b : UInt8) : UInt32 :=
  let i_hash := i_hash + b.toUInt32
  let i_hash := i_hash + (i_hash <<< 10)
  i_hash ^^^ (i_hash >>> 6)

def ghtOneAtATimeHash (p_key : List UInt8) : UInt32 :=
  let i_hash := p_key.foldl oneAtATimeStep 0
  let i_hash := i_hash + (i_hash <<< 3)
  let i_hash := i_hash ^^^ (i_hash >>> 11)
  i_hash + (i_hash <<< 15)

/-- `(crc << 8) ^ crc32_table[(crc >> 24) ^ *(p++)]`; the index is a byte. -/
def crcTableStep (crc : UInt32) (p : UInt8) : UInt32 :=
  (crc <<< 8) ^^^ crc32Table.get ((crc >>> 24).toUInt8 ^^^ p).toFin

def ghtCrcHash (p_key : List UInt8) : UInt32 :=
  -- preload shift register, and transmit complement, per CRC-32 spec
  ~~~ p_key.foldl crcTableStep 0xffffffff

/-- The body of the loop of `ght_rotating_hash`. -/
def rotatingStep (i_hash : UInt32) (b : UInt8) : UInt32 :=
  (i_hash <<< 4) ^^^ (i_hash >>> 28) ^^^ b.toUInt32

def ghtRotatingHash (p_key : List UInt8) : UInt32 := p_key.foldl rotatingStep 0

-- ---------------------------------------------------------------------------
-- ght_crc_hash
-- ---------------------------------------------------------------------------

/-- The generator of CRC-32. -/
def crc32Generator : BitVec 32 := 0x04c11db7

/-- The table has what eight steps make of a byte at the top of the register. -/
theorem crc32Table_get (i : Fin 256) :
    (crc32Table.get i).toBitVec = crcStep crc32Generator 0 (BitVec.ofFin (w := 8) i) := by
  revert i
  decide +kernel

/-- The loop divides, a byte at a time. -/
theorem crcTableStep_eq (crc : UInt32) (p : UInt8) :
    (crcTableStep crc p).toBitVec = crcStep crc32Generator crc.toBitVec p.toBitVec := by
  have hshift : (crc <<< 8).toBitVec = crc.toBitVec <<< 8 := rfl
  have hindex : ((crc >>> 24).toUInt8 ^^^ p).toBitVec =
      (crc.toBitVec >>> (32 - 8)).setWidth 8 ^^^ p.toBitVec := by
    rw [UInt8.toBitVec_xor, UInt32.toBitVec_toUInt8]
    rfl
  rw [crcStep_eq_table (by decide), crcTableStep, UInt32.toBitVec_xor, crc32Table_get, hshift,
    ← hindex]
  rfl

/-- The loop over a key goes as the check over its bytes. -/
theorem foldl_crcTableStep (crc : UInt32) (p_key : List UInt8) :
    (p_key.foldl crcTableStep crc).toBitVec =
      (p_key.map UInt8.toBitVec).foldl (crcStep crc32Generator) crc.toBitVec := by
  induction p_key generalizing crc with
  | nil => rfl
  | cons p p_key ih =>
    rw [List.foldl_cons, ih, crcTableStep_eq]
    rfl

/-- The complement of the hash is what the check leaves of the key. -/
theorem not_ghtCrcHash (p_key : List UInt8) :
    (~~~ ghtCrcHash p_key).toBitVec =
      (p_key.map UInt8.toBitVec).foldl (crcStep crc32Generator) 0xffffffff := by
  rw [ghtCrcHash, UInt32.not_not, foldl_crcTableStep]
  rfl

/-- The complement of the hash is the remainder of the key, behind a register of ones and with
room for the remainder. -/
theorem ghtCrcHash_remainder (p_key : List UInt8) :
    regPoly (~~~ ghtCrcHash p_key).toBitVec =
      (X ^ (8 * p_key.length) * regPoly (0xffffffff : BitVec 32) +
        X ^ 32 * messagePoly (p_key.map UInt8.toBitVec)) %ₘ generator crc32Generator := by
  rw [not_ghtCrcHash, crc_eq_remainder (by decide), List.length_map]

/-- The key `123456789`. -/
example : ghtCrcHash [0x31, 0x32, 0x33, 0x34, 0x35, 0x36, 0x37, 0x38, 0x39] = 0xfc891918 := by
  decide +kernel

/-- Keys that differ in at most four bytes next to each other have different hashes. -/
theorem ghtCrcHash_ne {p q a b : List UInt8} (hne : a ≠ b) (hlength : a.length = b.length)
    (hshort : a.length ≤ 4) : ghtCrcHash (p ++ a ++ q) ≠ ghtCrcHash (p ++ b ++ q) := by
  intro h
  have hnot := congrArg (fun hash => (~~~ hash).toBitVec) h
  simp only [not_ghtCrcHash, List.map_append] at hnot
  refine hne (List.map_injective_iff.mpr (fun x y => UInt8.toBitVec_inj.mp) ?_)
  refine crc_detects (by decide) (by decide) (by decide) ?_ ?_ hnot
  · rw [List.length_map, List.length_map, hlength]
  · rw [List.length_map]
    omega

-- ---------------------------------------------------------------------------
-- Loops that lose nothing
-- ---------------------------------------------------------------------------

section Loops

variable {step : UInt32 → UInt8 → UInt32}

/-- A loop whose body loses nothing of the hash loses nothing. -/
theorem foldl_injective (hhash : ∀ b, Function.Injective (step · b)) (l : List UInt8) :
    Function.Injective fun i_hash => l.foldl step i_hash := by
  induction l with
  | nil => exact Function.injective_id
  | cons b l ih => exact ih.comp (hhash b)

/-- Where it loses nothing of the byte either, another byte makes another hash. -/
theorem foldl_ne (hhash : ∀ b, Function.Injective (step · b))
    (hbyte : ∀ i_hash, Function.Injective (step i_hash)) {a b : UInt8} (hne : a ≠ b)
    (p q : List UInt8) (i_hash : UInt32) :
    (p ++ [a] ++ q).foldl step i_hash ≠ (p ++ [b] ++ q).foldl step i_hash := by
  intro h
  rw [List.foldl_append, List.foldl_append, List.foldl_append, List.foldl_append] at h
  exact hne (hbyte _ (foldl_injective hhash q h))

end Loops

/-- What differs on one side of an exclusive or differs on the other. -/
theorem xor_eq_xor_iff {x y u v : UInt32} : x ^^^ u = y ^^^ v ↔ x ^^^ y = u ^^^ v := by
  have hswap : x ^^^ u ^^^ (y ^^^ v) = x ^^^ y ^^^ (u ^^^ v) := by ac_rfl
  rw [← UInt32.xor_eq_zero_iff, hswap, UInt32.xor_eq_zero_iff]

/-- `i_hash ^= i_hash >> n` -/
theorem xor_shiftRight_injective {n : UInt32} (hn : 0 < n) (hn' : n < 32) :
    Function.Injective fun x : UInt32 => x ^^^ (x >>> n) := by
  intro x y h
  -- the difference is shifted to itself, so that there is none
  have hd : x ^^^ y = (x ^^^ y) >>> n := by
    rw [UInt32.shiftRight_xor]
    exact xor_eq_xor_iff.mp h
  have hnat := congrArg UInt32.toNat hd
  rw [UInt32.lt_iff_toNat_lt] at hn hn'
  rw [UInt32.toNat_shiftRight, Nat.mod_eq_of_lt (show n.toNat < 32 from hn'),
    Nat.shiftRight_eq_div_pow] at hnat
  have hzero : (x ^^^ y).toNat = 0 := by
    by_contra hpos
    have hlt := Nat.div_lt_self (Nat.pos_of_ne_zero hpos) (Nat.one_lt_two_pow (Nat.ne_of_gt hn))
    omega
  exact UInt32.xor_eq_zero_iff.mp (UInt32.toNat_inj.mp hzero)

/-- `i_hash += i_hash << n`, a multiplication by an odd number. -/
theorem add_shiftLeft_injective {n : UInt32} (hn : 0 < n) (hn' : n < 32) :
    Function.Injective fun x : UInt32 => x + (x <<< n) := by
  rw [UInt32.lt_iff_toNat_lt] at hn hn'
  have hnat : ∀ x : UInt32, (x + (x <<< n)).toNat = (2 ^ n.toNat + 1) * x.toNat % 2 ^ 32 := by
    intro x
    rw [UInt32.toNat_add, UInt32.toNat_shiftLeft, Nat.mod_eq_of_lt (show n.toNat < 32 from hn'),
      Nat.shiftLeft_eq, Nat.add_mod_mod, Nat.add_mul, Nat.one_mul, Nat.mul_comm, Nat.add_comm]
  have hcoprime : Nat.Coprime (2 ^ 32) (2 ^ n.toNat + 1) := by
    refine Nat.Coprime.pow_left 32 (Nat.coprime_two_left.mpr ?_)
    exact ((Nat.even_pow.mpr ⟨even_two, Nat.ne_of_gt hn⟩).add_one)
  intro x y h
  have hmod : (2 ^ n.toNat + 1) * x.toNat ≡ (2 ^ n.toNat + 1) * y.toNat [MOD 2 ^ 32] := by
    have hsame := congrArg UInt32.toNat h
    simp only [hnat] at hsame
    exact hsame
  have hxy := Nat.ModEq.cancel_left_of_coprime hcoprime hmod
  exact UInt32.toNat_inj.mp (hxy.eq_of_lt_of_lt x.toNat_lt y.toNat_lt)

/-- A round of the one-at-a-time hash loses nothing of the hash so far. -/
theorem oneAtATimeStep_injective (b : UInt8) : Function.Injective (oneAtATimeStep · b) :=
  (xor_shiftRight_injective (by decide) (by decide)).comp
    ((add_shiftLeft_injective (by decide) (by decide)).comp (add_left_injective b.toUInt32))

/-- A round of the one-at-a-time hash loses nothing of the byte. -/
theorem oneAtATimeStep_byte (i_hash : UInt32) : Function.Injective (oneAtATimeStep i_hash) :=
  (xor_shiftRight_injective (by decide) (by decide)).comp
    ((add_shiftLeft_injective (by decide) (by decide)).comp
      ((add_right_injective i_hash).comp fun _ _ => UInt8.toUInt32_inj.mp))

/-- The hash rotates. -/
theorem rotatingStep_injective (b : UInt8) : Function.Injective (rotatingStep · b) := by
  intro x y h
  have hd : (x ^^^ y) <<< 4 = (x ^^^ y) >>> 28 := by
    rw [UInt32.shiftLeft_xor, UInt32.shiftRight_xor]
    exact xor_eq_xor_iff.mp ((UInt32.xor_left_inj _).mp h)
  have hnat := congrArg UInt32.toNat hd
  have hlt := (x ^^^ y).toNat_lt
  rw [UInt32.toNat_shiftLeft, UInt32.toNat_shiftRight, Nat.shiftLeft_eq,
    Nat.shiftRight_eq_div_pow] at hnat
  have hrotate : (x ^^^ y).toNat * 16 % (268435456 * 16) = (x ^^^ y).toNat / 268435456 := hnat
  -- a multiple of 16 on the left, and four bits on the right
  rw [Nat.mul_mod_mul_right] at hrotate
  have hzero : (x ^^^ y).toNat = 0 := by omega
  exact UInt32.xor_eq_zero_iff.mp (UInt32.toNat_inj.mp hzero)

/-- A round of the rotating hash loses nothing of the byte. -/
theorem rotatingStep_byte (i_hash : UInt32) : Function.Injective (rotatingStep i_hash) :=
  fun _ _ h => UInt8.toUInt32_inj.mp ((UInt32.xor_right_inj _).mp h)

/-- Two keys of one length that differ in one place only do not have the same hash: for
`ght_crc_hash` the place may be four bytes long, for the others it is a byte. -/
theorem near_keys_differ (p q : List UInt8) {a b : List UInt8} (hne : a ≠ b)
    (hlength : a.length = b.length) :
    (a.length ≤ 4 → ghtCrcHash (p ++ a ++ q) ≠ ghtCrcHash (p ++ b ++ q)) ∧
      (a.length ≤ 1 → ghtOneAtATimeHash (p ++ a ++ q) ≠ ghtOneAtATimeHash (p ++ b ++ q) ∧
        ghtRotatingHash (p ++ a ++ q) ≠ ghtRotatingHash (p ++ b ++ q)) := by
  refine ⟨ghtCrcHash_ne hne hlength, fun hshort => ?_⟩
  cases a with
  | nil => exact absurd (List.length_eq_zero_iff.mp hlength.symm).symm hne
  | cons x a =>
    obtain rfl : a = [] := by
      rw [List.length_cons] at hshort
      exact List.length_eq_zero_iff.mp (by omega)
    obtain ⟨y, rfl⟩ := List.length_eq_one_iff.mp hlength.symm
    have hxy : x ≠ y := fun heq => hne (by rw [heq])
    refine ⟨fun h => ?_, foldl_ne rotatingStep_injective rotatingStep_byte hxy p q 0⟩
    refine foldl_ne oneAtATimeStep_injective oneAtATimeStep_byte hxy p q 0 ?_
    have hthird := add_shiftLeft_injective (by decide) (by decide) h
    have hsecond := xor_shiftRight_injective (by decide) (by decide) hthird
    exact add_shiftLeft_injective (by decide) (by decide) hsecond

/-- The addresses of two vectors that differ in their lower half, as keys. -/
theorem near_keys_differ_vectors :
    ghtCrcHash ([] ++ [0x80, 0x46, 0x12, 0x2a] ++ [0x80, 0xff, 0xff, 0xff]) ≠
      ghtCrcHash ([] ++ [0xc0, 0x47, 0x12, 0x2a] ++ [0x80, 0xff, 0xff, 0xff]) ∧
    ghtOneAtATimeHash ([0x80] ++ [0x46] ++ [0x12, 0x2a, 0x80, 0xff, 0xff, 0xff]) ≠
      ghtOneAtATimeHash ([0x80] ++ [0x47] ++ [0x12, 0x2a, 0x80, 0xff, 0xff, 0xff]) := by
  have hlower := @near_keys_differ [] [0x80, 0xff, 0xff, 0xff] [0x80, 0x46, 0x12, 0x2a]
    [0xc0, 0x47, 0x12, 0x2a] (by decide) rfl
  have hbyte := @near_keys_differ [0x80] [0x12, 0x2a, 0x80, 0xff, 0xff, 0xff] [0x46] [0x47]
    (by decide) rfl
  exact ⟨hlower.1 (by decide), (hbyte.2 (by decide)).1⟩

end VfsRedirector
