import Mathlib

/-!
# Cyclic redundancy checks

The bits of a register are the coefficients of a polynomial over the field of two elements
(`regPoly`), and so are those of a message, the first word in front (`messagePoly`). A cyclic
redundancy check is a remainder by a `generator` of the degree of the register. The register
goes on by a bit with `timesX`, the multiplication by `X` modulo the generator.

`residue` is the class of a register modulo the generator. There a step of the register is an
equation (`residue_timesX`), and two registers with the same class are equal
(`residue_injective`). Where the last coefficient of the generator is not 0, `X` is a unit
(`isUnit_root`), and the place of a difference in the message does not matter.

## Results

* `crcStep_eq_table`: the step for a word from a table.
* `crc_eq_remainder`: what the register has in the end is a remainder.
* `crc_detects`: a difference as short as the register is seen.
-/

namespace VfsRedirector.Library

open Polynomial

variable {w : Nat}

/-- The polynomial of a register. -/
noncomputable def regPoly (r : BitVec w) : (ZMod 2)[X] :=
  ∑ i ∈ Finset.range w, if r.getLsbD i then X ^ i else 0

/-- The coefficients of a register's polynomial are its bits. -/
theorem coeff_regPoly (r : BitVec w) (i : Nat) :
    (regPoly r).coeff i = if r.getLsbD i then 1 else 0 := by
  have hterm : ∀ j, (if r.getLsbD j then (X : (ZMod 2)[X]) ^ j else 0).coeff i =
      if i = j then (if r.getLsbD j then 1 else 0) else 0 := by
    intro j
    split_ifs with hj hij hij
    · rw [coeff_X_pow, if_pos hij]
    · rw [coeff_X_pow, if_neg hij]
    · exact coeff_zero i
    · exact coeff_zero i
  rw [regPoly, finsetSum_coeff, Finset.sum_congr rfl fun j _ => hterm j, Finset.sum_ite_eq]
  rcases Nat.lt_or_ge i w with hi | hi
  · rw [if_pos (Finset.mem_range.mpr hi)]
  · rw [if_neg (by rw [Finset.mem_range]; omega), BitVec.getLsbD_of_ge r i hi]
    rfl

/-- The degree of a register's polynomial is below its width. -/
theorem degree_regPoly_lt (r : BitVec w) : (regPoly r).degree < w := by
  rw [degree_lt_iff_coeff_zero]
  intro i hi
  rw [coeff_regPoly, BitVec.getLsbD_of_ge r i hi]
  rfl

/-- Different registers have different polynomials. -/
theorem regPoly_injective : Function.Injective (regPoly : BitVec w → (ZMod 2)[X]) := by
  intro r s h
  refine BitVec.eq_of_getLsbD_eq fun i _ => ?_
  have hcoeff : (regPoly r).coeff i = (regPoly s).coeff i := by rw [h]
  rw [coeff_regPoly, coeff_regPoly] at hcoeff
  by_contra hne
  cases hr : r.getLsbD i with
  | false =>
    rw [hr, eq_comm, Bool.not_eq_false] at hne
    rw [hr, hne] at hcoeff
    exact absurd hcoeff (by decide)
  | true =>
    rw [hr, eq_comm, Bool.not_eq_true] at hne
    rw [hr, hne] at hcoeff
    exact absurd hcoeff (by decide)

/-- Exclusive or is the sum. -/
theorem regPoly_xor (r s : BitVec w) : regPoly (r ^^^ s) = regPoly r + regPoly s := by
  ext i
  rw [coeff_add, coeff_regPoly, coeff_regPoly, coeff_regPoly, BitVec.getLsbD_xor]
  generalize r.getLsbD i = x
  generalize s.getLsbD i = y
  revert x y
  decide

theorem regPoly_zero : regPoly (0 : BitVec w) = 0 := by
  have hsum := regPoly_xor (0 : BitVec w) 0
  rw [BitVec.xor_self, CharTwo.add_self_eq_zero] at hsum
  exact hsum

/-- A choice of registers is one of polynomials. -/
theorem regPoly_ite (c : Prop) [Decidable c] (r : BitVec w) :
    regPoly (if c then r else 0) = if c then regPoly r else 0 := by
  split_ifs
  · rfl
  · exact regPoly_zero

/-- The register moves up by `n` bits, which go out at the top. -/
theorem regPoly_shiftLeft {n : Nat} (r : BitVec w) (hn : n ≤ w) :
    regPoly (r <<< n) + X ^ w * regPoly ((r >>> (w - n)).setWidth n) = X ^ n * regPoly r := by
  ext i
  rw [coeff_add, coeff_X_pow_mul', coeff_X_pow_mul', coeff_regPoly, coeff_regPoly, coeff_regPoly,
    BitVec.getLsbD_shiftLeft, BitVec.getLsbD_setWidth, BitVec.getLsbD_ushiftRight]
  rcases Nat.lt_or_ge i w with hi | hi
  · rw [if_neg (Nat.not_le.mpr hi), add_zero]
    rcases Nat.lt_or_ge i n with hlow | hlow
    · simp [hlow]
    · simp [hlow, hi, Nat.not_lt.mpr hlow]
  · rw [if_pos hi, if_pos (Nat.le_trans hn hi), show w - n + (i - w) = i - n by omega]
    rcases Nat.lt_or_ge (i - w) n with hout | hout
    · simp [hout, Nat.not_lt.mpr hi]
    · rw [BitVec.getLsbD_of_ge r (i - n) (by omega)]
      simp

/-- One bit up is `X` times the polynomial, without what goes out. -/
theorem regPoly_shiftLeft_one (r : BitVec w) :
    regPoly (r <<< 1) + (if r.msb then X ^ w else 0) = X * regPoly r := by
  rcases Nat.eq_zero_or_pos w with rfl | hw
  · have hnone : ∀ r : BitVec 0, regPoly r = 0 := fun _ => rfl
    rw [hnone, hnone, BitVec.eq_nil r]
    simp
  · have hbit : regPoly ((r >>> (w - 1)).setWidth 1) = if r.msb then 1 else 0 := by
      rw [regPoly, Finset.sum_range_one, BitVec.msb_eq_getLsbD_last]
      simp
    have hshift := regPoly_shiftLeft r hw
    rw [hbit, pow_one] at hshift
    rw [← hshift]
    split_ifs
    · rw [mul_one]
    · rw [mul_zero]

-- ---------------------------------------------------------------------------
-- The register
-- ---------------------------------------------------------------------------

/-- The generator whose coefficients, but for the first, are the bits of `g`. -/
noncomputable def generator (g : BitVec w) : (ZMod 2)[X] := X ^ w + regPoly g

/-- The generator is monic. -/
theorem generator_monic (g : BitVec w) : (generator g).Monic :=
  monic_X_pow_add (degree_regPoly_lt g)

/-- The degree of the generator is the width of the register. -/
theorem degree_generator (g : BitVec w) : (generator g).degree = w := by
  rw [generator, degree_add_eq_left_of_degree_lt, degree_X_pow]
  rw [degree_X_pow]
  exact degree_regPoly_lt g

/-- The register moves up by a bit. -/
def timesX (g r : BitVec w) : BitVec w := (r <<< 1) ^^^ (if r.msb then g else 0)

-- ---------------------------------------------------------------------------
-- Modulo the generator
-- ---------------------------------------------------------------------------

/-- The class of a register. -/
noncomputable def residue (g r : BitVec w) : AdjoinRoot (generator g) :=
  AdjoinRoot.mk (generator g) (regPoly r)

/-- Exclusive or is the sum of the classes. -/
theorem residue_xor (g r s : BitVec w) : residue g (r ^^^ s) = residue g r + residue g s := by
  rw [residue, regPoly_xor, map_add, residue, residue]

/-- To move up by a bit is multiplication by the root. -/
theorem residue_timesX (g r : BitVec w) :
    residue g (timesX g r) = AdjoinRoot.root (generator g) * residue g r := by
  have htwo : ∀ p : (ZMod 2)[X], p + p = 0 := CharTwo.add_self_eq_zero
  -- the bit that goes out at the top goes with a multiple of the generator
  have hpoly : regPoly (timesX g r) + (if r.msb then generator g else 0) = X * regPoly r := by
    rw [timesX, regPoly_xor, regPoly_ite, ← regPoly_shiftLeft_one, generator]
    split_ifs
    · rw [add_assoc, add_comm (X ^ w), ← add_assoc (regPoly g), htwo, zero_add]
    · rw [add_zero]
  have hmk := congrArg (AdjoinRoot.mk (generator g)) hpoly
  have hgone : AdjoinRoot.mk (generator g) (if r.msb then generator g else 0) = 0 := by
    split_ifs
    · exact AdjoinRoot.mk_self
    · exact map_zero _
  rw [map_add, hgone, add_zero, map_mul, AdjoinRoot.mk_X] at hmk
  exact hmk

/-- To move up by `n` bits is multiplication by the power of the root. -/
theorem residue_iterate (g r : BitVec w) (n : Nat) :
    residue g ((timesX g)^[n] r) = AdjoinRoot.root (generator g) ^ n * residue g r := by
  induction n with
  | zero => rw [Function.iterate_zero_apply, pow_zero, one_mul]
  | succ n ih => rw [Function.iterate_succ_apply', residue_timesX, ih, pow_succ', mul_assoc]

/-- Polynomials of a low degree are equal if they are modulo the generator. -/
theorem eq_of_mk_eq (g : BitVec w) {p q : (ZMod 2)[X]} (hp : p.degree < w) (hq : q.degree < w)
    (h : AdjoinRoot.mk (generator g) p = AdjoinRoot.mk (generator g) q) : p = q := by
  have hmod := modByMonic_eq_of_dvd_sub (generator_monic g) (AdjoinRoot.mk_eq_mk.mp h)
  rwa [(modByMonic_eq_self_iff (generator_monic g)).mpr,
    (modByMonic_eq_self_iff (generator_monic g)).mpr] at hmod
  · rw [degree_generator]
    exact hq
  · rw [degree_generator]
    exact hp

/-- Registers are equal if their classes are. -/
theorem residue_injective (g : BitVec w) : Function.Injective (residue g) := fun r s h =>
  regPoly_injective (eq_of_mk_eq g (degree_regPoly_lt r) (degree_regPoly_lt s) h)

/-- A register is the remainder of what it is congruent to. -/
theorem regPoly_eq_modByMonic (g : BitVec w) {r : BitVec w} {p : (ZMod 2)[X]}
    (h : residue g r = AdjoinRoot.mk (generator g) p) : regPoly r = p %ₘ generator g := by
  have hmod := modByMonic_eq_of_dvd_sub (generator_monic g) (AdjoinRoot.mk_eq_mk.mp h)
  rw [← hmod, (modByMonic_eq_self_iff (generator_monic g)).mpr]
  rw [degree_generator]
  exact degree_regPoly_lt r

/-- `X` is a unit modulo a generator whose last coefficient is 1. -/
theorem isUnit_root {g : BitVec w} (hw : 0 < w) (hg : g.getLsbD 0 = true) :
    IsUnit (AdjoinRoot.root (generator g)) := by
  have hlast : (generator g).coeff 0 = 1 := by
    rw [generator, coeff_add, coeff_X_pow, if_neg (Nat.ne_of_lt hw), coeff_regPoly, if_pos hg,
      zero_add]
  have hsplit := X_mul_divX_add (generator g)
  rw [hlast, map_one] at hsplit
  have hmk := congrArg (AdjoinRoot.mk (generator g)) hsplit
  rw [AdjoinRoot.mk_self, map_add, map_mul, AdjoinRoot.mk_X, map_one] at hmk
  refine IsUnit.of_mul_eq_one (-AdjoinRoot.mk (generator g) (divX (generator g))) ?_
  rw [mul_neg, eq_neg_of_add_eq_zero_left hmk, neg_neg]

-- ---------------------------------------------------------------------------
-- Messages
-- ---------------------------------------------------------------------------

/-- The polynomial of a message of words of `n` bits. -/
noncomputable def messagePoly {n : Nat} (l : List (BitVec n)) : (ZMod 2)[X] :=
  l.foldl (fun p b => X ^ n * p + regPoly b) 0

section Messages

variable {n : Nat}

/-- A word at the end of a message has the lowest coefficients. -/
theorem messagePoly_append_singleton (l : List (BitVec n)) (b : BitVec n) :
    messagePoly (l ++ [b]) = X ^ n * messagePoly l + regPoly b := by
  rw [messagePoly, List.foldl_append]
  rfl

/-- The polynomial of two messages, one after the other. -/
theorem messagePoly_append (l r : List (BitVec n)) :
    messagePoly (l ++ r) = X ^ (n * r.length) * messagePoly l + messagePoly r := by
  induction r using List.reverseRecOn with
  | nil =>
    rw [List.append_nil, List.length_nil, Nat.mul_zero, pow_zero, one_mul]
    exact (add_zero _).symm
  | append_singleton r b ih =>
    rw [← List.append_assoc, messagePoly_append_singleton, ih, messagePoly_append_singleton,
      List.length_append, List.length_singleton, Nat.mul_add, Nat.mul_one, pow_add]
    ring

/-- The last word has the lowest coefficients. -/
theorem coeff_messagePoly (l : List (BitVec n)) (b : BitVec n) (i : Nat) :
    (messagePoly (l ++ [b])).coeff i =
      if i < n then (regPoly b).coeff i else (messagePoly l).coeff (i - n) := by
  rw [messagePoly_append_singleton, coeff_add, coeff_X_pow_mul']
  split_ifs with hge hlt hlt
  · omega
  · rw [coeff_regPoly, BitVec.getLsbD_of_ge b i hge]
    exact add_zero _
  · exact zero_add _
  · omega

/-- The degree of a message's polynomial is below the number of its bits. -/
theorem degree_messagePoly_lt (l : List (BitVec n)) :
    (messagePoly l).degree < (n * l.length : Nat) := by
  rw [degree_lt_iff_coeff_zero]
  induction l using List.reverseRecOn with
  | nil => exact fun i _ => coeff_zero i
  | append_singleton l b ih =>
    intro i hi
    rw [List.length_append, List.length_singleton, Nat.mul_add, Nat.mul_one] at hi
    rw [coeff_messagePoly, if_neg (by omega)]
    exact ih (i - n) (by omega)

/-- Messages of one length are equal if their polynomials are. -/
theorem messagePoly_injective {l r : List (BitVec n)} (hlength : l.length = r.length)
    (h : messagePoly l = messagePoly r) : l = r := by
  induction l using List.reverseRecOn generalizing r with
  | nil => exact (List.length_eq_zero_iff.mp hlength.symm).symm
  | append_singleton l b ih =>
    rcases List.eq_nil_or_concat r with rfl | ⟨r, c, rfl⟩
    · simp at hlength
    rw [List.concat_eq_append] at hlength h ⊢
    have hcoeff : ∀ i, (messagePoly (l ++ [b])).coeff i = (messagePoly (r ++ [c])).coeff i :=
      fun i => by rw [h]
    simp only [coeff_messagePoly] at hcoeff
    have hlast : b = c := by
      refine regPoly_injective (ext fun i => ?_)
      rcases Nat.lt_or_ge i n with hi | hi
      · have hbit := hcoeff i
        rwa [if_pos hi, if_pos hi] at hbit
      · rw [coeff_regPoly, coeff_regPoly, BitVec.getLsbD_of_ge b i hi, BitVec.getLsbD_of_ge c i hi]
    have hfront : messagePoly l = messagePoly r := by
      refine ext fun i => ?_
      have hbit := hcoeff (i + n)
      rwa [if_neg (by omega), if_neg (by omega), Nat.add_sub_cancel] at hbit
    rw [List.length_append, List.length_append] at hlength
    rw [hlast, ih (Nat.add_right_cancel hlength) hfront]

/-- A word stands at the top of the register. -/
theorem regPoly_top (b : BitVec n) (hn : n ≤ w) :
    regPoly ((b.setWidth w) <<< (w - n)) = X ^ (w - n) * regPoly b := by
  ext i
  rw [coeff_regPoly, coeff_X_pow_mul', coeff_regPoly, BitVec.getLsbD_shiftLeft,
    BitVec.getLsbD_setWidth]
  rcases Nat.lt_or_ge i (w - n) with hi | hi
  · rw [if_neg (Nat.not_le.mpr hi)]
    simp [hi]
  · rw [if_pos hi]
    rcases Nat.lt_or_ge i w with hw | hw
    · simp [hw, Nat.not_lt.mpr hi, show i - (w - n) < w by omega]
    · rw [BitVec.getLsbD_of_ge b _ (by omega)]
      simp

-- ---------------------------------------------------------------------------
-- The check
-- ---------------------------------------------------------------------------

/-- A word is added at the top of the register, which goes on by as many bits. -/
def crcStep (g r : BitVec w) (b : BitVec n) : BitVec w :=
  (timesX g)^[n] (r ^^^ (b.setWidth w <<< (w - n)))

variable {g r : BitVec w} {l p q a a' : List (BitVec n)}

/-- A step multiplies the class by `X ^ n` and adds the word at the top. -/
theorem residue_crcStep (hn : n ≤ w) (b : BitVec n) :
    residue g (crcStep g r b) =
      AdjoinRoot.mk (generator g) (X ^ n * regPoly r + X ^ w * regPoly b) := by
  have hpow : w = n + (w - n) := by omega
  rw [crcStep, residue_iterate, residue_xor, residue, residue, regPoly_top b hn, map_add, map_mul,
    map_mul, map_mul, map_pow, map_pow, map_pow, AdjoinRoot.mk_X, mul_add, ← mul_assoc, ← pow_add,
    ← hpow]

/-- A step from a table: what a register with one word at its top becomes, for every word. -/
theorem crcStep_eq_table (hn : n ≤ w) (b : BitVec n) :
    crcStep g r b = (r <<< n) ^^^ crcStep g 0 ((r >>> (w - n)).setWidth n ^^^ b) := by
  have hshift := regPoly_shiftLeft r hn
  refine residue_injective g ?_
  rw [residue_xor, residue_crcStep hn, residue_crcStep hn, residue, ← map_add, regPoly_xor,
    regPoly_zero, ← hshift, mul_zero, zero_add, mul_add, ← add_assoc]

/-- What the register has after a message. -/
theorem residue_foldl (hn : n ≤ w) (l : List (BitVec n)) :
    residue g (l.foldl (crcStep g) r) =
      AdjoinRoot.mk (generator g) (X ^ (n * l.length) * regPoly r + X ^ w * messagePoly l) := by
  induction l using List.reverseRecOn with
  | nil =>
    rw [List.length_nil, Nat.mul_zero, pow_zero, one_mul]
    exact congrArg (AdjoinRoot.mk _) (show regPoly r = regPoly r + X ^ w * 0 by ring)
  | append_singleton l b ih =>
    rw [List.foldl_append, List.foldl_cons, List.foldl_nil, residue_crcStep hn, map_add, map_mul]
    rw [residue] at ih
    rw [ih, ← map_mul, ← map_add, messagePoly_append_singleton, List.length_append,
      List.length_singleton, Nat.mul_add, Nat.mul_one, pow_add]
    ring_nf

/-- The check is a remainder. -/
theorem crc_eq_remainder (hn : n ≤ w) (l : List (BitVec n)) :
    regPoly (l.foldl (crcStep g) r) =
      (X ^ (n * l.length) * regPoly r + X ^ w * messagePoly l) %ₘ generator g :=
  regPoly_eq_modByMonic g (residue_foldl hn l)

/-- A difference that is not longer than the register changes the check, wherever it is. -/
theorem crc_detects (hn : n ≤ w) (hw : 0 < w) (hg : g.getLsbD 0 = true)
    (hlength : a.length = a'.length) (hshort : n * a.length ≤ w)
    (h : (p ++ a ++ q).foldl (crcStep g) r = (p ++ a' ++ q).foldl (crcStep g) r) : a = a' := by
  have hlengths : (p ++ a ++ q).length = (p ++ a' ++ q).length := by
    rw [List.length_append, List.length_append, hlength, ← List.length_append,
      ← List.length_append]
  have hmk := congrArg (residue g) h
  rw [residue_foldl hn, residue_foldl hn, hlengths, map_add, map_add, add_right_inj,
    messagePoly_append (p ++ a), messagePoly_append (p ++ a'), messagePoly_append p a,
    messagePoly_append p a', hlength] at hmk
  -- what stands before the place and behind it is the same on both sides, and so is the place
  have hroot := isUnit_root hw hg
  simp only [map_mul, map_add, map_pow, AdjoinRoot.mk_X] at hmk
  have hq := (hroot.pow w).mul_left_cancel hmk
  rw [add_left_inj] at hq
  have ha := (hroot.pow (n * q.length)).mul_left_cancel hq
  rw [add_right_inj] at ha
  refine messagePoly_injective hlength (eq_of_mk_eq g ?_ ?_ ha)
  · exact (degree_messagePoly_lt a).trans_le (by exact_mod_cast hshort)
  · exact (degree_messagePoly_lt a').trans_le (by exact_mod_cast hlength ▸ hshort)

end Messages

end VfsRedirector.Library
