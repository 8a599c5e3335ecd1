import Mathlib.Algebra.Order.Field.Basic
import Mathlib.Data.Rat.Cast.Order
import Scriptlet.Number.Binary64

/-!
# Floating point numbers that are whole

`rational?` is the fraction that a floating point number stands for. Taking the bits apart finds
this fraction (`Binary64.value?_ofBits`), and a number is found to be whole exactly if the fraction
is an integer (`whole?_ofFloat_eq_some_iff`).
-/

namespace Scriptlet.Number

open Float.Model Float.Model.UnpackedFloat

/-- What an unpacked number stands for. -/
def unpackedRational? : UnpackedFloat → Option ℚ
  | .zero _ => some 0
  | .finite s m q _ => some (s.apply m * 2 ^ q)
  | .infinity _ | .notANumber => none

/-- The fraction that a number stands for; `none` if it is infinite or not a number. -/
def rational? (x : Float) : Option ℚ := unpackedRational? x.toModel.unpack

theorem twoTo_ne_zero (k : Int) : twoTo k ≠ 0 := (Nat.two_pow_pos k.toNat).ne'

/-- A power of two as the fraction of two natural numbers, one of them 1. -/
theorem two_zpow_eq (q : Int) : (2 : ℚ) ^ q = (twoTo q : ℚ) / (twoTo (-q) : ℚ) := by
  obtain ⟨k, rfl | rfl⟩ := q.eq_nat_or_neg
  · simp [twoTo, powerOf]
  · simp [twoTo, powerOf]

namespace Binary64

/-- The sign of a number, as a factor. -/
def sign (negative : Bool) : Int := if negative then -1 else 1

theorem cast_sign_mul_self (negative : Bool) :
    (sign negative : ℚ) * (sign negative : ℚ) = 1 := by
  cases negative <;> simp [sign]

/-- What a number that was taken apart stands for. -/
def value? : Binary64 → Option ℚ
  | finite negative m q => some (sign negative * (m * 2 ^ q))
  | infinite _ | nan => none

/-- A number is whole if what it stands for is. -/
theorem whole?_eq_some_iff {b : Binary64} {z : Int} :
    b.whole? = some z ↔ b.value? = some (z : ℚ) := by
  cases b with
  | infinite | nan => exact iff_of_false nofun nofun
  | finite negative m q =>
    have hd : (twoTo (-q) : ℚ) ≠ 0 := Nat.cast_ne_zero.mpr (twoTo_ne_zero (-q))
    have hvalue : (m : ℚ) * 2 ^ q = ((m * twoTo q : Nat) : ℚ) / (twoTo (-q) : ℚ) := by
      rw [two_zpow_eq, Nat.cast_mul, mul_div_assoc]
    unfold whole? value? scaleDown
    dsimp only
    rw [neg_neg, Nat.one_mul, hvalue]
    generalize m * twoTo q = n
    generalize twoTo (-q) = d at hd
    split
    · next hdvd =>
      obtain ⟨k, rfl⟩ := Nat.dvd_of_mod_eq_zero hdvd
      have hk : ((d * k : Nat) : ℚ) / d = k := by
        rw [Nat.cast_mul, mul_div_cancel_left₀ _ hd]
      have hquotient : d * k / d = k :=
        Nat.mul_div_cancel_left k (Nat.pos_of_ne_zero (Nat.cast_ne_zero.mp hd))
      have hsign : (if negative then -((k : Nat) : Int) else ((k : Nat) : Int)) =
          sign negative * k := by
        cases negative <;> simp [sign]
      rw [hk, hquotient, hsign, Option.some_inj, Option.some_inj]
      exact_mod_cast Iff.rfl
    · next hdvd =>
      refine iff_of_false nofun fun hz => hdvd ?_
      have hcross : (n : ℚ) = sign negative * z * d := by
        rw [← Option.some_inj.mp hz, ← mul_assoc, cast_sign_mul_self, one_mul, div_mul_cancel₀ _ hd]
      have hint : (n : Int) = sign negative * z * d := by exact_mod_cast hcross
      exact Nat.mod_eq_zero_of_dvd (Int.natCast_dvd_natCast.mp (Dvd.intro_left _ hint.symm))

/-! ## Taking the bits apart -/

section

variable (b : BitVec Format.binary64.numBits)

theorem toNat_unpackMantissa : (unpackMantissa b).toNat = b.toNat % 2 ^ 52 := by
  unfold unpackMantissa
  rw [BitVec.toNat_cast, BitVec.extractLsb_toNat]
  rfl

theorem toNat_unpackExponent : (unpackExponent b).toNat = b.toNat / 2 ^ 52 % 2 ^ 11 := by
  unfold unpackExponent
  rw [BitVec.toNat_cast, BitVec.extractLsb_toNat, Nat.shiftRight_eq_div_pow]
  rfl

theorem toNat_unpackSign : (unpackSign b).toNat = b.toNat / 2 ^ 63 % 2 := by
  unfold unpackSign
  rw [BitVec.toNat_cast, BitVec.extractLsb_toNat, Nat.shiftRight_eq_div_pow]
  rfl

theorem apply_unpackSign (m : Nat) :
    (Sign.ofBitVec (unpackSign b)).apply m = sign (decide (signBit ≤ b.toNat)) * m := by
  have hb : b.toNat < 2 ^ 64 := b.isLt
  have hs := toNat_unpackSign b
  unfold Sign.ofBitVec sign signBit
  split
  · next hzero =>
    have hlow : ¬ 9223372036854775808 ≤ b.toNat := by
      rw [hzero, BitVec.toNat_ofNat] at hs
      omega
    rw [decide_eq_false hlow]
    simp [Sign.apply]
  · next hone =>
    have hhigh : 9223372036854775808 ≤ b.toNat := by
      by_contra hlow
      refine hone (BitVec.eq_of_toNat_eq ?_)
      rw [hs, BitVec.toNat_ofNat]
      omega
    rw [decide_eq_true hhigh]
    simp [Sign.apply]

/-- Taking the bits apart finds the fraction that they stand for. -/
theorem value?_ofBits :
    (ofBits b.toNat).value? = unpackedRational? (UnpackedFloat.unpack Format.binary64 b) := by
  have hm := toNat_unpackMantissa b
  have he := toNat_unpackExponent b
  have hexponent : b.toNat % signBit / fractions = b.toNat / 2 ^ 52 % 2 ^ 11 := by
    unfold signBit fractions
    omega
  have hfraction : b.toNat % signBit % fractions = b.toNat % 2 ^ 52 := by
    unfold signBit fractions
    omega
  have hsign := apply_unpackSign b
  have hbias : (Format.binary64.exponentBias : Int) +
      (Format.binary64.mantissaBitsWithoutImplicit : Int) = 1075 := rfl
  have hlast : unpackExponent b = -1#_ ↔ (unpackExponent b).toNat = 2047 :=
    BitVec.toNat_inj.symm
  have hfirst : unpackExponent b = 0#_ ↔ (unpackExponent b).toNat = 0 := BitVec.toNat_inj.symm
  have hzero : unpackMantissa b = 0#_ ↔ (unpackMantissa b).toNat = 0 := BitVec.toNat_inj.symm
  have hleading : (1#1 ++ unpackMantissa b).toNat = fractions + (unpackMantissa b).toNat := by
    rw [BitVec.toNat_append, ← Nat.shiftLeft_add_eq_or_of_lt (unpackMantissa b).isLt]
    rfl
  unfold ofBits UnpackedFloat.unpack
  dsimp only
  rw [hexponent, hfraction, ← he, ← hm, hbias]
  -- The exponent field is all ones for infinity, and zero for the numbers without a leading one.
  by_cases h2047 : (unpackExponent b).toNat = 2047
  · rw [if_pos h2047, if_pos (hlast.mpr h2047)]
    split <;> split <;> rfl
  rw [if_neg h2047, if_neg fun h => h2047 (hlast.mp h)]
  by_cases h0 : (unpackExponent b).toNat = 0
  · rw [if_pos h0, if_pos (hfirst.mpr h0), h0]
    by_cases hnone : unpackMantissa b = 0#_
    · rw [dif_pos hnone, hzero.mp hnone]
      unfold value? unpackedRational?
      dsimp only
      rw [Nat.cast_zero, zero_mul, mul_zero]
    · rw [dif_neg hnone]
      unfold value? unpackedRational?
      dsimp only
      rw [hsign, Int.cast_mul, Int.cast_natCast, mul_assoc]
      rfl
  · have hnormal : leastExponent + (((unpackExponent b).toNat - 1 : Nat) : Int) =
        (unpackExponent b).toNat - 1075 := by
      unfold leastExponent
      omega
    rw [if_neg h0, if_neg fun h => h0 (hfirst.mp h), hnormal]
    unfold value? unpackedRational?
    dsimp only
    rw [hsign, hleading, Int.cast_mul, Int.cast_natCast, mul_assoc]

end

end Binary64

/-- A number is found to be whole if the fraction that it stands for is an integer. -/
theorem whole?_ofFloat_eq_some_iff {x : Float} {z : Int} :
    (Binary64.ofFloat x).whole? = some z ↔ rational? x = some (z : ℚ) := by
  rw [Binary64.whole?_eq_some_iff]
  exact Eq.congr_left (Binary64.value?_ofBits x.toModel.toBits.toBitVec)

end Scriptlet.Number
