import Mathlib.Algebra.Order.Ring.Int
import Mathlib.Algebra.Ring.Int.Parity
import Scriptlet.Operator

/-!
# Arithmetic on integers is exact

An operation on integers gives the whole number that it stands for if this is one of 64 bits, and
an overflow otherwise (`Exact`): so do sums, differences, products, powers and negation
(`integer_arithmetic_exact`). A quotient is an integer where the division leaves nothing over, and
a remainder goes with the quotient truncated toward zero (`integer_division_exact`). The
remainder always fits, and yet one pair of operands has none: the least integer and -1, whose
quotient does not fit (`remainder_least`).
-/

namespace Scriptlet

namespace Number

/-- The whole numbers that 64 bits hold. -/
def Fits (n : Int) : Prop := -2 ^ 63 ≤ n ∧ n ≤ 2 ^ 63 - 1

theorem fits_toInt (w : Int64) : Fits w.toInt := by
  have hle := w.le_toInt
  have hlt := w.toInt_lt
  unfold Fits
  omega

theorem fits_iff (n : Int) : Fits n ↔ ∃ w : Int64, w.toInt = n := by
  constructor
  · intro hn
    have hword : word? n = some (Int64.ofInt n) := if_pos hn
    exact ⟨_, (word?_eq_some_iff n _).mp hword⟩
  · rintro ⟨w, rfl⟩
    exact fits_toInt w

theorem word?_eq_none_iff (n : Int) : word? n = none ↔ ¬ Fits n := by
  rw [fits_iff, ← Option.not_isSome_iff_eq_none, Option.isSome_iff_exists]
  exact not_congr (exists_congr fun w => word?_eq_some_iff n w)

theorem product?_eq_some_iff (a b c : Int64) :
    product? a b = some c ↔ c.toInt = a.toInt * b.toInt := by
  rw [product?, word?_eq_some_iff]

/-! ### Powers -/

/-- A whole number that does not fit has no multiple that does. -/
theorem not_fits_mul {n k : Int} (hn : ¬ Fits n) (hk : 1 ≤ k) : ¬ Fits (n * k) := by
  unfold Fits at hn ⊢
  rcases Int.le_total 0 n with hpos | hneg
  · have hle : n * 1 ≤ n * k := Int.mul_le_mul_of_nonneg_left hk hpos
    omega
  · have hle : n * k ≤ n * 1 := Int.mul_le_mul_of_nonpos_left hneg hk
    omega

/-- A square that does not fit is too large for its negative as well: it is not `2 ^ 63`. -/
theorem not_fits_mul_square {b k : Int} (hb : ¬ Fits (b * b)) (hk : k ≠ 0) :
    ¬ Fits (k * (b * b)) := by
  have hsquare : 2 ^ 63 < b * b := by
    unfold Fits at hb
    have hnat : b * b = (b.natAbs * b.natAbs : Nat) := Int.natAbs_mul_self.symm
    by_contra hle
    have hexact : b.natAbs * b.natAbs = 2 ^ 63 := by omega
    rcases Nat.lt_or_ge b.natAbs 3037000500 with hlt | hge
    · have := Nat.mul_le_mul (Nat.le_of_lt_succ hlt) (Nat.le_of_lt_succ hlt)
      omega
    · have := Nat.mul_le_mul hge hge
      omega
  unfold Fits
  rcases (by omega : 1 ≤ k ∨ k ≤ -1) with hpos | hneg
  · have hle : 1 * (b * b) ≤ k * (b * b) := Int.mul_le_mul_of_nonneg_right hpos (by omega)
    omega
  · have hle : k * (b * b) ≤ -1 * (b * b) := Int.mul_le_mul_of_nonneg_right hneg (by omega)
    omega

theorem squarings?_odd {acc base : Int64} {e : Nat} (he : e % 2 = 1) :
    squarings? acc base e = (product? acc base).bind fun acc =>
      if e = 1 then some acc
      else (product? base base).bind fun square => squarings? acc square (e / 2) := by
  rw [squarings?, if_neg (by omega), if_pos he]
  rfl

theorem squarings?_even {acc base : Int64} {e : Nat} (he : e % 2 = 0) (hne : e ≠ 0) :
    squarings? acc base e =
      (product? base base).bind fun square => squarings? acc square (e / 2) := by
  have hone : ¬ e = 1 := by omega
  rw [squarings?, if_neg hne, if_neg (by omega)]
  simp only [if_neg hone]
  rfl

/-- What follows a squaring: if the square does not fit, then neither does the power, since the
square is a factor of it. -/
theorem square_bind_eq {acc base : Int64} {e : Nat} (he : 2 ≤ e)
    (hbase : acc.toInt = 0 → base.toInt = 0)
    (ih : ∀ square : Int64, (acc.toInt = 0 → square.toInt = 0) →
      squarings? acc square (e / 2) = word? (acc.toInt * square.toInt ^ (e / 2))) :
    ((product? base base).bind fun square => squarings? acc square (e / 2)) =
      word? (acc.toInt * (base.toInt * base.toInt) ^ (e / 2)) := by
  cases hsquare : product? base base with
  | some square =>
    have hvalue := (product?_eq_some_iff _ _ _).mp hsquare
    rw [Option.bind_some, ih square fun hacc => by rw [hvalue, hbase hacc]; rfl, hvalue]
  | none =>
    have hlarge : ¬ Fits (base.toInt * base.toInt) := (word?_eq_none_iff _).mp hsquare
    have hbase' : base.toInt ≠ 0 := by
      intro h0
      rw [h0] at hlarge
      exact hlarge ⟨by decide, by decide⟩
    have hacc : acc.toInt ≠ 0 := fun h0 => hbase' (hbase h0)
    have hfactor : acc.toInt * (base.toInt * base.toInt) ^ (e / 2) =
        acc.toInt * (base.toInt * base.toInt) ^ (e / 2 - 1) * (base.toInt * base.toInt) := by
      rw [Int.mul_assoc, ← pow_succ, Nat.sub_add_cancel (by omega)]
    have hnonzero : acc.toInt * (base.toInt * base.toInt) ^ (e / 2 - 1) ≠ 0 :=
      mul_ne_zero hacc (pow_ne_zero _ (mul_ne_zero hbase' hbase'))
    rw [Option.bind_none, hfactor]
    exact ((word?_eq_none_iff _).mpr (not_fits_mul_square hlarge hnonzero)).symm

/-- Repeated squaring is exact, although it may leave the 64 bits early: a product on the way that
does not fit is a factor of the power. -/
theorem squarings?_eq (acc base : Int64) (e : Nat) (hbase : acc.toInt = 0 → base.toInt = 0) :
    squarings? acc base e = word? (acc.toInt * base.toInt ^ e) := by
  induction e using Nat.strongRecOn generalizing acc base with
  | ind e ih =>
    have hhalf (he : e ≠ 0) := ih (e / 2) (by omega)
    rcases Nat.mod_two_eq_zero_or_one e with heven | hodd
    · by_cases h0 : e = 0
      · rw [squarings?, if_pos h0, h0, pow_zero, Int.mul_one]
        exact ((word?_eq_some_iff _ _).mpr rfl).symm
      · have hpower : base.toInt ^ e = (base.toInt * base.toInt) ^ (e / 2) := by
          rw [← pow_two, ← pow_mul, Nat.mul_div_cancel' (Nat.dvd_of_mod_eq_zero heven)]
        rw [squarings?_even heven h0, hpower]
        exact square_bind_eq (by omega) hbase fun square => hhalf h0 acc square
    · have hpower : base.toInt ^ e = base.toInt * (base.toInt * base.toInt) ^ (e / 2) := by
        rw [← pow_two, ← pow_mul, ← pow_succ', (by omega : 2 * (e / 2) + 1 = e)]
      rw [squarings?_odd hodd, hpower, ← Int.mul_assoc]
      cases hacc : product? acc base with
      | none =>
        have hlarge := (word?_eq_none_iff _).mp hacc
        have hbase' : base.toInt ≠ 0 := by
          intro h0
          rw [h0, Int.mul_zero] at hlarge
          exact hlarge ⟨by decide, by decide⟩
        have hfactor : 1 ≤ (base.toInt * base.toInt) ^ (e / 2) :=
          Int.pow_pos (mul_self_pos.mpr hbase')
        exact ((word?_eq_none_iff _).mpr (not_fits_mul hlarge hfactor)).symm
      | some acc' =>
        have hvalue := (product?_eq_some_iff _ _ _).mp hacc
        rw [Option.bind_some, ← hvalue]
        split
        · rename_i h1
          rw [h1, pow_zero, Int.mul_one]
          exact ((word?_eq_some_iff _ _).mpr rfl).symm
        · have hbase' : acc'.toInt = 0 → base.toInt = 0 := by
            intro h0
            rcases Int.mul_eq_zero.mp (hvalue.symm.trans h0) with hacc0 | hbase0
            · exact hbase hacc0
            · exact hbase0
          exact square_bind_eq (by omega) hbase' fun square => hhalf (by omega) acc' square

/-- Beyond -1, 0 and 1, a power to the 64th or more does not fit. -/
theorem not_fits_pow {base : Int} (hbase : 2 ≤ base.natAbs) {exponent : Nat} (hexp : 64 ≤ exponent) :
    ¬ Fits (base ^ exponent) := by
  have hpow : 2 ^ 64 ≤ (base ^ exponent).natAbs :=
    calc 2 ^ 64 ≤ 2 ^ exponent := Nat.pow_le_pow_right (by decide) hexp
      _ ≤ base.natAbs ^ exponent := Nat.pow_le_pow_left hbase _
      _ = (base ^ exponent).natAbs := (Int.natAbs_pow base exponent).symm
  unfold Fits
  omega

/-- Whichever way it is computed, a power is exact. -/
theorem power?_eq (base : Int64) (exponent : Nat) :
    power? base exponent = word? (base.toInt ^ exponent) := by
  have hsome (w : Int64) {n : Int} (hw : w.toInt = n) : some w = word? n :=
    ((word?_eq_some_iff n w).mpr hw).symm
  unfold power?
  split
  · rw [squarings?_eq 1 base exponent (fun h => absurd h (by decide))]
    exact congrArg word? (Int.one_mul _)
  rename_i hlarge
  split
  · rename_i hbase
    rcases hbase with rfl | rfl
    · exact hsome 0 (zero_pow (by omega)).symm
    · exact hsome 1 (one_pow _).symm
  split
  · rename_i hbase
    subst hbase
    split
    · rename_i heven
      exact hsome 1 (Nat.even_iff.mpr heven).neg_one_pow.symm
    · rename_i hodd
      exact hsome (-1) (Nat.odd_iff.mpr (by omega)).neg_one_pow.symm
  · rename_i h01 hneg
    have hbase : 2 ≤ base.toInt.natAbs := by
      have h0 : base.toInt ≠ (0 : Int64).toInt := fun h => h01 (.inl (Int64.toInt_inj.mp h))
      have h1 : base.toInt ≠ (1 : Int64).toInt := fun h => h01 (.inr (Int64.toInt_inj.mp h))
      have hm : base.toInt ≠ (-1 : Int64).toInt := fun h => hneg (Int64.toInt_inj.mp h)
      have h0' : (0 : Int64).toInt = 0 := by decide
      have h1' : (1 : Int64).toInt = 1 := by decide
      have hm' : (-1 : Int64).toInt = -1 := by decide
      omega
    exact ((word?_eq_none_iff _).mpr (not_fits_pow hbase (by omega))).symm

/-- Where the exponent has more than 32 bits, repeated squaring would give the same. -/
theorem squarings?_eq_power? (base : Int64) (exponent : Nat) :
    squarings? 1 base exponent = power? base exponent := by
  rw [power?_eq, squarings?_eq 1 base exponent (fun h => absurd h (by decide))]
  exact congrArg word? (Int.one_mul _)

end Number

/-- The result is the integer `n` if that fits, and an overflow if it does not. -/
structure Exact (result : Except Cause Value) (n : Int) : Prop where
  integer (c : Int64) : result = .ok (.integer c) ↔ c.toInt = n
  fits : (∃ c : Int64, result = .ok (.integer c)) ↔ Number.Fits n
  overflow : result = .error .integerOverflow ↔ ¬ Number.Fits n
  no_float (x : Float) : result ≠ .ok (.float x)

theorem exact_exactly (n : Int) : Exact (exactly (Number.word? n)) n := by
  have hinteger (c : Int64) : exactly (Number.word? n) = .ok (.integer c) ↔ c.toInt = n := by
    rw [← Number.word?_eq_some_iff]
    cases Number.word? n <;> simp [exactly]
  refine ⟨hinteger, ?_, ?_, ?_⟩
  · rw [Number.fits_iff]
    exact exists_congr hinteger
  · rw [← Number.word?_eq_none_iff]
    cases Number.word? n <;> simp [exactly]
  · intro x
    cases Number.word? n <;> simp [exactly]

theorem power_integers {a b : Int64} (hb : 0 ≤ b.toInt) :
    power (.integer a) (.integer b) = exactly (Number.word? (a.toInt ^ b.toInt.toNat)) := by
  unfold power
  dsimp only
  rw [if_pos hb, Number.power?_eq]

/-- Sums, differences, products, powers and negation are exact. -/
theorem integer_arithmetic_exact (h : Heap) (a b : Int64) :
    Exact (h.applyBinary .add (.integer a) (.integer b)) (a.toInt + b.toInt) ∧
      Exact (h.applyBinary .subtract (.integer a) (.integer b)) (a.toInt - b.toInt) ∧
      Exact (h.applyBinary .multiply (.integer a) (.integer b)) (a.toInt * b.toInt) ∧
      (0 ≤ b.toInt →
        Exact (h.applyBinary .power (.integer a) (.integer b)) (a.toInt ^ b.toInt.toNat)) ∧
      Exact (applyUnary .negate (.integer a)) (-a.toInt) := by
  refine ⟨exact_exactly _, exact_exactly _, exact_exactly _, fun hb => ?_, exact_exactly _⟩
  show Exact (power (.integer a) (.integer b)) _
  rw [power_integers hb]
  exact exact_exactly _

/-- The least integer is a power of -2. -/
theorem integer_arithmetic_exact_sample :
    0 ≤ (63 : Int64).toInt ∧
      Heap.empty.applyBinary .power (.integer (-2)) (.integer 63) =
        .ok (.integer Int64.minValue) := by
  have hexponent : 0 ≤ (63 : Int64).toInt := by decide
  have hpower := (integer_arithmetic_exact Heap.empty (-2) 63).2.2.2.1 hexponent
  exact ⟨hexponent, (hpower.integer Int64.minValue).mpr (by decide)⟩

/-! ## Division -/

/-- The result of a division of `a` by `b`: the integer that `a` is a multiple of `b` by, an overflow
if that does not fit, and a floating point number if `a` is no multiple. -/
structure IsQuotient (result : Except Cause Value) (a b : Int64) : Prop where
  integer (q : Int64) : result = .ok (.integer q) ↔ a.toInt = q.toInt * b.toInt
  overflow : result = .error .integerOverflow ↔
    ∃ q : Int, a.toInt = q * b.toInt ∧ ¬ Number.Fits q
  float (x : Float) : result = .ok (.float x) ↔ ¬ b.toInt ∣ a.toInt ∧ x = a.toFloat / b.toFloat

/-- `r` is what the division of `a` by `b`, truncated toward zero, leaves over. -/
structure IsRemainder (r a b : Int) : Prop where
  rest : a = b * a.tdiv b + r
  below : r.natAbs < b.natAbs
  sign : r = 0 ∨ r.sign = a.sign

theorem isRemainder_tmod {a b : Int} (hb : b ≠ 0) : IsRemainder (a.tmod b) a b where
  rest := (Int.mul_tdiv_add_tmod a b).symm
  below := by
    rw [Int.natAbs_tmod]
    exact Nat.mod_lt _ (Int.natAbs_pos.mpr hb)
  sign := by
    rw [Int.dvd_iff_tmod_eq_zero.symm, Int.sign_tmod]
    by_cases hdvd : b ∣ a
    · exact .inl hdvd
    · exact .inr (if_neg hdvd)

/-- A truncated quotient does not fit only if the least integer is divided by -1. -/
theorem fits_tdiv_iff {a b : Int} (ha : Number.Fits a) (hb : b ≠ 0) :
    Number.Fits (a.tdiv b) ↔ ¬ (a = -2 ^ 63 ∧ b = -1) := by
  unfold Number.Fits at ha ⊢
  rcases (by omega : b = 1 ∨ b = -1 ∨ 2 ≤ b.natAbs) with rfl | rfl | h2
  · rw [Int.tdiv_one]
    omega
  · rw [Int.tdiv_neg, Int.tdiv_one]
    omega
  · have hquotient : (a.tdiv b).natAbs = a.natAbs / b.natAbs := Int.natAbs_tdiv a b
    have hhalf : a.natAbs / b.natAbs ≤ a.natAbs / 2 := Nat.div_le_div_left h2 (by decide)
    omega

theorem fits_tmod {a b : Int64} (hb : b.toInt ≠ 0) : Number.Fits (a.toInt.tmod b.toInt) := by
  have hbelow := (isRemainder_tmod (a := a.toInt) hb).below
  have hle := b.le_toInt
  have hlt := b.toInt_lt
  unfold Number.Fits
  omega

section

variable {a b : Int64} (hb : b ≠ 0)

include hb

theorem toInt_ne_zero : b.toInt ≠ 0 := fun h => hb (Int64.toInt_inj.mp h)

theorem isQuotient_divide : IsQuotient (divide (.integer a) (.integer b)) a b := by
  have hb' := toInt_ne_zero hb
  have hmul (q : Int) : a.toInt = q * b.toInt ↔ b.toInt ∣ a.toInt ∧ q = a.toInt.tdiv b.toInt := by
    constructor
    · intro hq
      exact ⟨⟨q, by rw [hq, Int.mul_comm]⟩, by rw [hq, Int.mul_tdiv_cancel q hb']⟩
    · rintro ⟨hdvd, rfl⟩
      exact (Int.tdiv_mul_cancel hdvd).symm
  unfold divide
  dsimp only
  rw [if_neg hb]
  by_cases hdvd : b.toInt ∣ a.toInt
  · rw [if_pos (Int.tmod_eq_zero_of_dvd hdvd)]
    have hexact := exact_exactly (a.toInt.tdiv b.toInt)
    refine ⟨fun q => ?_, ?_, fun x => ?_⟩
    · rw [hexact.integer, hmul, and_iff_right hdvd]
    · rw [hexact.overflow]
      simp only [hmul, and_iff_right hdvd, exists_eq_left]
    · exact iff_of_false (hexact.no_float x) fun hx => hx.1 hdvd
  · rw [if_neg fun h => hdvd (Int.dvd_of_tmod_eq_zero h)]
    refine ⟨fun q => ?_, ?_, fun x => ?_⟩
    · exact iff_of_false nofun fun hq => hdvd ((hmul _).mp hq).1
    · exact iff_of_false nofun fun ⟨q, hq, _⟩ => hdvd ((hmul q).mp hq).1
    · rw [Except.ok.injEq, Value.float.injEq, and_iff_right hdvd]
      exact eq_comm

theorem exists_remainder (hquotient : ¬ (a = Int64.minValue ∧ b = -1)) :
    ∃ r : Int64, remainder (.integer a) (.integer b) = .ok (.integer r) ∧
      IsRemainder r.toInt a.toInt b.toInt := by
  have hb' := toInt_ne_zero hb
  have hfits : Number.Fits (a.toInt.tdiv b.toInt) := by
    refine (fits_tdiv_iff (Number.fits_toInt a) hb').mpr fun ⟨ha1, hb1⟩ => hquotient ⟨?_, ?_⟩
    · exact Int64.toInt_inj.mp ha1
    · exact Int64.toInt_inj.mp hb1
  obtain ⟨q, hq⟩ := (Number.fits_iff _).mp hfits
  obtain ⟨r, hr⟩ := (Number.fits_iff _).mp (fits_tmod (a := a) hb')
  refine ⟨r, ?_, hr ▸ isRemainder_tmod hb'⟩
  unfold remainder
  dsimp only
  rw [if_neg hb, (Number.word?_eq_some_iff _ q).mpr hq]
  exact ((exact_exactly _).integer r).mpr hr

end

theorem exactly_ne_divisionByZero (n : Option Int64) : exactly n ≠ .error .divisionByZero := by
  cases n <;> exact nofun

theorem guarded_eq_divisionByZero_iff {b : Int64} {result : Except Cause Value}
    (hresult : result ≠ .error .divisionByZero) :
    (if b = 0 then .error .divisionByZero else result) = .error .divisionByZero ↔ b = 0 := by
  by_cases hb : b = 0
  · rw [if_pos hb]
    exact iff_of_true rfl hb
  · rw [if_neg hb]
    exact iff_of_false hresult hb

theorem divide_eq_divisionByZero_iff (a b : Int64) :
    divide (.integer a) (.integer b) = .error .divisionByZero ↔ b = 0 := by
  apply guarded_eq_divisionByZero_iff
  split
  · exact exactly_ne_divisionByZero _
  · exact nofun

theorem remainder_eq_divisionByZero_iff (a b : Int64) :
    remainder (.integer a) (.integer b) = .error .divisionByZero ↔ b = 0 := by
  apply guarded_eq_divisionByZero_iff
  split
  · exact exactly_ne_divisionByZero _
  · exact nofun

/-- Quotients are exact or floating point numbers, and there are remainders but for the least integer
and -1. -/
theorem integer_division_exact (h : Heap) (a b : Int64) :
    (h.applyBinary .divide (.integer a) (.integer b) = .error .divisionByZero ↔ b = 0) ∧
      (h.applyBinary .remainder (.integer a) (.integer b) = .error .divisionByZero ↔ b = 0) ∧
      (b ≠ 0 → IsQuotient (h.applyBinary .divide (.integer a) (.integer b)) a b) ∧
      (b ≠ 0 → ¬ (a = Int64.minValue ∧ b = -1) →
        ∃ r : Int64, h.applyBinary .remainder (.integer a) (.integer b) = .ok (.integer r) ∧
          IsRemainder r.toInt a.toInt b.toInt) :=
  ⟨divide_eq_divisionByZero_iff a b, remainder_eq_divisionByZero_iff a b, isQuotient_divide,
    exists_remainder⟩

/-- The least integer is no multiple of -3, and leaves a remainder. -/
theorem integer_division_exact_sample :
    (-3 : Int64) ≠ 0 ∧ ¬ (Int64.minValue = Int64.minValue ∧ (-3 : Int64) = -1) ∧
      (∀ q : Int64, Heap.empty.applyBinary .divide (.integer Int64.minValue) (.integer (-3)) ≠
        .ok (.integer q)) ∧
      Heap.empty.applyBinary .remainder (.integer Int64.minValue) (.integer (-3)) =
        .ok (.integer (-2)) := by
  have hb : (-3 : Int64) ≠ 0 := by decide
  have hquotient : ¬ (Int64.minValue = Int64.minValue ∧ (-3 : Int64) = -1) := by decide
  have hleast : Int64.minValue.toInt = -9223372036854775808 := by decide
  have hthree : (-3 : Int64).toInt = -3 := by decide
  obtain ⟨-, -, hdivide, hremainder⟩ := integer_division_exact Heap.empty Int64.minValue (-3)
  refine ⟨hb, hquotient, fun q hq => ?_, ?_⟩
  · have hmultiple := ((hdivide hb).integer q).mp hq
    rw [hleast, hthree] at hmultiple
    omega
  · obtain ⟨r, hr, hrest⟩ := hremainder hb hquotient
    have hvalue := hrest.rest
    have htruncated : Int.tdiv (-9223372036854775808) (-3) = 3074457345618258602 := by decide
    rw [hleast, hthree, htruncated] at hvalue
    have htwo : r.toInt = (-2 : Int64).toInt := by
      rw [show (-2 : Int64).toInt = -2 by decide]
      omega
    rw [hr, Int64.toInt_inj.mp htwo]

/-- The least integer has no remainder by -1, though 0 is one. -/
theorem remainder_least :
    (-1 : Int64) ≠ 0 ∧ IsRemainder (0 : Int64).toInt Int64.minValue.toInt (-1 : Int64).toInt ∧
      Heap.empty.applyBinary .remainder (.integer Int64.minValue) (.integer (-1)) =
        .error .integerOverflow :=
  ⟨by decide, ⟨by decide, by decide, .inl rfl⟩, rfl⟩

end Scriptlet
