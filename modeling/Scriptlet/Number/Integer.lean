/-!
# Whole numbers of 64 bits

The language's integers are the whole numbers from -2⁶³ to 2⁶³ - 1. Arithmetic on
them is done exactly, on `Int`, and `word?` then says whether the result is one
of them: nothing ever wraps.
-/

namespace Scriptlet.Number

/-- The 64-bit integer with the value `n`, if there is one. -/
def word? (n : Int) : Option Int64 :=
  if -9223372036854775808 ≤ n ∧ n ≤ 9223372036854775807 then some (Int64.ofInt n) else none

/-- The product of two 64-bit integers, if it is one. -/
def product? (a b : Int64) : Option Int64 := word? (a.toInt * b.toInt)

/-- `acc * base ^ exponent` by repeated squaring, if no product on the way is too large. The base is
not squared behind the last binary digit of the exponent. -/
def squarings? (acc base : Int64) (exponent : Nat) : Option Int64 :=
  if exponent = 0 then some acc
  else do
    let acc ← if exponent % 2 = 1 then product? acc base else some acc
    if exponent = 1 then return acc
    let square ← product? base base
    squarings? acc square (exponent / 2)
termination_by exponent

/-- The value `base ^ exponent`, if it is a 64-bit integer. An exponent of more than 32 bits leaves
only the powers of 0, 1 and -1 in range. -/
def power? (base : Int64) (exponent : Nat) : Option Int64 :=
  if exponent < 4294967296 then squarings? 1 base exponent
  else if base = 0 ∨ base = 1 then some base
  else if base = -1 then some (if exponent % 2 = 0 then 1 else -1)
  else none

/-- The value of a list of decimal digits. -/
def digitsValue (cs : List Char) : Nat :=
  cs.foldl (fun n c => 10 * n + (c.toNat - 48)) 0

/-- A text split into its sign (whether it starts with a minus) and the rest. -/
def splitSign : List Char → Bool × List Char
  | '-' :: cs => (true, cs)
  | '+' :: cs => (false, cs)
  | cs => (false, cs)

/-- Reads a decimal integer: an optional sign and at least one digit, nothing else. -/
def readInteger? (s : String) : Option Int64 :=
  let (negative, digits) := splitSign s.toList
  if digits.isEmpty || !digits.all Char.isDigit then none
  else word? (if negative then -(digitsValue digits : Int) else digitsValue digits)

theorem word?_eq_some_iff (n : Int) (w : Int64) : word? n = some w ↔ w.toInt = n := by
  have h64 : (Int64.ofInt n).toInt = n.bmod Int64.size := Int64.toInt_ofInt
  have hs : Int64.size = 18446744073709551616 := rfl
  have hlo := w.le_toInt
  have hhi := w.toInt_le
  unfold word?
  split
  · next h =>
    have hb : n.bmod 18446744073709551616 = n := by
      apply Int.bmod_eq_of_le <;> omega
    constructor
    · intro hw
      rw [← Option.some.inj hw, h64, hs, hb]
    · intro hw
      rw [← hw, Int64.ofInt_toInt]
  · next h =>
    constructor
    · intro hw
      cases hw
    · intro hw
      refine absurd ?_ h
      simp only [Int64.toInt_maxValue] at hlo hhi
      omega

end Scriptlet.Number
