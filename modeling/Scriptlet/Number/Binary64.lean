/-!
# Binary floating point numbers of 64 bits, taken apart

A finite number is `m · 2^q` with a sign. `Binary64.ofBits` takes a bit pattern
apart, and `nearestBits` finds the number nearest to a fraction, of two equally
near ones the even one. Reading decimal text, writing the shortest digits and
the remainder are all stated on these exact values.
-/

namespace Scriptlet.Number

/-- What a 64-bit floating point number stands for. -/
inductive Binary64 where
  /-- The number `m · 2^q`, negated if `negative`. -/
  | finite (negative : Bool) (m : Nat) (q : Int)
  | infinite (negative : Bool)
  | nan
  deriving DecidableEq, Repr

/-- The least exponent: every finite number is a multiple of `2^(-1074)`. -/
def leastExponent : Int := -1074

/-- The bit pattern of infinity. -/
def infinityBits : Nat := 0x7ff0000000000000

/-- The bit of the sign. -/
def signBit : Nat := 0x8000000000000000

/-- The number `2^52` of fractions with one exponent. -/
def fractions : Nat := 0x10000000000000

/-- The power `base^k`; a negative `k` counts as 0. -/
def powerOf (base : Nat) (k : Int) : Nat := Nat.pow base k.toNat

/-- The power `2^k`; a negative `k` counts as 0. -/
def twoTo (k : Int) : Nat := powerOf 2 k

/-- The power `10^k`; a negative `k` counts as 0. -/
def tenTo (k : Int) : Nat := powerOf 10 k

namespace Binary64

/-- The number with the bit pattern `bits`. -/
def ofBits (bits : Nat) : Binary64 :=
  let negative := signBit ≤ bits
  let magnitude := bits % signBit
  let exponent : Nat := magnitude / fractions
  let fraction := magnitude % fractions
  if exponent = 2047 then (if fraction = 0 then infinite negative else nan)
  else if exponent = 0 then finite negative fraction leastExponent
  else finite negative (fractions + fraction) (leastExponent + ((exponent - 1 : Nat) : Int))

/-- The number that `x` stands for. -/
def ofFloat (x : Float) : Binary64 := ofBits x.toBits.toNat

end Binary64

/-- The quotient `n / d` rounded to the nearest whole number, a half to the even neighbour. -/
def roundHalfEven (n d : Nat) : Nat :=
  let q := n / d
  let r := n % d
  if 2 * r > d || (2 * r == d && q % 2 == 1) then q + 1 else q

/-- The fraction `n / d`, divided by `2^e`. -/
def scaleDown (n d : Nat) (e : Int) : Nat × Nat :=
  (n * twoTo (-e), d * twoTo e)

/-- The whole number that a number is, if it is one. -/
def Binary64.whole? : Binary64 → Option Int
  | .finite negative m q =>
    let (n, d) := scaleDown m 1 (-q)
    if n % d = 0 then some (if negative then -((n / d : Nat) : Int) else ((n / d : Nat) : Int))
    else none
  | .infinite _ | .nan => none

/-- The exponent `e` of the number nearest to `n / d`: that for which `n / (d · 2^e)` lies between
`2^52` and `2^53`, but never below the least one. -/
def exponentFor (n d : Nat) : Int :=
  let e : Int := (Nat.log2 n : Int) - (Nat.log2 d : Int) - 53
  let (n', d') := scaleDown n d e
  max leastExponent (if n' < d' * (2 * fractions) then e else e + 1)

/-- The bit pattern of the positive number nearest to `n / d`; infinity if all are too small. -/
def nearestBits (n d : Nat) : Nat :=
  if n = 0 then 0
  else
    let e := exponentFor n d
    let (n', d') := scaleDown n d e
    let m := roundHalfEven n' d'
    -- A mantissa below `2^52` has the exponent field 0, and one of `2^53` carries into it.
    let bits := if m < fractions then m else (e - leastExponent).toNat * fractions + m
    min bits infinityBits

/-- The number with the given magnitude bits and sign. -/
def withSign (negative : Bool) (bits : Nat) : Float :=
  Float.ofBits (UInt64.ofNat (if negative then signBit + bits else bits))

/-- The number nearest to `n / d`, negated if `negative`. -/
def nearest (negative : Bool) (n d : Nat) : Float :=
  withSign negative (nearestBits n d)

/-- The number nearest to `m · 2^q`, negated if `negative`. -/
def nearestScaled (negative : Bool) (m : Nat) (q : Int) : Float :=
  let (n, d) := scaleDown m 1 (-q)
  nearest negative n d

/-- The remainder of the truncated division of `x` by `y`: it has the sign of `x`, is smaller than
`y`, and differs from `x` by a whole multiple of `y`. It is always exact. -/
def remainder (x y : Float) : Float :=
  match Binary64.ofFloat x, Binary64.ofFloat y with
  | .finite negative m q, .finite _ m' q' =>
    if m' = 0 then Float.ofBits 0x7ff8000000000000
    else
      let least := min q q'
      nearestScaled negative
        ((m * twoTo (q - least)) % (m' * twoTo (q' - least))) least
  | .finite _ _ _, .infinite _ => x
  | _, _ => Float.ofBits 0x7ff8000000000000

end Scriptlet.Number
