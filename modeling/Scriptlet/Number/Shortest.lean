import Scriptlet.Number.Binary64

/-!
# The shortest decimal text of a floating point number

A number is written with the fewest digits that still read back as it, of the
decimals with that many digits the nearest, of two equally near ones the larger.
The text is always positional: no exponent, no point behind a whole number.
-/

namespace Scriptlet.Number

/-- The decimals that read back as a number: those between `low` and `high`, all three over the
common denominator `den`, and the two ends themselves if `closed`. -/
structure RoundingInterval where
  low : Nat
  value : Nat
  high : Nat
  den : Nat
  closed : Bool

namespace RoundingInterval

/-- The interval of the positive number `m · 2^q`. The neighbour below a power of two is half as
far away as the one above it. -/
def of (m : Nat) (q : Int) : RoundingInterval :=
  let below := if m = fractions && q > leastExponent then 1 else 2
  let up := twoTo (q - 2)
  { low := (4 * m - below) * up
    value := 4 * m * up
    high := (4 * m + 2) * up
    den := twoTo (2 - q)
    closed := m % 2 = 0 }

/-- Whether `n / d` reads back as the number. -/
def contains (i : RoundingInterval) (n d : Nat) : Bool :=
  let x := n * i.den
  if i.closed then i.low * d ≤ x && x ≤ i.high * d else i.low * d < x && x < i.high * d

/-- Whether the number is below `10^p`. -/
def below (i : RoundingInterval) (p : Int) : Bool :=
  i.value * tenTo (-p) < i.den * tenTo p

/-- The least `p` with the number below `10^p`, found from its binary logarithm. -/
def magnitude (i : RoundingInterval) : Int :=
  let bits : Int := (Nat.log2 i.value : Int) - (Nat.log2 i.den : Int)
  let guess : Int := (bits - 1) * 30103 / 100000
  if i.below guess then guess
  else if i.below (guess + 1) then guess + 1
  else if i.below (guess + 2) then guess + 2
  else guess + 3

/-- The decimal `c · 10^k` next to the number that reads back as it, if there is one: the grid of
multiples of `10^k` has one neighbour of the number on each side. -/
def onGrid (i : RoundingInterval) (k : Int) : Option Nat :=
  let n := i.value * tenTo (-k)
  let d := i.den * tenTo k
  let c := n / d
  let lower := i.contains (c * tenTo k) (tenTo (-k))
  let upper := i.contains ((c + 1) * tenTo k) (tenTo (-k))
  if upper && (!lower || d ≤ 2 * (n % d)) then some (c + 1)
  else if lower then some c
  else none

/-- The shortest decimal `c · 10^k` that reads back, as the pair of `c` and `k`. Seventeen digits
always suffice. -/
def shortest (i : RoundingInterval) : Nat × Int :=
  let p := i.magnitude
  ((List.range 18).findSome? fun (digits : Nat) =>
    let k := p - (digits : Int) - 1
    (i.onGrid k).map fun c => (c, k)).getD (0, 0)

end RoundingInterval

/-- The digits of `c · 10^k` in positional notation, without zeros at the end of a fraction. -/
def positional (c : Nat) (k : Int) : List Char :=
  let digits := Nat.toDigits 10 c
  if 0 ≤ k then digits ++ List.replicate k.toNat '0'
  else
    let places := (-k).toNat
    let padded := List.replicate (places + 1 - digits.length) '0' ++ digits
    let whole := padded.take (padded.length - places)
    let fraction := ((padded.drop (padded.length - places)).reverse.dropWhile (· = '0')).reverse
    if fraction.isEmpty then whole else whole ++ '.' :: fraction

/-- The text of a floating point number. -/
def floatText (x : Float) : String :=
  match Binary64.ofFloat x with
  | .nan => "NaN"
  | .infinite negative => if negative then "-Infinity" else "Infinity"
  | .finite negative m q =>
    let digits :=
      if m = 0 then ['0']
      else
        let (c, k) := (RoundingInterval.of m q).shortest
        positional c k
    String.ofList (if negative then '-' :: digits else digits)

end Scriptlet.Number
