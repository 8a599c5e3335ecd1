import Scriptlet.Number.Binary64
import Scriptlet.Number.Integer

/-!
# Reading decimal text as a floating point number

The text of a number is an optional sign followed by digits with at most one
point among or around them and an optional exponent, or by one of the words for
infinity and for "not a number", in any case. The result is the nearest number.
-/

namespace Scriptlet.Number

/-- Digits with an optional fraction and exponent: the number `coefficient · 10^exponent`. -/
structure Decimal where
  coefficient : Nat
  exponent : Int
  deriving DecidableEq, Repr

namespace Decimal

/-- Reads the part after the mark of the exponent: an optional sign and at least one digit. -/
def readExponent? (cs : List Char) : Option Int :=
  let (negative, digits) := splitSign cs
  if digits.isEmpty || !digits.all Char.isDigit then none
  else some (if negative then -(digitsValue digits : Int) else digitsValue digits)

/-- Reads digits, an optional fraction and an optional exponent; there is at least one digit
before the exponent. -/
def read? (cs : List Char) : Option Decimal :=
  let whole := cs.takeWhile Char.isDigit
  let (fraction, rest) :=
    match cs.dropWhile Char.isDigit with
    | '.' :: more => (more.takeWhile Char.isDigit, more.dropWhile Char.isDigit)
    | more => ([], more)
  let digits := whole ++ fraction
  if digits.isEmpty then none
  else
    let shift : Int := -(fraction.length : Int)
    match rest with
    | [] => some ⟨digitsValue digits, shift⟩
    | mark :: more =>
      if mark = 'e' || mark = 'E' then
        (readExponent? more).map fun e => ⟨digitsValue digits, e + shift⟩
      else none

/-- The number nearest to a decimal. One above 10³¹⁰ is infinite and one below 10⁻³³⁰ is zero, so
no larger powers of ten are needed. -/
def toFloat (negative : Bool) (d : Decimal) : Float :=
  let magnitude : Int := (Nat.toDigits 10 d.coefficient).length + d.exponent
  if d.coefficient = 0 || magnitude < -330 then withSign negative 0
  else if magnitude > 310 then withSign negative infinityBits
  else nearest negative (d.coefficient * tenTo d.exponent) (tenTo (-d.exponent))

end Decimal

/-- Reads the text of a floating point number. -/
def readFloat? (s : String) : Option Float :=
  let (negative, cs) := splitSign s.toList
  let word := String.ofList (cs.map Char.toLower)
  if word = "inf" || word = "infinity" then some (withSign negative infinityBits)
  else if word = "nan" then some (withSign negative 0x7ff8000000000000)
  else (Decimal.read? cs).map (Decimal.toFloat negative)

end Scriptlet.Number
