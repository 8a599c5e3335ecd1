import Scriptlet.Failure
import Scriptlet.Number.Integer
import Scriptlet.Value.Equal
import Scriptlet.Value.Render

/-!
# Operators on values

Integers stay integers where the result is exact, and overflow is an error. If one
operand is a floating point number, both are taken as such. A text joins with the
text of any value.
-/

namespace Scriptlet

/-- An integer that may not fit. -/
def exactly (n : Option Int64) : Except Cause Value :=
  match n with
  | some n => .ok (.integer n)
  | none => .error .integerOverflow

/-- The error for operands that `op` does not take. -/
def invalidOperands (op : BinaryOp) (l r : Value) : Cause :=
  .invalidOperands op l.typeName r.typeName

/-- An arithmetic operation: exact on integers, else on floating point numbers. -/
def arithmetic (op : BinaryOp) (onInts : Int → Int → Int) (onFloats : Float → Float → Float)
    (l r : Value) : Except Cause Value :=
  match l, r with
  | .integer a, .integer b => exactly (Number.word? (onInts a.toInt b.toInt))
  | _, _ =>
    match Value.floatPair? l r with
    | some (a, b) => .ok (.float (onFloats a b))
    | none => .error (invalidOperands op l r)

namespace Heap

/-- The sum of two numbers, or the texts of two values joined if one of them is a text. -/
def add (h : Heap) (l r : Value) : Except Cause Value :=
  match l, r with
  | .string a, _ => .ok (.string (a ++ h.display r))
  | _, .string b => .ok (.string (h.display l ++ b))
  | _, _ => arithmetic .add (· + ·) (· + ·) l r

end Heap

/-- The quotient: an integer if it is a whole number, else a floating point number. -/
def divide (l r : Value) : Except Cause Value :=
  match l, r with
  | .integer a, .integer b =>
    if b = 0 then .error .divisionByZero
    else if Int.tmod a.toInt b.toInt = 0 then exactly (Number.word? (Int.tdiv a.toInt b.toInt))
    else .ok (.float (a.toFloat / b.toFloat))
  | _, _ =>
    match Value.floatPair? l r with
    | some (a, b) => if b == 0.0 then .error .divisionByZero else .ok (.float (a / b))
    | none => .error (invalidOperands .divide l r)

/-- The remainder of the division truncated toward zero. If the quotient of two integers does not
fit, there is no remainder either. -/
def remainder (l r : Value) : Except Cause Value :=
  match l, r with
  | .integer a, .integer b =>
    if b = 0 then .error .divisionByZero
    else
      match Number.word? (Int.tdiv a.toInt b.toInt) with
      | some _ => exactly (Number.word? (Int.tmod a.toInt b.toInt))
      | none => .error .integerOverflow
  | _, _ =>
    match Value.floatPair? l r with
    | some (a, b) => if b == 0.0 then .error .divisionByZero else .ok (.float (Number.remainder a b))
    | none => .error (invalidOperands .remainder l r)

/-- The power: exact for an integer and a whole exponent that is not negative. -/
def power (l r : Value) : Except Cause Value :=
  let onFloats : Except Cause Value :=
    match Value.floatPair? l r with
    | some (a, b) => .ok (.float (Float.pow a b))
    | none => .error (invalidOperands .power l r)
  match l, r with
  | .integer a, .integer b =>
    if 0 ≤ b.toInt then exactly (Number.power? a b.toInt.toNat) else onFloats
  | _, _ => onFloats

/-- The order of two floating point numbers; a number that is none has no order. -/
def floatOrder? (a b : Float) : Option Ordering :=
  if a < b then some .lt
  else if b < a then some .gt
  else if a == b then some .eq
  else none

/-- The order of two texts: by the first character in which they differ. -/
def textOrder (a b : String) : Ordering :=
  if a < b then .lt else if a = b then .eq else .gt

/-- A comparison of two numbers or two texts. -/
def ordered (op : BinaryOp) (test : Ordering → Bool) (l r : Value) : Except Cause Value :=
  match l, r with
  | .integer a, .integer b => .ok (.boolean (test (compare a.toInt b.toInt)))
  | .string a, .string b => .ok (.boolean (test (textOrder a b)))
  | _, _ =>
    match Value.floatPair? l r with
    | some (a, b) => .ok (.boolean ((floatOrder? a b).any test))
    | none => .error (invalidOperands op l r)

/-- Applies a binary operator. -/
def Heap.applyBinary (h : Heap) (op : BinaryOp) (l r : Value) : Except Cause Value :=
  match op with
  | .add => h.add l r
  | .subtract => arithmetic .subtract (· - ·) (· - ·) l r
  | .multiply => arithmetic .multiply (· * ·) (· * ·) l r
  | .divide => divide l r
  | .remainder => remainder l r
  | .power => power l r
  | .equal => .ok (.boolean (h.equal l r))
  | .notEqual => .ok (.boolean (!h.equal l r))
  | .less => ordered .less Ordering.isLT l r
  | .lessEqual => ordered .lessEqual Ordering.isLE l r
  | .greater => ordered .greater Ordering.isGT l r
  | .greaterEqual => ordered .greaterEqual Ordering.isGE l r

/-- Applies a unary operator. -/
def applyUnary (op : UnaryOp) (v : Value) : Except Cause Value :=
  match op with
  | .not => .ok (.boolean !v.truthy)
  | .negate =>
    match v with
    | .integer n => exactly (Number.word? (-n.toInt))
    | .float x => .ok (.float (-x))
    | _ => .error (.invalidOperand .negate v.typeName)

end Scriptlet
