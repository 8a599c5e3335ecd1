import Scriptlet.Heap

/-!
# Equality of values

Arrays and objects are equal if their contents are, whatever cells they are.
They may contain themselves: a pair of cells that is met again while it is being
compared counts as equal, since any difference shows on another path. Instances
and classes are equal only to themselves. Functions are equal if they come from one
declaration and one scope and are bound to equal values, or to none.
-/

namespace Scriptlet

/-- A pair of cells whose comparison is in progress. -/
inductive CellPair where
  | arrays (l r : Ref .array)
  | objects (l r : Ref .object)
  deriving DecidableEq, Repr

/-- Whether two functions come from one declaration and one scope. Every program that is run gets a
number of its own, and no two declarations in it have one position; so these two tell declarations
apart. -/
def Function.alike (f g : Function) : Bool :=
  f.program = g.program && f.routine.position = g.routine.position && f.scope = g.scope

/-- Whether two functions are bound to values that pass a test, or neither is bound to one. -/
def Function.boundAs (f g : Function) (test : Value → Value → Bool) : Bool :=
  match f.receiver, g.receiver with
  | none, none => true
  | some x, some y => test x y
  | _, _ => false

/-- Whether nothing at all tells two values apart. -/
def Value.identical : Value → Value → Bool
  | .undefined, .undefined => true
  | .null, .null => true
  | .boolean a, .boolean b => a = b
  | .integer a, .integer b => a = b
  | .float a, .float b => a = b
  | .string a, .string b => a = b
  | .array a, .array b => a = b
  | .object a, .object b => a = b
  | .inst a, .inst b => a = b
  | .klass a, .klass b => a = b
  | .builtin a, .builtin b => a.ident = b.ident
  | .function ⟨p, c, s, v, n⟩, .function ⟨p', c', s', v', n'⟩ =>
    Function.alike ⟨p, c, s, v, n⟩ ⟨p', c', s', v', n'⟩ && n = n' &&
      match v, v' with
      | none, none => true
      | some x, some y => x.identical y
      | _, _ => false
  | _, _ => false

theorem Value.identical_function (f g : Function) :
    (Value.function f).identical (.function g) =
      (f.alike g && f.mark = g.mark && f.boundAs g Value.identical) := by
  obtain ⟨p, c, s, _ | x, n⟩ := f <;> obtain ⟨p', c', s', _ | y, n'⟩ := g <;> rfl

theorem Value.identical_function_other (f : Function) {r : Value} (hr : ∀ g, r ≠ .function g) :
    (Value.function f).identical r = false := by
  obtain ⟨p, c, s, _ | x, n⟩ := f <;> cases r <;> first | rfl | exact absurd rfl (hr _)

namespace Heap

/-- Compares two values while the pairs of `path` are being compared; `inner` compares what lies in
two cells. -/
def equalBy (h : Heap) (inner : List CellPair → Value → Value → Bool) (path : List CellPair) :
    Value → Value → Bool
  | .undefined, .undefined => true
  | .null, .null => true
  | .boolean a, .boolean b => a = b
  | .integer a, .integer b => a = b
  | .float a, .float b => a == b
  | .integer a, .float b => a.toFloat == b
  | .float a, .integer b => b.toFloat == a
  | .string a, .string b => a = b
  | .array a, .array b =>
    if a = b || path.contains (.arrays a b) then true
    else
      let as := h.items a
      let bs := h.items b
      as.size = bs.size &&
        (as.toList.zip bs.toList).all fun p => inner (.arrays a b :: path) p.1 p.2
  | .object a, .object b =>
    if a = b || path.contains (.objects a b) then true
    else
      let as := h.entries a
      let bs := h.entries b
      as.size = bs.size &&
        as.entries.all fun e =>
          match bs.get? e.1 with
          | some y => inner (.objects a b :: path) e.2 y
          | none => false
  | .inst a, .inst b => a = b
  | .klass a, .klass b => a = b
  | .function ⟨p, c, s, v, n⟩, .function ⟨p', c', s', v', n'⟩ =>
    Value.identical (.function ⟨p, c, s, v, n⟩) (.function ⟨p', c', s', v', n'⟩) ||
      (Function.alike ⟨p, c, s, v, n⟩ ⟨p', c', s', v', n'⟩ &&
        match v, v' with
        | some x, some y => h.equalBy inner path x y
        | none, none => true
        | _, _ => false)
  | .builtin a, .builtin b => a.ident = b.ident
  | _, _ => false

theorem equalBy_function (h : Heap) (inner : List CellPair → Value → Value → Bool)
    (path : List CellPair) (f g : Function) :
    h.equalBy inner path (.function f) (.function g) =
      ((Value.function f).identical (.function g) ||
        (f.alike g && f.boundAs g (h.equalBy inner path))) := by
  obtain ⟨p, c, s, _ | x, n⟩ := f <;> obtain ⟨p', c', s', _ | y, n'⟩ := g <;> rfl

theorem equalBy_function_other (h : Heap) (inner : List CellPair → Value → Value → Bool)
    (path : List CellPair) (f : Function) {r : Value} (hr : ∀ g, r ≠ .function g) :
    h.equalBy inner path (.function f) r = false := by
  obtain ⟨p, c, s, _ | x, n⟩ := f <;> cases r <;> first | rfl | exact absurd rfl (hr _)

/-- Compares two values while the pairs of `path` are being compared. What lies in two cells is
compared with a pair of cells more on the path, so `fuel` need only exceed the number of such
pairs. -/
def equalAlong (h : Heap) : (fuel : Nat) → List CellPair → Value → Value → Bool
  | 0, _, _, _ => false
  | fuel + 1, path, l, r => h.equalBy (h.equalAlong fuel) path l r

/-- A number above the number of pairs of cells that can be compared. -/
def pairBound (h : Heap) : Nat :=
  h.arrays.size * h.arrays.size + h.objects.size * h.objects.size + 1

/-- Whether two values are equal. -/
def equal (h : Heap) (l r : Value) : Bool := h.equalAlong h.pairBound [] l r

end Heap

end Scriptlet
