import Scriptlet.OrderedMap
import Scriptlet.Primitive
import Scriptlet.Store
import Scriptlet.Syntax

/-!
# Values

Numbers, texts and truth values are held in a value itself. Arrays, objects,
instances and classes are shared cells, and a value holds a reference to one. A
function holds its routine, the program that the routine is part of, the scope it was
made in, and the value that it is bound to, if there is one: a method read off an
instance is bound to the instance, and a program around the language may bind a method
to any value.
-/

namespace Scriptlet

/-- A built-in function. Each time one is installed it gets a number of its own. -/
structure Builtin where
  primitive : Primitive
  ident : Nat

mutual

/-- A function: a routine together with the scope it was made in. -/
structure Function where
  /-- The number of the program that the routine is part of. -/
  program : Nat
  routine : Routine
  scope : Ref .scope
  /-- What `this` stands for in a method. -/
  receiver : Option Value
  /-- Tells functions apart that agree in all else and were made one by one. Functions that programs
  make all have the mark 0: nothing in the language tells two of them apart that agree in all
  else. -/
  mark : Nat

/-- A value. -/
inductive Value where
  | undefined
  | null
  | boolean (b : Bool)
  | integer (n : Int64)
  | float (x : Float)
  | string (s : String)
  | array (r : Ref .array)
  | object (r : Ref .object)
  | inst (r : Ref .inst)
  | function (f : Function)
  | builtin (b : Builtin)
  | klass (r : Ref .klass)

end

instance : Inhabited Value := ⟨.undefined⟩

/-- What holds of a function whenever it holds of the value that the function is bound to, and holds
of all other values, holds of every value. -/
@[elab_as_elim]
theorem Value.inductionOnReceiver {motive : Value → Prop}
    (function : ∀ f : Function, (∀ v, f.receiver = some v → motive v) → motive (.function f))
    (other : ∀ v, (∀ f, v ≠ .function f) → motive v) : ∀ v, motive v
  | .function ⟨_, _, _, none, _⟩ => function _ nofun
  | .function ⟨_, _, _, some v, _⟩ => function _ fun _ hw =>
    Option.some.inj hw ▸ inductionOnReceiver function other v
  | .undefined | .null | .boolean _ | .integer _ | .float _ | .string _ | .array _ | .object _
  | .inst _ | .builtin _ | .klass _ => other _ nofun

/-- The value that a datum is. -/
def Datum.value : Datum → Value
  | undefined => .undefined
  | null => .null
  | boolean b => .boolean b
  | integer n => .integer n
  | float x => .float x
  | string s => .string s

namespace Value

/-- The name of the value's type. -/
def typeName : Value → String
  | undefined => "undefined"
  | null => "null"
  | boolean _ => "boolean"
  | integer _ => "integer"
  | float _ => "float"
  | string _ => "string"
  | array _ => "array"
  | object _ => "object"
  | inst _ => "instance"
  | function _ | builtin _ => "function"
  | klass _ => "class"

/-- Whether the value counts as true. -/
def truthy : Value → Bool
  | undefined | null => false
  | boolean b => b
  | integer n => n ≠ 0
  | float x => x != 0.0 && !x.isNaN
  | string s => s ≠ ""
  | _ => true

/-- Whether the value is a number. -/
def isNumber : Value → Bool
  | integer _ | float _ => true
  | _ => false

/-- Whether the value can be called. -/
def isCallable : Value → Bool
  | function _ | builtin _ | klass _ => true
  | _ => false

/-- The value as an integer, if it is one. -/
def toInteger? : Value → Option Int64
  | integer n => some n
  | _ => none

/-- A number as a floating point number, the nearest one for an integer. -/
def toFloat? : Value → Option Float
  | integer n => some n.toFloat
  | float x => some x
  | _ => none

/-- The value as a text, if it is one. -/
def toText? : Value → Option String
  | string s => some s
  | _ => none

/-- Both values as floating point numbers, if both are numbers. -/
def floatPair? (l r : Value) : Option (Float × Float) :=
  match l.toFloat?, r.toFloat? with
  | some a, some b => some (a, b)
  | _, _ => none

end Value

/-- An instance: its class, and its fields in the order of their first assignment. -/
structure Instance where
  klass : Ref .klass
  fields : OrderedMap Value

/-- A class: its methods in the order of their declaration, and the scope it was declared in. -/
structure Class where
  name : String
  /-- The number of the program that the class is part of. -/
  program : Nat
  methods : OrderedMap Routine
  scope : Ref .scope

instance : Inhabited Instance := ⟨⟨⟨0⟩, .empty⟩⟩

instance : Inhabited Class := ⟨⟨"", 0, .empty, ⟨0⟩⟩⟩

/-- The method that a new instance is passed to. -/
def constructorName : String := "constructor"

namespace Class

/-- The number of arguments that making an instance takes. -/
def arity (c : Class) : Nat :=
  ((c.methods.get? constructorName).map fun r => r.params.length).getD 0

/-- A method of the class, bound to a value. -/
def method? (c : Class) (name : String) (receiver : Value) : Option Function :=
  (c.methods.get? name).map fun r => ⟨c.program, r, c.scope, some receiver, 0⟩

end Class

end Scriptlet
