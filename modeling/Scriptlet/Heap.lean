import Scriptlet.Value

/-!
# The heap

The contents of all arrays, objects, instances and classes. Reading a cell that
does not exist gives an empty one, and writing to it does nothing; references
made by the heap itself always exist.
-/

namespace Scriptlet

/-- The contents of the shared cells. -/
structure Heap where
  arrays : Store .array (Array Value) := .empty
  objects : Store .object (OrderedMap Value) := .empty
  instances : Store .inst Instance := .empty
  classes : Store .klass Class := .empty

namespace Heap

/-- The heap without cells. -/
def empty : Heap := {}

/-- The items of an array. -/
def items (h : Heap) (r : Ref .array) : Array Value := (h.arrays.get? r).getD #[]

/-- The entries of an object. -/
def entries (h : Heap) (r : Ref .object) : OrderedMap Value := (h.objects.get? r).getD .empty

/-- An instance. -/
def inst (h : Heap) (r : Ref .inst) : Instance := (h.instances.get? r).getD default

/-- A class. -/
def klass (h : Heap) (r : Ref .klass) : Class := (h.classes.get? r).getD default

/-- The class of an instance. -/
def classOf (h : Heap) (r : Ref .inst) : Class := h.klass (h.inst r).klass

/-- Adds an array, and gives the value that refers to it. -/
def newArray (h : Heap) (items : Array Value) : Value × Heap :=
  (.array h.arrays.next, { h with arrays := h.arrays.alloc items })

/-- Adds an object, and gives the value that refers to it. -/
def newObject (h : Heap) (entries : OrderedMap Value) : Value × Heap :=
  (.object h.objects.next, { h with objects := h.objects.alloc entries })

/-- Adds an instance without fields, and gives its reference. -/
def newInstance (h : Heap) (c : Ref .klass) : Ref .inst × Heap :=
  (h.instances.next, { h with instances := h.instances.alloc ⟨c, .empty⟩ })

/-- Adds a class, and gives the value that refers to it. -/
def newClass (h : Heap) (c : Class) : Value × Heap :=
  (.klass h.classes.next, { h with classes := h.classes.alloc c })

/-- Changes the items of an array. -/
def modifyArray (h : Heap) (r : Ref .array) (f : Array Value → Array Value) : Heap :=
  { h with arrays := h.arrays.modify r f }

/-- Gives a key of an object a value. -/
def setEntry (h : Heap) (r : Ref .object) (key : String) (v : Value) : Heap :=
  { h with objects := h.objects.modify r fun m => m.insert key v }

/-- Gives a field of an instance a value. -/
def setField (h : Heap) (r : Ref .inst) (name : String) (v : Value) : Heap :=
  { h with instances := h.instances.modify r fun i => { i with fields := i.fields.insert name v } }

/-- The name of the class of an instance, and for other values that of the type. -/
def ownerName (h : Heap) : Value → String
  | .inst r => (h.classOf r).name
  | v => v.typeName

/-! ## Unfoldings

Arrays and objects may lie in each other in any way. The unfolding of a value is the tree of all
that is reached from it, by whatever cells. It is given by what stands at the end of each path, a
path being the places that are taken one after the other. -/

/-- What a value is, without what lies in it. -/
def label (h : Heap) : Value → Label
  | .undefined => .undefined
  | .null => .null
  | .boolean b => .boolean b
  | .integer n => .integer n
  | .float x => .float x
  | .string s => .string s
  | .array r => .array (h.items r).size
  | .object r => .object (h.entries r).keys
  | .inst r => .inst (h.classOf r).name
  | .function f => .function f.routine.name
  | .builtin b => .builtin b.primitive.name
  | .klass r => .klass (h.klass r).name

/-- What lies in a value, in order. -/
def parts (h : Heap) : Value → List Value
  | .array r => (h.items r).toList
  | .object r => (h.entries r).entries.map Prod.snd
  | _ => []

/-- The value at the end of a path. -/
def reached? (h : Heap) : List Nat → Value → Option Value
  | [], v => some v
  | i :: path, v => (h.parts v)[i]?.bind (h.reached? path)

/-- The unfolding of a value: what stands at the end of each path. -/
def unfolding (h : Heap) (v : Value) (path : List Nat) : Option Label :=
  (h.reached? path v).map h.label

end Heap

end Scriptlet
