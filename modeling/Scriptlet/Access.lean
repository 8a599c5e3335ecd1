import Scriptlet.Failure
import Scriptlet.Heap
import Scriptlet.Number.Binary64

/-!
# Reading and writing parts of a value

An index is a position in an array or a text, or a key of an object; a member is
a field or a method of an instance, a key of an object, or a length. A write to
the position just behind the last item of an array appends to it.
-/

namespace Scriptlet

/-- The position that an index stands for: an integer, or a floating point number that is whole, cut
off at the ends of the integers. -/
def indexPosition? : Value → Option Int64
  | .integer n => some n
  | .float x => (Number.Binary64.ofFloat x).whole?.map Int64.ofIntClamp
  | _ => none

/-- The error for a value that cannot be indexed by `key`. -/
def cannotIndex (v key : Value) : Cause := .wrongType (.cannotIndex v.typeName key.typeName)

/-- The position in a container `v` with `length` parts that `key` stands for. -/
def positionIn (v key : Value) (length : Nat) : Except Cause Nat :=
  match indexPosition? key with
  | none => .error (cannotIndex v key)
  | some i =>
    if 0 ≤ i.toInt ∧ i.toInt < length then .ok i.toInt.toNat
    else .error (.indexOutOfBounds i length)

/-- A place in the heap that can be written to. -/
inductive Place where
  /-- An item of an array. -/
  | item (r : Ref .array) (i : Nat)
  /-- The place behind the last item of an array. -/
  | behind (r : Ref .array)
  /-- A key of an object. -/
  | entry (r : Ref .object) (key : String)
  /-- A field of an instance. -/
  | field (r : Ref .inst) (name : String)
  deriving DecidableEq, Repr

/-- The place that `v.name` names for a write. -/
def memberPlace (v : Value) (name : String) : Except Cause Place :=
  match v with
  | .inst r => .ok (.field r name)
  | .object r => .ok (.entry r name)
  | _ => .error (.wrongType (.cannotSetProperty name v.typeName))

namespace Heap

/-- Writes `x` to a place. -/
def write (h : Heap) (place : Place) (x : Value) : Heap :=
  match place with
  | .item r i => h.modifyArray r fun items => items.setIfInBounds i x
  | .behind r => h.modifyArray r fun items => items.push x
  | .entry r key => h.setEntry r key x
  | .field r name => h.setField r name x

/-- Reads `v[key]`. -/
def getIndex (h : Heap) (v key : Value) : Except Cause Value :=
  match v, key with
  | .array r, _ => do
    let items := h.items r
    let i ← positionIn v key items.size
    return items.getD i .undefined
  | .string s, _ => do
    let i ← positionIn v key s.length
    return .string (String.ofList ((s.toList.drop i).take 1))
  | .object r, .string name =>
    match (h.entries r).get? name with
    | some x => .ok x
    | none => .error (.undefinedField "object" name)
  | _, _ => .error (cannotIndex v key)

/-- The place that `v[key]` names for a write. -/
def indexPlace (h : Heap) (v key : Value) : Except Cause Place :=
  match v, key with
  | .array r, _ =>
    let length := (h.items r).size
    match indexPosition? key with
    | none => .error (cannotIndex v key)
    | some i =>
      if 0 ≤ i.toInt ∧ i.toInt < length then .ok (.item r i.toInt.toNat)
      else if i.toInt = length then .ok (.behind r)
      else .error (.indexOutOfBounds i length)
  | .object r, .string name => .ok (.entry r name)
  | _, _ => .error (.wrongType (.cannotAssignIndexed v.typeName key.typeName))

/-- Writes `x` to `v[key]`. -/
def setIndex (h : Heap) (v key x : Value) : Except Cause Heap :=
  (h.indexPlace v key).map fun place => h.write place x

/-- Reads `v.name`. -/
def getMember (h : Heap) (v : Value) (name : String) : Except Cause Value :=
  let found : Option Value :=
    match v with
    | .inst r =>
      ((h.inst r).fields.get? name).or (((h.classOf r).method? name v).map Value.function)
    | .object r => (h.entries r).get? name
    | .array r =>
      if name = "length" then some (.integer (Int64.ofNat (h.items r).size)) else none
    | .string s => if name = "length" then some (.integer (Int64.ofNat s.length)) else none
    | _ => none
  match found with
  | some x => .ok x
  | none => .error (.undefinedField (h.ownerName v) name)

/-- Writes `x` to `v.name`. -/
def setMember (h : Heap) (v : Value) (name : String) (x : Value) : Except Cause Heap :=
  (memberPlace v name).map fun place => h.write place x

/-- What a `foreach` loop over the value visits: the items of an array, the characters of a text,
the keys of an object. -/
def loopItems (h : Heap) (v : Value) : Except Cause (List Value) :=
  match v with
  | .array r => .ok (h.items r).toList
  | .string s => .ok (s.toList.map fun c => .string (String.ofList [c]))
  | .object r => .ok ((h.entries r).keys.map Value.string)
  | _ => .error (.wrongType (.cannotIterate v.typeName))

end Heap

end Scriptlet
