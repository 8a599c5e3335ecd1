import Scriptlet.Failure
import Scriptlet.Value

/-!
# Environments

A scope binds names, in the order of their definition, and lies in the scope it
was made in. The environment keeps all scopes, since functions hold on to the ones
they were made in, and says which is the global one and which is the current one.
A name is looked up along the chain of scopes from the current one outward. The
environment also counts the calls in progress, and limits them.
-/

namespace Scriptlet

/-- A bound value, and whether it may be replaced. -/
structure Binding where
  value : Value
  mode : Mode

/-- The names bound in one place. -/
structure Scope where
  bindings : OrderedMap Binding
  /-- The scope in which this one lies. -/
  parent : Option (Ref .scope)

namespace Scope

/-- Binds a name, in its old place if it was bound in the scope already. -/
def define (s : Scope) (name : String) (value : Value) (mode : Mode) : Scope :=
  { s with bindings := s.bindings.insert name ⟨value, mode⟩ }

end Scope

/-- How many calls may be in progress unless another limit is given. -/
def defaultCallLimit : Nat := 1000

/-- All scopes, the current place among them, and the calls in progress. -/
structure Environment where
  scopes : Store .scope Scope
  globals : Ref .scope
  current : Ref .scope
  callDepth : Nat
  callLimit : Nat
  /-- How many programs and built-in functions have been numbered. -/
  numbered : Nat

namespace Environment

/-- An environment with an empty global scope. -/
def new (limit : Nat) : Environment :=
  { scopes := Store.empty.alloc ⟨.empty, none⟩
    globals := ⟨0⟩
    current := ⟨0⟩
    callDepth := 0
    callLimit := limit
    numbered := 0 }

/-- The bindings of a scope. -/
def bindings (e : Environment) (r : Ref .scope) : OrderedMap Binding :=
  ((e.scopes.get? r).map Scope.bindings).getD .empty

/-- The scope in which a scope lies. -/
def parent? (e : Environment) (r : Ref .scope) : Option (Ref .scope) :=
  (e.scopes.get? r).bind Scope.parent

/-- The first `fuel` scopes from `r` outward. -/
def chainWithin (e : Environment) : (fuel : Nat) → Ref .scope → List (Ref .scope)
  | 0, _ => []
  | fuel + 1, r =>
    match e.parent? r with
    | some p => r :: e.chainWithin fuel p
    | none => [r]

/-- The scopes from `r` outward. A scope lies in an older one, so there are at most as many as there
are scopes. -/
def chain (e : Environment) (r : Ref .scope) : List (Ref .scope) :=
  e.chainWithin e.scopes.size r

/-- The first binding of `name` among the `fuel` scopes from `r` outward, with its scope. -/
def findWithin (e : Environment) (name : String) :
    (fuel : Nat) → Ref .scope → Option (Ref .scope × Binding)
  | 0, _ => none
  | fuel + 1, r =>
    match (e.bindings r).get? name with
    | some b => some (r, b)
    | none =>
      match e.parent? r with
      | some p => e.findWithin name fuel p
      | none => none

/-- The innermost binding of `name` as seen from the scope `r`, with its scope. -/
def find? (e : Environment) (r : Ref .scope) (name : String) : Option (Ref .scope × Binding) :=
  e.findWithin name e.scopes.size r

/-- The value of `name` as seen from the scope `r`. -/
def lookupFrom? (e : Environment) (r : Ref .scope) (name : String) : Option Value :=
  (e.find? r name).map fun found => found.2.value

/-- The value of `name` as seen from the current scope. -/
def lookup? (e : Environment) (name : String) : Option Value := e.lookupFrom? e.current name

/-- Binds a name in the scope `r`. -/
def defineIn (e : Environment) (r : Ref .scope) (name : String) (v : Value) (mode : Mode) :
    Environment :=
  { e with scopes := e.scopes.modify r fun s => s.define name v mode }

/-- Binds a name in the current scope. -/
def define (e : Environment) (name : String) (v : Value) (mode : Mode) : Environment :=
  e.defineIn e.current name v mode

/-- Binds a name in the global scope; it may be replaced. -/
def defineGlobal (e : Environment) (name : String) (v : Value) : Environment :=
  e.defineIn e.globals name v .mutable

/-- The scope whose binding an assignment to `name` from the scope `r` replaces. -/
def assignable (e : Environment) (r : Ref .scope) (name : String) : Except Cause (Ref .scope) :=
  match e.find? r name with
  | none => .error (.undefinedVariable name)
  | some (_, ⟨_, .constant⟩) => .error (.immutableBinding name)
  | some (owner, ⟨_, .mutable⟩) => .ok owner

/-- Replaces the innermost binding of `name` as seen from the scope `r`. -/
def assignFrom (e : Environment) (r : Ref .scope) (name : String) (v : Value) :
    Except Cause Environment :=
  (e.assignable r name).map fun owner => e.defineIn owner name v .mutable

/-- Replaces the innermost binding of `name` as seen from the current scope. -/
def assign (e : Environment) (name : String) (v : Value) : Except Cause Environment :=
  e.assignFrom e.current name v

/-- The names bound in the scope `r`, in the order of their definition. -/
def names (e : Environment) (r : Ref .scope) : List String := (e.bindings r).keys

/-- The global names, in the order of their definition. -/
def globalNames (e : Environment) : List String := e.names e.globals

/-- Adds an empty scope, and gives its reference. -/
def newScope (e : Environment) (parent : Option (Ref .scope)) : Ref .scope × Environment :=
  (e.scopes.next, { e with scopes := e.scopes.alloc ⟨.empty, parent⟩ })

/-- Makes `r` the current scope. -/
def enter (e : Environment) (r : Ref .scope) : Environment := { e with current := r }

/-- Enters a new scope within the current one. -/
def push (e : Environment) : Environment :=
  let (r, e) := e.newScope (some e.current)
  e.enter r

/-- Whether the current scope is the global one. -/
def atGlobal (e : Environment) : Bool := e.current = e.globals

/-- Leaves the current scope for the one it lies in. The global scope is never left. -/
def pop (e : Environment) : Environment :=
  if e.atGlobal then e
  else
    match e.parent? e.current with
    | some p => e.enter p
    | none => e

/-- The number of scopes from the current one outward. -/
def depth (e : Environment) : Nat := (e.chain e.current).length

/-- Begins a call, unless as many are in progress as the limit allows. -/
def enterCall (e : Environment) : Except Cause Environment :=
  if e.callLimit ≤ e.callDepth then .error (.stackOverflow (e.callDepth + 1) e.callLimit)
  else .ok { e with callDepth := e.callDepth + 1 }

/-- Ends a call. -/
def exitCall (e : Environment) : Environment := { e with callDepth := e.callDepth - 1 }

/-- Sets how many calls may be in progress. -/
def setLimit (e : Environment) (limit : Nat) : Environment := { e with callLimit := limit }

/-- Starts over with an empty global scope and no call in progress. The limit stays. -/
def clear (e : Environment) : Environment :=
  let (r, e) := e.newScope none
  { e with globals := r, current := r, callDepth := 0 }

/-- Takes a number that nothing else has. -/
def takeNumber (e : Environment) : Nat × Environment :=
  (e.numbered, { e with numbered := e.numbered + 1 })

/-- Binds a new built-in function in the global scope under its name. -/
def install (e : Environment) (p : Primitive) : Environment :=
  let (n, e) := e.takeNumber
  e.defineGlobal p.name (.builtin ⟨p, n⟩)

/-- The built-in functions that every program starts with. -/
def standardPrimitives : List Primitive := [.print, .readFile, .writeFile, .typeOf]

/-- Binds the standard built-in functions. -/
def loadPrelude (e : Environment) : Environment := standardPrimitives.foldl install e

/-- An environment with the standard built-in functions. -/
def withPrelude (limit : Nat) : Environment := (new limit).loadPrelude

end Environment

end Scriptlet
