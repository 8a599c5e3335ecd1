import Scriptlet.Failure

/-!
# Built-in functions

The program around the language may give it functions of its own. The body of such a
function gets the arguments of a call and the services of the host: it looks at the
arguments, asks the host for one service after another, and goes on as the host
answers, until it has a result or fails. `Action` is the tree of what a body may do,
with a branch for each answer, so a `Primitive` is any such function at all, apart from
those that keep something between two calls, make or change a cell, or tell values
apart that look alike.

The functions that every program starts with are `print`, `readFile`, `writeFile` and
`typeOf`.
-/

namespace Scriptlet

/-! ## What a body sees -/

/-- What stands at a place of an unfolding, without what lies in it. -/
inductive Label where
  | undefined
  | null
  | boolean (b : Bool)
  | integer (n : Int64)
  | float (x : Float)
  | string (s : String)
  | array (size : Nat)
  | object (keys : List String)
  | inst (className : String)
  | function (name : String)
  | builtin (name : String)
  | klass (name : String)
  /-- An array or an object that is not shown. -/
  | ellipsis

namespace Label

/-- The name of the type of a value. -/
def typeName : Label → String
  | undefined => "undefined"
  | null => "null"
  | boolean _ => "boolean"
  | integer _ => "integer"
  | float _ => "float"
  | string _ => "string"
  | array _ => "array"
  | object _ => "object"
  | inst _ => "instance"
  | function _ | builtin _ => "function"
  | klass _ => "class"
  | ellipsis => "..."

/-- The name of the class of an instance, and for other values that of the type. -/
def ownerName : Label → String
  | inst className => className
  | l => l.typeName

end Label

/-- What the body of a built-in function sees of an argument. -/
structure Sight where
  /-- What it is, without what lies in it. -/
  label : Label
  /-- What stands at the end of each path into it, if it is an array or an object. -/
  unfolding : List Nat → Option Label
  /-- Its text, and whether a text that is the argument itself is quoted there. -/
  text : (quoted : Bool) → String

/-! ## What a body does -/

/-- A value that is no function and lies in no cell. -/
inductive Datum where
  | undefined
  | null
  | boolean (b : Bool)
  | integer (n : Int64)
  | float (x : Float)
  | string (s : String)

/-- What the result of a body is. -/
inductive Yield where
  | datum (d : Datum)
  /-- What lies at the end of a path into an argument. -/
  | part (argument : Nat) (path : List Nat)

/-- What the body of a built-in function does. -/
inductive Action where
  /-- Ends with a result. -/
  | give (result : Yield)
  /-- Fails with a message. -/
  | complain (message : String)
  /-- Fails as a service of the host does. -/
  | relay (error : HostError)
  /-- Prints a line. -/
  | print (line : String) (next : Except HostError Unit → Action)
  /-- Reads a whole file. -/
  | read (path : String) (next : Except HostError String → Action)
  /-- Creates or replaces a file. -/
  | write (path text : String) (next : Except HostError Unit → Action)
  /-- Asks for the evaluation to stop. -/
  | interrupt (next : Action)

namespace Action

/-- Goes on with what the host has granted; fails if it has refused. -/
def granted {α : Type} (next : α → Action) : Except HostError α → Action
  | .ok a => next a
  | .error e => relay e

end Action

/-- A function that the program around the language provides. -/
structure Primitive where
  /-- The name under which programs find it. -/
  name : String
  /-- How many arguments it takes; `none` if any number. -/
  arity : Option Nat
  /-- What it does with its arguments. Their number is checked where the function is called; a body
  that is run without that check complains about what it misses. -/
  body : List Sight → Action

namespace Primitive

/-- Goes on with the path that a function on files takes as its first argument. -/
def withPath (args : List Sight) (next : String → Action) : Action :=
  match args with
  | [] => .complain "missing path"
  | arg :: _ =>
    match arg.label with
    | .string path => next path
    | other => .complain ("path must be a string, got `" ++ other.typeName ++ "`")

/-- Prints its arguments as one line. -/
def print : Primitive where
  name := "print"
  arity := none
  body args :=
    .print (String.intercalate " " (args.map fun arg => arg.text false)) <|
      .granted fun _ => .give (.datum .undefined)

/-- Reads a whole file. -/
def readFile : Primitive where
  name := "readFile"
  arity := some 1
  body args := withPath args fun path =>
    .read path (.granted fun text => .give (.datum (.string text)))

/-- Creates or replaces a file. -/
def writeFile : Primitive where
  name := "writeFile"
  arity := some 2
  body args := withPath args fun path =>
    match args[1]? with
    | none => .complain "missing contents"
    | some contents =>
      .write path (contents.text false) (.granted fun _ => .give (.datum .undefined))

/-- Names the type of a value. -/
def typeOf : Primitive where
  name := "typeOf"
  arity := some 1
  body args :=
    match args with
    | [] => .complain "missing argument"
    | arg :: _ => .give (.datum (.string arg.label.ownerName))

end Primitive

end Scriptlet
