import Scriptlet.Heap
import Scriptlet.Number.Shortest
import Scriptlet.Text.Quoted

/-!
# The text of a value

`display` is how a value is printed, and `inspect` how the interactive loop shows
it; they differ only in that `inspect` also quotes a text that is the value
itself. Arrays and objects may contain themselves, so only `displayLevels` levels
of them are shown, and an ellipsis stands for anything below.
-/

namespace Scriptlet

/-- How many arrays and objects inside each other are shown. -/
def displayLevels : Nat := 32

/-- The text of a truth value. -/
def boolText (b : Bool) : String := if b then "true" else "false"

namespace Heap

/-- The text of a value with at most `levels` levels of arrays and objects; texts are quoted. -/
def render (h : Heap) : (levels : Nat) → Value → String
  | _, .undefined => "undefined"
  | _, .null => "null"
  | _, .boolean b => boolText b
  | _, .integer n => toString n.toInt
  | _, .float x => Number.floatText x
  | _, .string s => Text.quoted s
  | 0, .array _ => "..."
  | 0, .object _ => "..."
  | levels + 1, .array r =>
    "[" ++ String.intercalate ", " ((h.items r).toList.map fun v => h.render levels v) ++ "]"
  | levels + 1, .object r =>
    match (h.entries r).entries with
    | [] => "\x7b\x7d"
    | es => "\x7b " ++
      String.intercalate ", " (es.map fun e => e.1 ++ ": " ++ h.render levels e.2) ++ " \x7d"
  | _, .inst r => "<" ++ (h.classOf r).name ++ " instance>"
  | _, .function f => "<function " ++ f.routine.name ++ ">"
  | _, .builtin b => "<builtin " ++ b.primitive.name ++ ">"
  | _, .klass r => "<class " ++ (h.klass r).name ++ ">"

/-- The text of a value with every text in it quoted. -/
def inspect (h : Heap) (v : Value) : String := h.render displayLevels v

/-- The text of a value as it is printed. -/
def display (h : Heap) : Value → String
  | .string s => s
  | v => h.inspect v

end Heap

end Scriptlet
