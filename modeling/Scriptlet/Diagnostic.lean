import Scriptlet.Failure
import Scriptlet.Syntax.Error
import Scriptlet.Text.Json

/-!
# Diagnostics

A mistake in a source text or a failure of a program as it is reported to the
user: on one line of text, or as a JSON object.
-/

namespace Scriptlet

/-- Which stage found the error. -/
inductive Stage where
  | lex
  | parse
  | runtime
  deriving DecidableEq, Repr

/-- The stage in one word. -/
def Stage.text : Stage → String
  | lex => "lex"
  | parse => "parse"
  | runtime => "runtime"

/-- A reported error. Line and column are 0 if the position is unknown. -/
structure Diagnostic where
  stage : Stage
  message : String
  line : Nat
  column : Nat
  deriving DecidableEq, Repr

namespace Diagnostic

/-- How grave the report is: so far, everything reported is an error. -/
def severity : String := "error"

/-- The report of a mistake in a source text. -/
def ofSyntaxError (e : SyntaxError) : Diagnostic :=
  let stage := match e with
    | .lexical .. => Stage.lex
    | .parse _ => Stage.parse
  ⟨stage, e.message, e.position.line, e.position.column⟩

/-- The report of a failure. -/
def ofFailure (f : Failure) : Diagnostic :=
  match f.position with
  | some p => ⟨.runtime, f.message, p.line, p.column⟩
  | none => ⟨.runtime, f.message, 0, 0⟩

/-- The report on one line. -/
def text (d : Diagnostic) : String :=
  let error := d.stage.text ++ " error: " ++ d.message
  if d.line = 0 then error
  else "[line " ++ toString d.line ++ ", column " ++ toString d.column ++ "] " ++ error

/-- The report as a JSON object. -/
def json (d : Diagnostic) : String :=
  "\x7b\"severity\":" ++ Text.json severity ++ ",\"kind\":" ++ Text.json d.stage.text ++
    ",\"message\":" ++ Text.json d.message ++ ",\"line\":" ++ toString d.line ++
    ",\"column\":" ++ toString d.column ++ "\x7d"

end Diagnostic

/-- Reports as one JSON array. -/
def diagnosticsJson (ds : List Diagnostic) : String :=
  "[" ++ String.intercalate "," (ds.map Diagnostic.json) ++ "]"

end Scriptlet
