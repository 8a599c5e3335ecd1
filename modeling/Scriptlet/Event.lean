import Scriptlet.Position

/-!
# The log of an evaluation

Each step that may be of interest to someone who watches the interpreter is
logged as an event. An event is written as a level, a message and named fields.
-/

namespace Scriptlet

/-- Something that happened. -/
inductive Event where
  /-- The source text was scanned. -/
  | scanned (tokens : Nat)
  /-- The parser met a mistake and resumed after it. -/
  | mistakeMet (message : String)
  /-- The parser read a program without mistakes. -/
  | programRead (statements : Nat)
  /-- The source text has mistakes. -/
  | parseFailed (diagnostics : Nat)
  /-- The source text is a program. -/
  | parsed (statements : Nat)
  /-- The evaluation of a statement begins. -/
  | statement (kind : String) (position : Position)
  /-- A function was called, and the call is the `depth`-th in progress. -/
  | functionCalled (name : String) (depth : Nat)
  /-- A built-in function was called. -/
  | builtinCalled (name : String) (args : Nat)
  /-- The program failed. -/
  | evaluationFailed (message : String)
  deriving DecidableEq, Repr

namespace Event

/-- How much detail one must ask for to see the event. -/
def level : Event → String
  | scanned _ | parseFailed _ | parsed _ | evaluationFailed _ => "DEBUG"
  | mistakeMet _ | programRead _ | statement .. | functionCalled .. | builtinCalled .. => "TRACE"

/-- What happened, in words. -/
def message : Event → String
  | scanned _ => "scanned"
  | mistakeMet _ => "parse error, synchronizing"
  | programRead _ => "parsed program"
  | parseFailed _ => "parse failed"
  | parsed _ => "parsed"
  | statement .. => "statement"
  | functionCalled .. | builtinCalled .. => "call"
  | evaluationFailed _ => "evaluation failed"

/-- The details of the event. -/
def fields : Event → List (String × String)
  | scanned n => [("tokens", toString n)]
  | mistakeMet text => [("error", text)]
  | programRead n => [("statements", toString n)]
  | parseFailed n => [("diagnostics", toString n)]
  | parsed n => [("statements", toString n)]
  | statement kind p =>
    [("kind", kind), ("line", toString p.line), ("column", toString p.column)]
  | functionCalled name depth => [("function", name), ("depth", toString depth)]
  | builtinCalled name args => [("builtin", name), ("args", toString args)]
  | evaluationFailed text => [("error", text)]

end Event

end Scriptlet
