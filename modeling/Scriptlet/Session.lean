import Scriptlet.Diagnostic
import Scriptlet.Eval
import Scriptlet.Syntax.Parse

/-!
# Sessions

A session executes one source text after another on one machine, so that what one
text binds is there for the next, also if it failed later on. `executeWith` is the
execution of a single text on a machine of its own.

The program around a session may bind built-in functions (`Session.install`), request a
stop before a text and from within a built-in function, and answer requests for files as
it likes. Cells are never given back, so there is no collector; a request to stop that
comes from another thread at some other moment is left out.
-/

namespace Scriptlet

/-- How the execution of a source text ends. -/
inductive Outcome where
  | value (v : Value)
  | diagnostics (ds : List Diagnostic)
  | unfinished (why : Unfinished)

/-- The message for a jump that nothing has taken. -/
def strayJump : String := "unexpected control flow"

namespace Stop

/-- The report of a program that stopped early. -/
def outcome : Stop → Outcome
  | .failure f => .diagnostics [.ofFailure f]
  | .signal _ => .diagnostics [⟨.runtime, strayJump, 0, 0⟩]
  | .unfinished why => .unfinished why

end Stop

namespace Machine

/-- Logs events. -/
def log (m : Machine) (events : List Event) : Machine :=
  { m with events := events.foldl Array.push m.events }

/-- Runs a program, and reports a failure. -/
def execute (fuel : Nat) (m : Machine) (p : Program) : Outcome × Machine :=
  match (runProgram fuel p).run m with
  | .ok v m => (.value v, m)
  | .error (.failure f) m =>
    ((Stop.failure f).outcome, m.log [.evaluationFailed f.message])
  | .error stop m => (stop.outcome, m)

/-- Scans, parses and runs a source text. -/
def executeSource (fuel : Nat) (m : Machine) (source : String) : Outcome × Machine :=
  let tokens := scan source
  let reading := Reading.ofTokens tokens
  let m := m.log (.scanned tokens.length :: reading.mistakes.map fun e => .mistakeMet e.message)
  match reading.result with
  | .error errors =>
    (.diagnostics (errors.map Diagnostic.ofSyntaxError), m.log [.parseFailed errors.length])
  | .ok p =>
    let n := p.statements.length
    (m.log [.programRead n, .parsed n]).execute fuel p

end Machine

/-- Executes a source text on a machine of its own. -/
def executeWith (fuel : Nat) (host : Host) (settings : Settings) (interrupted : Bool)
    (source : String) : Outcome × Machine :=
  { Machine.new host settings with interrupted := interrupted }.executeSource fuel source

/-- A machine that is kept from one source text to the next. -/
abbrev Session := Machine

namespace Primitive

/-- Asks for the evaluation to stop. -/
def interrupt : Primitive where
  name := "interrupt"
  arity := some 0
  body _ := .interrupt (.give (.datum (.integer 1)))

/-- Fails with the text of its argument. -/
def fail : Primitive where
  name := "fail"
  arity := some 1
  body args := .complain ((args.head?.map fun arg => arg.text false).getD "undefined")

/-- Counts its arguments. -/
def count : Primitive where
  name := "count"
  arity := none
  body args := .give (.datum (.integer (Int64.ofNat args.length)))

end Primitive

namespace Session

/-- Executes a source text. A request to stop that was meant for the text before is forgotten. -/
def execute (fuel : Nat) (s : Session) (source : String) : Outcome × Session :=
  { s with interrupted := false }.executeSource fuel source

/-- Forgets all bindings but the standard built-in functions. -/
def reset (s : Session) : Session :=
  { s with env := s.env.clear.loadPrelude }

/-- Asks the evaluation in progress, or the next call, to stop. -/
def interrupt (s : Session) : Session := { s with interrupted := true }

/-- Binds built-in functions of the program around the session. -/
def install (s : Session) (ps : List Primitive) : Session :=
  { s with env := ps.foldl Environment.install s.env }

/-- The built-in functions that the tests of the language add to a session. -/
def extraPrimitives : List Primitive := [.interrupt, .fail, .count]

/-- Binds the extra built-in functions. -/
def installExtras (s : Session) : Session := s.install extraPrimitives

/-- Calls a value as if by an expression at `p`. -/
def call (fuel : Nat) (s : Session) (callee : Value) (args : List Value) (p : Position) :
    EStateM.Result Stop Session Value :=
  Eval.located p (callValue fuel callee args) s

/-- Whether no call is in progress and the global scope is the current one. -/
def isClean (s : Session) : Bool := s.env.atGlobal && s.env.callDepth = 0

/-- Executes a source text with an environment and a host of its own, but over the cells of the
session, so that its value can be used there. The session itself goes on where it was. -/
def executeApart (fuel : Nat) (s : Session) (source : String) : Outcome × Session :=
  let inner : Machine :=
    { s with
      env := (s.env.clear.setLimit defaultCallLimit).loadPrelude
      host := .inMemory .empty
      interrupted := false
      settings := {} }
  let (outcome, after) := inner.executeSource fuel source
  (outcome,
    { s with
      heap := after.heap
      env := { s.env with scopes := after.env.scopes, numbered := after.env.numbered } })

end Session

end Scriptlet
