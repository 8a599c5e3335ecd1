import Scriptlet.CommandLine.Options
import Scriptlet.CommandLine.TypedLine
import Scriptlet.Session

/-!
# The console

A console is a session with what has been written to the error output; the normal
output is that of the session's host. One text is executed and its value printed
(`executeOnce`), or one line after another is read, executed and answered
(`converse`). Both stop at a request that the world outside has yet to answer.
-/

namespace Scriptlet.CommandLine

/-- What the program is called. -/
def productName : String := "Wholf"

/-- Which version it is. -/
def productVersion : String := "0.0.1"

/-- The first line of an interactive session. -/
def banner : String :=
  productName ++ " " ++ productVersion ++ " (:quit to exit, :reset to clear bindings)"

/-- What asks for the next line. -/
def prompt : String := ">> "

/-- A session and the error output. -/
structure Console where
  session : Session
  errors : String

namespace Console

/-- Writes a text to the normal output. -/
def print (c : Console) (text : String) : Console :=
  { c with session := { c.session with
      host := { c.session.host with output := c.session.host.output ++ text } } }

/-- Writes diagnostics to the error output. -/
def report (c : Console) (format : ReportFormat) (ds : List Diagnostic) : Console :=
  let text := match format with
    | .text => String.join (ds.map fun d => d.text ++ "\n")
    | .json => diagnosticsJson ds ++ "\n"
  { c with errors := c.errors ++ text }

end Console

/-- The exit code after success. -/
def success : Nat := 0

/-- The exit code after diagnostics. -/
def failed : Nat := 1

/-- The exit code after arguments that make no sense. -/
def misused : Nat := 2

/-- Executes a text, and prints its value if `printing`; gives the exit code. -/
def executeOnce (fuel : Nat) (format : ReportFormat) (printing : Bool) (source : String)
    (c : Console) : Except Unfinished (Nat × Console) :=
  let (outcome, s) := Session.execute fuel c.session source
  let c := { c with session := s }
  match outcome with
  | .value .undefined => .ok (success, c)
  | .value v => .ok (success, if printing then c.print (s.heap.display v ++ "\n") else c)
  | .diagnostics ds => .ok (failed, c.report format ds)
  | .unfinished why => .error why

/-- What follows a line of an interactive session. -/
inductive Turn where
  | quit
  | next (c : Console)
  | unfinished (why : Unfinished)

/-- Answers one line. -/
def respond (fuel : Nat) (format : ReportFormat) (c : Console) (line : String) : Turn :=
  let line := cleanLine line
  if line = "" then .next c
  else if line = ":quit" || line = ":exit" then .quit
  else if line = ":reset" then .next { c with session := c.session.reset }
  else
    let (outcome, s) := c.session.execute fuel line
    let c := { c with session := s }
    match outcome with
    | .value .undefined => .next c
    | .value v => .next (c.print (s.heap.inspect v ++ "\n"))
    | .diagnostics ds => .next (c.report format ds)
    | .unfinished why => .unfinished why

/-- Asks for line after line, and answers each, until the lines end or one says to quit. -/
def converse (fuel : Nat) (format : ReportFormat) :
    Console → List String → Except Unfinished Console
  | c, [] => .ok (c.print prompt)
  | c, line :: rest =>
    match respond fuel format (c.print prompt) line with
    | .quit => .ok (c.print prompt)
    | .next c => converse fuel format c rest
    | .unfinished why => .error why

/-- The lines of an input; the last one need not end. -/
def inputLines (input : String) : List String :=
  let lines := input.splitOn "\n"
  if lines.getLast? = some "" then lines.dropLast else lines

/-- What a script that cannot be read is answered with. -/
def unreadable (script reason : String) : String :=
  "Error: failed to read " ++ script ++ "\n\nCaused by:\n    " ++ reason ++ "\n"

/-- A console over a host. -/
def Console.new (host : Host) (o : Options) : Console :=
  ⟨Machine.new host ⟨o.callLimit, o.tracing⟩, ""⟩

end Scriptlet.CommandLine
