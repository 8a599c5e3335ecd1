import Scriptlet.CommandLine.Run

/-!
# The program

Reads the arguments, and runs the command on the real input, output and files. A
request for a file is carried out when the evaluation asks for it; the evaluation is
then repeated with the answer known, which gives the same result up to that point.
-/

namespace Scriptlet.CommandLine

/-- A bound that no evaluation in practice uses up. -/
def ampleFuel : Nat := 1000000000000000000

/-- Why the operating system refused a request. -/
def systemReason : IO.Error → String
  | .noFileOrDirectory .. => Directory.noSuchFile
  | .permissionDenied _ code _ => "Permission denied (os error " ++ toString code ++ ")"
  | .inappropriateType _ code details => details ++ " (os error " ++ toString code ++ ")"
  | e => toString e

/-- Carries out a request for a file. -/
def serve (request : FileRequest) : IO FileAnswer := do
  try
    match request with
    | .read path => return .text (← IO.FS.readFile path)
    | .write path text =>
      IO.FS.writeFile path text
      return .done
  catch e => return .failed (.system request.path (systemReason e))

/-- Carries out `act`, and every request for a file that it makes. -/
partial def attempt {α : Type} (c : Console) (answers : List FileAnswer)
    (act : Console → Except Unfinished α) : IO (Option α) := do
  let host := { c.session.host with storage := .external answers [] }
  match act { c with session := { c.session with host := host } } with
  | .ok a => return some a
  | .error (.awaiting request) => attempt c (answers ++ [← serve request]) act
  | .error .outOfFuel => return none

/-- Shows what a console has written, and forgets it. -/
def flush (c : Console) : IO Console := do
  let out ← IO.getStdout
  out.putStr c.session.host.output
  out.flush
  if c.session.settings.tracing then
    for e in c.session.events do
      let fields := e.fields.map fun f => " " ++ f.1 ++ "=" ++ f.2
      IO.eprintln (e.level ++ " " ++ e.message ++ String.join fields)
  IO.eprint c.errors
  return { c with
    errors := ""
    session := { c.session with host := c.session.host.clearOutput, events := #[] } }

/-- Answers line after line of the input. -/
partial def interact (format : ReportFormat) (c : Console) : IO Unit := do
  let c ← flush (c.print prompt)
  let line ← (← IO.getStdin).getLine
  if line.isEmpty then return
  let turn ← attempt c [] fun c =>
    match respond ampleFuel format c line with
    | .quit => .ok none
    | .next c => .ok (some c)
    | .unfinished why => .error why
  match turn with
  | some (some c) => interact format c
  | _ => return

/-- Executes a text, and shows what it has written. -/
def once (format : ReportFormat) (printing : Bool) (source : String) (c : Console) :
    IO UInt32 := do
  match ← attempt c [] (executeOnce ampleFuel format printing source) with
  | some (code, c) =>
    let _ ← flush c
    return UInt32.ofNat code
  | none => return UInt32.ofNat failed

end Scriptlet.CommandLine

open Scriptlet Scriptlet.CommandLine

/-- Runs the program. -/
def main (args : List String) : IO UInt32 := do
  match readArguments args with
  | .misuse =>
    IO.eprint helpText
    return UInt32.ofNat misused
  | .version =>
    IO.print versionText
    return 0
  | .help =>
    IO.print helpText
    return 0
  | .start o =>
    let c := Console.new ⟨"", .external [] []⟩ o
    match o.command with
    | .eval source => once o.format true source c
    | .interactive =>
      interact o.format (c.print (banner ++ "\n"))
      return 0
    | .run script =>
      match ← serve (.read script) with
      | .text source => once o.format false source c
      | .failed e =>
        IO.eprint (unreadable script e.reason)
        return UInt32.ofNat failed
      | .done => return UInt32.ofNat failed
