import Scriptlet.Environment
import Scriptlet.Number.Integer

/-!
# Command line options

The arguments name a command (`run` a script, `eval` a text, or `repl`, which is
also the command if none is named), and set options before or after it. The value
of an option is the next argument, or stands behind an equals sign. After `--`
nothing is an option. An option set behind the command wins over the same option
before it; setting one twice in one place is an error.
-/

namespace Scriptlet.CommandLine

/-- What to do. -/
inductive Command where
  /-- Execute the text of a file. -/
  | run (script : String)
  /-- Execute a text, and print its value. -/
  | eval (source : String)
  /-- Execute line after line of the input. -/
  | interactive
  deriving DecidableEq, Repr

/-- How diagnostics are written. -/
inductive ReportFormat where
  | text
  | json
  deriving DecidableEq, Repr

/-- What to do, and how. -/
structure Options where
  command : Command
  callLimit : Nat
  tracing : Bool
  format : ReportFormat
  deriving DecidableEq, Repr

/-- What the arguments ask for. -/
inductive Invocation where
  | start (options : Options)
  | version
  | help
  /-- The arguments make no sense. -/
  | misuse
  deriving DecidableEq, Repr

/-- The options set in one place. -/
structure Given where
  callLimit : Option Nat := none
  tracing : Bool := false
  format : Option ReportFormat := none
  deriving DecidableEq, Repr

/-- What has been read of the arguments. -/
structure Progress where
  /-- The options before the command. -/
  outer : Given := {}
  /-- The options behind the command. -/
  inner : Given := {}
  /-- The name of the command. -/
  command : Option String := none
  /-- What the command works on. -/
  operand : Option String := none
  deriving DecidableEq, Repr

/-- Reads a count: an optional plus sign and digits, below 2⁶⁴. -/
def readCount? (s : String) : Option Nat :=
  let digits := match s.toList with
    | '+' :: cs => cs
    | cs => cs
  if digits.isEmpty || !digits.all Char.isDigit then none
  else
    let n := Number.digitsValue digits
    if n < 18446744073709551616 then some n else none

/-- Reads the name of a format. -/
def readFormat? (s : String) : Option ReportFormat :=
  if s = "text" then some .text else if s = "json" then some .json else none

/-- A reading of arguments, which may find out early what they ask for. -/
abbrev Reader := Except Invocation

namespace Progress

/-- Changes the options of the place that is being read. -/
def given (p : Progress) (f : Given → Reader Given) : Reader Progress := do
  if p.command.isNone then return { p with outer := ← f p.outer }
  else return { p with inner := ← f p.inner }

/-- Turns on tracing. -/
def setTracing (p : Progress) : Reader Progress :=
  p.given fun g => if g.tracing then .error .misuse else .ok { g with tracing := true }

/-- Sets an option that has a value. -/
def setValue (p : Progress) (name value : String) : Reader Progress :=
  p.given fun g =>
    if name = "max-call-depth" then
      match g.callLimit, readCount? value with
      | none, some n => .ok { g with callLimit := some n }
      | _, _ => .error .misuse
    else
      match g.format, readFormat? value with
      | none, some f => .ok { g with format := some f }
      | _, _ => .error .misuse

/-- Takes an argument that is no option: the name of the command, then what it works on. -/
def takeWord (p : Progress) (word : String) : Reader Progress :=
  match p.command with
  | none =>
    if word = "run" || word = "eval" || word = "repl" then .ok { p with command := some word }
    else if word = "help" then .error .help
    else .error .misuse
  | some command =>
    if command = "repl" || p.operand.isSome then .error .misuse
    else .ok { p with operand := some word }

/-- Takes an argument behind `--`, where the command must have been named. -/
def takeOperand (p : Progress) (word : String) : Reader Progress :=
  if p.command.isNone then .error .misuse else p.takeWord word

/-- What the arguments ask for once all are read. -/
def finish (p : Progress) : Invocation :=
  let start (command : Command) : Invocation := .start
    { command := command
      callLimit := (p.inner.callLimit.or p.outer.callLimit).getD defaultCallLimit
      tracing := p.outer.tracing || p.inner.tracing
      format := (p.inner.format.or p.outer.format).getD .text }
  match p.command, p.operand with
  | none, _ => start .interactive
  | some "repl", _ => start .interactive
  | some "run", some script => start (.run script)
  | some "eval", some source => start (.eval source)
  | some _, _ => .misuse

end Progress

/-- Whether an argument is an option rather than a value. -/
def looksLikeOption (arg : String) : Bool :=
  arg.startsWith "-" && arg ≠ "-"

/-- A long option split into its name and the value behind an equals sign. -/
def splitOption (arg : String) : String × Option String :=
  let cs := arg.toList.drop 2
  let name := String.ofList (cs.takeWhile (· ≠ '='))
  match cs.dropWhile (· ≠ '=') with
  | _ :: value => (name, some (String.ofList value))
  | [] => (name, none)

/-- Takes an option of one letter, or several such written as one. -/
def takeLetters (p : Progress) (arg : String) : Invocation :=
  match arg.toList with
  | _ :: 'h' :: _ => .help
  | _ :: 'V' :: _ => if p.command.isNone then .version else .misuse
  | _ => .misuse

/-- Takes a long option without a value of its own. -/
def takeFlag (p : Progress) (name : String) : Reader Progress :=
  if name = "trace" then p.setTracing
  else if name = "help" then .error .help
  else if name = "version" && p.command.isNone then .error .version
  else .error .misuse

/-- Whether the option has a value. -/
def hasValue (name : String) : Bool := name = "max-call-depth" || name = "diagnostics"

/-- Reads the arguments that follow those in `p`. -/
def readFrom (p : Progress) : List String → Reader Progress
  | [] => .ok p
  | [arg] =>
    if arg = "--" then .ok p
    else if arg.startsWith "--" then
      match splitOption arg with
      | (name, some value) => if hasValue name then p.setValue name value else .error .misuse
      | (name, none) => if hasValue name then .error .misuse else takeFlag p name
    else if looksLikeOption arg then .error (takeLetters p arg)
    else p.takeWord arg
  | arg :: next :: rest =>
    if arg = "--" then (next :: rest).foldlM Progress.takeOperand p
    else if arg.startsWith "--" then
      match splitOption arg with
      | (name, some value) =>
        if hasValue name then do readFrom (← p.setValue name value) (next :: rest)
        else .error .misuse
      | (name, none) =>
        if hasValue name then
          if looksLikeOption next then .error .misuse
          else do readFrom (← p.setValue name next) rest
        else do readFrom (← takeFlag p name) (next :: rest)
    else if looksLikeOption arg then .error (takeLetters p arg)
    else do readFrom (← p.takeWord arg) (next :: rest)

/-- What the arguments ask for. -/
def readArguments (args : List String) : Invocation :=
  match readFrom {} args with
  | .ok p => p.finish
  | .error early => early

end Scriptlet.CommandLine
