import Scriptlet.CommandLine.Console

/-!
# A whole run of the command line

`runIn` runs the program with its arguments and its input in a directory with
given files, and gives everything that can be seen of it from outside.
-/

namespace Scriptlet.CommandLine

/-- What can be seen of a run. -/
structure Seen where
  code : Nat
  output : String
  /-- The error output; `none` for the explanation of how to use the program. -/
  errors : Option String
  files : OrderedMap String

/-- What is printed for a request for the version. -/
def versionText : String := "wholf " ++ productVersion ++ "\n"

/-- What is printed for a request for help. -/
def helpText : String :=
  "Usage: wholf [OPTIONS] [COMMAND]\n\n" ++
  "Commands:\n" ++
  "  run <SCRIPT>   Execute a script file\n" ++
  "  eval <SOURCE>  Execute a text and print its value\n" ++
  "  repl           Execute line after line of the input\n\n" ++
  "Options:\n" ++
  "  --max-call-depth <N>         How many calls may be in progress\n" ++
  "  --trace                      Log every statement\n" ++
  "  --diagnostics <text|json>    How diagnostics are written\n" ++
  "  -h, --help                   Print help\n" ++
  "  -V, --version                Print version\n"

/-- What can be seen once a console has been used. -/
def Console.seen (c : Console) (code : Nat) : Seen :=
  ⟨code, c.session.host.output, some c.errors, c.session.host.files⟩

/-- What can be seen of a command that was carried out; one that ran out of fuel has failed. -/
def seenAfter (c : Console) : Except Unfinished (Nat × Console) → Seen
  | .ok (code, c) => c.seen code
  | .error _ => c.seen failed

/-- Runs the program in a directory. -/
def runIn (fuel : Nat) (args : List String) (files : OrderedMap String) (input : String) : Seen :=
  match readArguments args with
  | .misuse => ⟨misused, "", none, files⟩
  | .version => ⟨success, versionText, some "", files⟩
  | .help => ⟨success, helpText, some "", files⟩
  | .start o =>
    let c := Console.new ⟨"", .directory files⟩ o
    match o.command with
    | .eval source => seenAfter c (executeOnce fuel o.format true source c)
    | .interactive =>
      seenAfter c ((converse fuel o.format (c.print (banner ++ "\n")) (inputLines input)).map
        fun c => (success, c))
    | .run script =>
      match Directory.resolve files script false with
      | .error reason => { c with errors := unreadable script reason }.seen failed
      | .ok name =>
        seenAfter c (executeOnce fuel o.format false ((files.get? name).getD "") c)

end Scriptlet.CommandLine
