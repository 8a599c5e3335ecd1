import Scriptlet.Failure
import Scriptlet.Host.Directory

/-!
# The host of a program

The host takes the lines that a program prints, and serves its requests for
files. The files may live in memory, in one directory, or outside of the model: an
`external` storage holds what the world outside answers, in the order in which it is
asked, and so stands for any host at all. A request for a file that has no answer yet is
reported so that the evaluation can be repeated with one more; a line is taken unless
there is an answer that refuses it.
-/

namespace Scriptlet

/-- A request for a file. -/
inductive FileRequest where
  | read (path : String)
  | write (path text : String)
  deriving DecidableEq, Repr

/-- The file that a request is for. -/
def FileRequest.path : FileRequest → String
  | read path | write path _ => path

/-- What the world outside answers to a request: the text of the file, nothing for a write, or why
the request failed. -/
inductive FileAnswer where
  | text (text : String)
  | done
  | failed (error : HostError)
  deriving DecidableEq, Repr

/-- The outcome of a request. -/
inductive Reply (α : Type) where
  | granted (a : α)
  | refused (error : HostError)
  | pending (request : FileRequest)

/-- Where the files of a program are. -/
inductive Storage where
  /-- There are no files. -/
  | unavailable
  /-- Files kept by name. -/
  | memory (files : OrderedMap String)
  /-- The files of one directory, by their paths in it. -/
  | directory (files : OrderedMap String)
  /-- Files outside of the model, with an output that is outside as well: the answers that are still
  to be used for requests, and for each of the next lines why it is refused, if it is. -/
  | external (answers : List FileAnswer) (lines : List (Option HostError))

/-- What a program has printed, and where its files are. -/
structure Host where
  /-- Everything printed so far, a line feed behind each line. -/
  output : String
  storage : Storage

namespace Host

/-- A host with files in memory. -/
def inMemory (files : OrderedMap String) : Host := ⟨"", .memory files⟩

/-- A host without files. -/
def withoutStorage : Host := ⟨"", .unavailable⟩

/-- Adds a line to what was printed. -/
def writeLine (h : Host) (text : String) : Host := { h with output := h.output ++ text ++ "\n" }

/-- Forgets what was printed. -/
def clearOutput (h : Host) : Host := { h with output := "" }

/-- The files kept in memory or in the directory. -/
def files (h : Host) : OrderedMap String :=
  match h.storage with
  | .memory files | .directory files => files
  | .unavailable | .external .. => .empty

/-- The text of a file, if it is there. -/
def file? (h : Host) (path : String) : Option String := h.files.get? path

/-- Prints a line. -/
def print (h : Host) (text : String) : Reply Unit × Host :=
  match h.storage with
  | .external answers (some e :: lines) =>
    (.refused e, { h with storage := .external answers lines })
  | .external answers (none :: lines) =>
    (.granted (), { h with storage := .external answers lines }.writeLine text)
  | _ => (.granted (), h.writeLine text)

/-- Reads a file. -/
def fetch (h : Host) (path : String) : Reply String × Host :=
  match h.storage with
  | .unavailable => (.refused .storageUnavailable, h)
  | .memory files =>
    match files.get? path with
    | some text => (.granted text, h)
    | none => (.refused (.notFound path), h)
  | .directory files =>
    match Directory.resolve files path false with
    | .ok name => (.granted ((files.get? name).getD ""), h)
    | .error reason => (.refused (.system path reason), h)
  | .external [] _ => (.pending (.read path), h)
  | .external (answer :: rest) lines =>
    let h := { h with storage := .external rest lines }
    match answer with
    | .text text => (.granted text, h)
    | .done => (.granted "", h)
    | .failed e => (.refused e, h)

/-- Creates or replaces a file. -/
def save (h : Host) (path text : String) : Reply Unit × Host :=
  match h.storage with
  | .unavailable => (.refused .storageUnavailable, h)
  | .memory files => (.granted (), { h with storage := .memory (files.insert path text) })
  | .directory files =>
    match Directory.resolve files path true with
    | .ok name => (.granted (), { h with storage := .directory (files.insert name text) })
    | .error reason => (.refused (.system path reason), h)
  | .external [] _ => (.pending (.write path text), h)
  | .external (answer :: rest) lines =>
    let h := { h with storage := .external rest lines }
    match answer with
    | .text _ | .done => (.granted (), h)
    | .failed e => (.refused e, h)

end Host

end Scriptlet
