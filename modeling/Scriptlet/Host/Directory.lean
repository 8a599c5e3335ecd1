import Scriptlet.OrderedMap

/-!
# Paths in one directory

The files of a directory are kept by their paths in it, with a slash between the
parts. A path is followed from the directory part by part; what goes wrong on the
way is explained as the operating system would. The directory knows nothing
outside of itself, so a path that leads out of it leads nowhere.
-/

namespace Scriptlet.Directory

/-- The explanation for a path that leads nowhere. -/
def noSuchFile : String := "No such file or directory (os error 2)"

/-- The explanation for a path that goes on behind a file. -/
def notADirectory : String := "Not a directory (os error 20)"

/-- The explanation for a path that leads to a directory. -/
def isADirectory : String := "Is a directory (os error 21)"

/-- The explanation for a path with a part of more than 255 bytes. -/
def nameTooLong : String := "File name too long (os error 36)"

/-- The explanation for a path that no file can have. -/
def nulInName : String := "file name contained an unexpected NUL byte"

/-- The parts of a path between slashes, without the empty ones and those that stay in place. -/
def parts (path : String) : List String :=
  (path.splitOn "/").filter fun part => part ≠ "" && part ≠ "."

/-- Whether some file lies below the directory with the given parts. -/
def isDirectory (files : OrderedMap String) (place : List String) : Bool :=
  place.isEmpty || files.keys.any fun name => place.isPrefixOf (parts name) && parts name ≠ place

/-- Walks from the directory `place` along the parts of a path; gives the parts of the place reached,
whose last part need not exist. -/
def walk (files : OrderedMap String) : List String → List String → Except String (List String)
  | place, [] => .ok place
  | place, part :: rest =>
    if part.utf8ByteSize > 255 then .error nameTooLong
    else if part = ".." then
      if place.isEmpty then .error noSuchFile else walk files place.dropLast rest
    else
      let next := place ++ [part]
      if rest.isEmpty || isDirectory files next then walk files next rest
      else if files.contains (String.intercalate "/" next) then .error notADirectory
      else .error noSuchFile

/-- The name of the file that a path leads to; `creating` says whether it may be missing. -/
def resolve (files : OrderedMap String) (path : String) (creating : Bool) : Except String String :=
  if path.toList.contains '\x00' then .error nulInName
  else if path = "" || path.startsWith "/" then .error noSuchFile
  else do
    let place ← walk files [] (parts path)
    let name := String.intercalate "/" place
    if isDirectory files place then .error isADirectory
    else if path.endsWith "/" then
      .error (if files.contains name then notADirectory
        else if creating then isADirectory else noSuchFile)
    else if creating || files.contains name then .ok name
    else .error noSuchFile

end Scriptlet.Directory
