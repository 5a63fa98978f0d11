/-!
# Names of files

A path is a text whose parts are divided by slashes.
-/

namespace Scriptlet.Path

/-- The ending of stored programs. -/
def storedEnding : String := ".ir.json"

/-- Whether a path names a stored program. -/
def isStored (path : String) : Bool := storedEnding.toList.isSuffixOf path.toList

/-- The directory part of a path with its last slash, and the name behind it. -/
def split (path : String) : List Char × List Char :=
  let name := (path.toList.reverse.takeWhile (· != '/')).reverse
  (path.toList.take (path.toList.length - name.length), name)

/-- A name without its extension: what stands before the last dot, unless nothing stands there. -/
def stem (name : List Char) : List Char :=
  match name.reverse.dropWhile (· != '.') with
  | [] => name
  | [_] => name
  | _ :: before => before.reverse

/-- The path under which the program of a source file is stored: the extension of the file gives way
to the ending of stored programs.  A name that is one dot before its extension has nothing that an
ending could be put behind, and leaves the parent directory. -/
def storedPath (source : String) : String :=
  let (directory, name) := split source
  if stem name = ['.'] then String.ofList (directory ++ ['.', '.'])
  else String.ofList (directory ++ stem name) ++ storedEnding

end Scriptlet.Path
