/-!
# Files in memory

A tree of files by their paths, which stands somewhere in a larger system.  A directory exists when
a file lies in it, and the tree itself is one.  Of the system around it only what is the same
everywhere is known: the directories on the way to the root, some directories below the root, and
the null device.  Reading and writing fail for the reasons for which a file system refuses them.
-/

namespace Scriptlet

/-- Why a file cannot be read or written. -/
inductive FileFault where
  | notFound
  | notDirectory
  | isDirectory
  | nameTooLong
  | denied
  | zeroInName
  | notText
  | other (message : String)
  deriving Repr, DecidableEq

/-- The wording of a fault. -/
def FileFault.message : FileFault → String
  | notFound => "No such file or directory (os error 2)"
  | notDirectory => "Not a directory (os error 20)"
  | isDirectory => "Is a directory (os error 21)"
  | nameTooLong => "File name too long (os error 36)"
  | denied => "Permission denied (os error 13)"
  | zeroInName => "file name contained an unexpected NUL byte"
  | notText => "stream did not contain valid UTF-8"
  | other message => message

/-- The text of a file's bytes. -/
def decodeText (bytes : ByteArray) : Except FileFault String :=
  match String.fromUTF8? bytes with
  | some text => .ok text
  | none => .error .notText

/-- Files by their paths, which are lists of names. -/
structure FileTree where
  files : List (List String × ByteArray)

namespace FileTree

/-- The names of a path, without those that stay where they are. -/
def names (path : String) : List String :=
  (path.splitOn "/").filter fun name => name != "" && name != "."

/-- The tree of files with given paths. -/
def ofList (files : List (String × ByteArray)) : FileTree :=
  ⟨files.map fun (path, bytes) => (names path, bytes)⟩

/-! ## Places and what lies there -/

/-- A place that a path can lead to. -/
inductive Spot where
  /-- Below the directory of the tree. -/
  | inside (path : List String)
  /-- A directory on the way from the tree to the root. -/
  | around
  /-- Below the root of the system. -/
  | system (path : List String)
  /-- Beside the tree, where nothing is known. -/
  | unknown
  deriving Repr, DecidableEq

/-- The directory around a place.  The root lies in itself. -/
def Spot.parent : Spot → Spot
  | inside [] => around
  | inside path => inside path.dropLast
  | around => around
  | system path => system path.dropLast
  | unknown => around

/-- The place of a given name in a directory. -/
def Spot.child (name : String) : Spot → Spot
  | inside path => inside (path ++ [name])
  | around => unknown
  | system path => system (path ++ [name])
  | unknown => unknown

/-- What can lie at a place. -/
inductive Entry where
  | file (bytes : ByteArray)
  | directory
  | nullDevice
  | missing

/-- The directories below the root that every system has. -/
def systemDirectories : List String :=
  ["bin", "dev", "etc", "lib", "proc", "sys", "tmp", "usr", "var"]

/-- What lies below the root of every system. -/
def systemEntry : List String → Entry
  | [] => .directory
  | [name] => if systemDirectories.contains name then .directory else .missing
  | ["dev", "null"] => .nullDevice
  | _ => .missing

/-- What lies in the tree at a path. -/
def treeEntry (t : FileTree) (path : List String) : Entry :=
  match t.files.lookup path with
  | some bytes => .file bytes
  | none =>
    if path.isEmpty || t.files.any fun f => path.isPrefixOf f.1 then .directory else .missing

/-- What lies at a place. -/
def entry (t : FileTree) : Spot → Entry
  | .inside path => t.treeEntry path
  | .around => .directory
  | .system path => systemEntry path
  | .unknown => .missing

/-! ## Paths -/

/-- The most bytes that a name may have. -/
def nameLimit : Nat := 255

/-- The most bytes that a path may have. -/
def pathLimit : Nat := 4095

/-- Go from a place, which must be a directory, to the place of a name in it. -/
def step (t : FileTree) (here : Spot) (name : String) : Except FileFault Spot :=
  match t.entry here with
  | .missing => .error .notFound
  | .file _ => .error .notDirectory
  | .nullDevice => .error .notDirectory
  | .directory =>
    if name = "" ∨ name = "." then .ok here
    else if name = ".." then .ok here.parent
    else if nameLimit < name.utf8ByteSize then .error .nameTooLong
    else .ok (here.child name)

/-- Where a path starts: at the root if its first character is a slash, and else in the tree. -/
def start (path : String) : Spot :=
  if ['/'].isPrefixOf path.toList then .system [] else .inside []

/-- Refuse a path that is empty or too long, or that holds the character which ends a path. -/
def checkPath (path : String) : Except FileFault Unit :=
  if path.toList.contains '\x00' then .error .zeroInName
  else if path = "" then .error .notFound
  else if pathLimit < path.utf8ByteSize then .error .nameTooLong
  else .ok ()

/-- Where a path leads.  Every part of it but the last must name a directory. -/
def resolve (t : FileTree) (path : String) : Except FileFault Spot := do
  checkPath path
  (path.splitOn "/").foldlM t.step (start path)

/-- Read a file. -/
def read (t : FileTree) (path : String) : Except FileFault ByteArray := do
  match t.entry (← t.resolve path) with
  | .file bytes => .ok bytes
  | .nullDevice => .ok .empty
  | .directory => .error .isDirectory
  | .missing => .error .notFound

/-- The names that lead to no new place below the one where they stand. -/
def isDots (name : String) : Bool := name == "" || name == "." || name == ".."

/-- The places outside the tree where a file may be put: beside the tree, and in the directory for
temporary files. -/
def Spot.isOpen : Spot → Bool
  | unknown => true
  | system ["tmp", _] => true
  | _ => false

/-- Put a file at a place, where no directory may lie.  What is put outside the tree leaves the tree
as it is. -/
def put (t : FileTree) (target : Spot) (bytes : ByteArray) : Except FileFault FileTree :=
  match t.entry target, target with
  | .directory, _ => .error .isDirectory
  | .nullDevice, _ => .ok t
  | _, .inside path => .ok ⟨(path, bytes) :: t.files.filter fun f => f.1 != path⟩
  | _, _ => if target.isOpen then .ok t else .error .denied

/-- Write a file, in a directory that exists.  A path that ends with a slash names a directory. -/
def write (t : FileTree) (path : String) (bytes : ByteArray) : Except FileFault FileTree := do
  checkPath path
  let parts := ((path.splitOn "/").reverse.dropWhile (· == "")).reverse
  let directory ← (parts.dropLast ++ ["."]).foldlM t.step (start path)
  let name := parts.getLastD ""
  if isDots name ∨ ['/'].isSuffixOf path.toList then .error .isDirectory
  else t.put (← t.step directory name) bytes

end FileTree

end Scriptlet
