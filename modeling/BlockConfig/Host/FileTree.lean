import BlockConfig.Host.Path
import BlockConfig.Table

/-!
Files and directories.

A tree knows its files and its directories by their full paths. Looking up a path walks from the
root, or from the working directory, one segment at a time: every segment but the last has to be a
directory, a dot stays and two dots go up. The full path that the walk ends at is the same for all
spellings of a place, so it serves as the place's identity.
-/

set_option autoImplicit false

namespace BlockConfig

/-- Why a file cannot be used. -/
inductive FileFault where
  | notFound | notDirectory | isDirectory | nameTooLong | denied | nulByte | notText
deriving DecidableEq, Repr

namespace FileFault

/-- The message of a fault. -/
def message : FileFault → String
  | notFound => "No such file or directory (os error 2)"
  | notDirectory => "Not a directory (os error 20)"
  | isDirectory => "Is a directory (os error 21)"
  | nameTooLong => "File name too long (os error 36)"
  | denied => "Permission denied (os error 13)"
  | nulByte => "file name contained an unexpected NUL byte"
  | notText => "stream did not contain valid UTF-8"

end FileFault

/-- Files and directories by their full paths. -/
structure FileTree where
  files : Table ByteArray
  directories : List String

namespace FileTree

/-- The root directory and nothing in it. -/
def empty : FileTree :=
  ⟨[], []⟩

/-- The full path of a place, given the names on the way from the root. -/
def fullPath (names : List String) : String :=
  String.join (names.map ("/" ++ ·))

/-- Whether a place is a directory. -/
def isDirectory (t : FileTree) (names : List String) : Bool :=
  names.isEmpty || t.directories.contains (fullPath names)

/-- Follows the segments of a path from a directory. -/
def walk (t : FileTree) : List String → List String → Except FileFault (List String)
  | here, [] => .ok here
  | here, name :: more =>
    if name = "" ∨ name = "." then walk t here more
    else if name = ".." then walk t here.dropLast more
    else if 255 < name.utf8ByteSize then .error .nameTooLong
    else
      -- Nothing but a directory can be gone into.
      let there := here ++ [name]
      if t.isDirectory there then walk t there more
      else if Table.contains t.files (fullPath there) then
        if more.isEmpty then .ok there else .error .notDirectory
      else .error .notFound

/-- The names on the way from the root to the place that a path means in a working directory. -/
def locate (t : FileTree) (cwd path : String) : Except FileFault (List String) :=
  if path = "" then .error .notFound
  else if path.toList.contains '\x00' then .error .nulByte
  else if 4096 ≤ path.utf8ByteSize then .error .nameTooLong
  else
    match walk t [] (Path.names cwd) with
    | .error fault => if Path.isAbsolute path then walk t [] (Path.names path) else .error fault
    | .ok here => walk t (if Path.isAbsolute path then [] else here) (Path.names path)

/-- The full path of the place that a path means. -/
def canonical? (t : FileTree) (cwd path : String) : Option String :=
  match t.locate cwd path with
  | .ok names => some (if names.isEmpty then "/" else fullPath names)
  | .error _ => none

/-- Whether a path means a file. -/
def isFile (t : FileTree) (cwd path : String) : Bool :=
  match t.locate cwd path with
  | .ok names => !t.isDirectory names
  | .error _ => false

/-- The content of the file that a path means. -/
def read (t : FileTree) (cwd path : String) : Except FileFault ByteArray := do
  let names ← t.locate cwd path
  if t.isDirectory names then .error .isDirectory
  else
    match Table.find? t.files (fullPath names) with
    | some content => .ok content
    | none => .error .notFound

/-- The text of the file that a path means. -/
def readText (t : FileTree) (cwd path : String) : Except FileFault String := do
  match String.fromUTF8? (← t.read cwd path) with
  | some text => .ok text
  | none => .error .notText

/-- The tree with a directory and all directories it is in. -/
def makeDirectory (t : FileTree) (names : List String) : FileTree :=
  let dirs := (List.range names.length).map fun n => fullPath (names.take (n + 1))
  { t with directories := t.directories ++ dirs.filter fun d => !t.directories.contains d }

/-- The tree with a file, in place of any file at the same place; its directories are made. -/
def write (t : FileTree) (names : List String) (content : ByteArray) : FileTree :=
  let t := t.makeDirectory names.dropLast
  { t with files := Table.insert t.files (fullPath names) content }

/-- The tree without a file. -/
def remove (t : FileTree) (names : List String) : FileTree :=
  { t with files := Table.erase t.files (fullPath names) }

end FileTree

end BlockConfig
