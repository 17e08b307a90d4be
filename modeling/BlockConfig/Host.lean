import BlockConfig.Host.FileTree

/-!
What surrounds an engine.

Documents can reach out in four ways: to files, to remote documents, to the variables of the process
and to commands. The first three are data here, a `Host`. Commands are run by a `Runner`, which may
look at the host. Whatever is asked of files, remote documents and commands on behalf of a document
is noted as an `Event`, and so is every inclusion that succeeds.
-/

set_option autoImplicit false

namespace BlockConfig

/-- The surroundings of an engine. -/
structure Host where
  files : FileTree
  workingDirectory : String
  /-- The texts of remote documents by their addresses. -/
  documents : Table String
  /-- The variables of the process. -/
  environment : Table String

namespace Host

/-- Whether a path means a file. -/
def isFile (h : Host) (path : String) : Bool :=
  h.files.isFile h.workingDirectory path

/-- The full path of the place that a path means. -/
def canonical? (h : Host) (path : String) : Option String :=
  h.files.canonical? h.workingDirectory path

/-- The text of a file. -/
def readFile (h : Host) (path : String) : Except FileFault String :=
  h.files.readText h.workingDirectory path

/-- The text of a remote document, or why there is none. -/
def fetch (h : Host) (url : String) : Except String String :=
  match Table.find? h.documents url with
  | some text => .ok text
  | none => .error ("404 for " ++ url)

end Host

/-- A command to run: a program, its arguments, and the directory to run it in. -/
structure Command where
  program : String
  args : List String
  directory : Option String
deriving DecidableEq, Repr

/-- Runs commands: gives the output of one, or says why it failed. -/
abbrev Runner : Type := Host → Command → Except String String

/-- What happens on behalf of a document. -/
inductive Event where
  /-- The file at a full path is asked for. -/
  | file (path : String)
  /-- The remote document at an address is asked for. -/
  | remote (url : String)
  /-- A command is asked for. -/
  | command (c : Command)
  /-- The document with a key has been included. -/
  | included (key : String)
deriving DecidableEq, Repr

end BlockConfig
