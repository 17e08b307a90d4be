import BlockConfig.Text.Search

/-!
Paths.

A path is a string of segments between slashes and is absolute if it begins with one. Joining and
taking the parent work on the text alone. Empty segments and single dots inside a path name nothing;
a dot at its very beginning stands for the current directory.
-/

set_option autoImplicit false

namespace BlockConfig.Path

/-- Whether a path begins at the root. -/
def isAbsolute (path : String) : Bool :=
  path.toList.head? = some '/'

/-- A path as seen from a directory; an absolute path stays what it is. -/
def join (base path : String) : String :=
  if isAbsolute path ∨ base = "" then path
  else if base.toList.getLast? = some '/' then base ++ path
  else base ++ "/" ++ path

/-- The beginning of a path that is no segment -- the root or the current directory -- and the
segments after it. -/
def segments (path : List Char) : List Char × List (List Char) :=
  match path with
  | '/' :: rest => (['/'], Text.splitOnChar '/' rest)
  | ['.'] => (['.'], [])
  | '.' :: '/' :: rest => (['.'], Text.splitOnChar '/' ('/' :: rest))
  | path => ([], Text.splitOnChar '/' path)

/-- Segments without those at the end that name nothing. -/
def dropVoid (segs : List (List Char)) : List (List Char) :=
  (segs.reverse.dropWhile fun s => s = [] ∨ s = ['.']).reverse

/-- The path of the directory that a path is in: nothing for the root and for the empty path. -/
def parent? (path : String) : Option String :=
  let (start, segs) := segments path.toList
  match dropVoid segs with
  | [] => if start = ['.'] then some "" else none
  | segs => some (String.ofList (start ++ Text.joinWith ['/'] (dropVoid segs.dropLast)))

/-- The names that a path passes through. -/
def names (path : String) : List String :=
  (Text.splitOnChar '/' path.toList).map String.ofList

end BlockConfig.Path
