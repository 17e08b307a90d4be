import BlockConfig.Text.Search
import BlockConfig.Token

/-!
Where and why a text could not be read.

A parse error keeps the line of the text it points into, so that its message can show the line with
a caret under the column.
-/

set_option autoImplicit false

namespace BlockConfig

/-- A text that could not be read: why, in which file, where, and the line at that place. -/
structure ParseError where
  message : String
  file : String
  pos : Position
  context : String
deriving DecidableEq, Repr, Inhabited

namespace ParseError

/-- The error at a place of `source`; a line past the end of the text has no content. -/
def point (message file : String) (pos : Position) (source : List Char) : ParseError where
  message := message
  file := file
  pos := pos
  context := String.ofList ((Text.line? (pos.line - 1) source).getD [])

/-- The place and the message, and under them the line with a caret, unless the line is empty. -/
def text (e : ParseError) : String :=
  let head := e.file ++ ":" ++ e.pos.text ++ ": " ++ e.message
  if e.context.isEmpty then head
  else
    head ++ "\n    | " ++ e.context ++ "\n    | " ++
      String.ofList (List.replicate (e.pos.column - 1) ' ') ++ "^"

end ParseError

end BlockConfig
