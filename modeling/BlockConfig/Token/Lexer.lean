import BlockConfig.ParseError
import BlockConfig.Token.Lexeme

/-!
The token list of a text.

The text is cut into lexemes with gaps between them, and every lexeme gets the position that the
characters before it lead to. The list ends with one token of kind `eof`, at the end of the text. A
text that cannot be cut is refused at the place where the unreadable token begins.
-/

set_option autoImplicit false

namespace BlockConfig

open Text

/-- A fault and the place it was found at. -/
structure Misplaced (ε : Type) where
  fault : ε
  pos : Position
deriving DecidableEq, Repr

namespace Misplaced

/-- The fault as an error about a file with the given text. -/
def toParseError {ε : Type} (message : ε → String) (file : String) (source : List Char)
    (m : Misplaced ε) : ParseError :=
  ParseError.point (message m.fault) file m.pos source

end Misplaced

namespace Token

/-- The token that marks the end of a text. -/
def endOfInput (pos : Position) : Token :=
  ⟨.eof, "", pos, none, none⟩

/-- The token that a lexeme found at a place is. -/
def ofLexeme (pos : Position) (l : Lexeme) : Token :=
  ⟨l.kind, l.literal, pos, l.delimiter, l.quote⟩

/-- The tokens of a text whose first character stands at `pos`. -/
def listFrom (pos : Position) (cs : List Char) : Except (Misplaced LexFault) (List Token) :=
  -- A gap moves the position and is no token.
  let pos := pos.advance (cs.takeWhile isGap)
  match _hcs : cs.dropWhile isGap with
  | [] => .ok [endOfInput pos]
  | c :: body =>
    match hl : Lexeme.scan c body with
    | .error fault => .error ⟨fault, pos⟩
    | .ok l =>
      -- What the lexeme took is what is missing from the text it leaves.
      (listFrom (pos.advance ((c :: body).take (body.length + 1 - l.rest.length))) l.rest).map
        (ofLexeme pos l :: ·)
termination_by cs.length
decreasing_by
  have h1 := Lexeme.scan_shorter hl
  have h2 := (List.dropWhile_sublist isGap (l := cs)).length_le
  rw [_hcs] at h2
  omega

/-- The tokens of a text. -/
def list (cs : List Char) : Except (Misplaced LexFault) (List Token) :=
  listFrom .start cs

/-- The tokens of the text of a file; the name of the file is only used in errors. -/
def tokenize (source file : String) : Except ParseError (List Token) :=
  (list source.toList).mapError (Misplaced.toParseError LexFault.message file source.toList)

end Token

end BlockConfig
