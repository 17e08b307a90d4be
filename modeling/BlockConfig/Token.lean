/-!
Tokens: the words of the language, with the place each was read at.

A token keeps its kind, its literal and its position. The literal is the text itself for names,
numbers, operators and comments; for a string, a heredoc or an environment reference it is the
content, with escapes undone. Lines and columns count from one, and a column counts characters.
-/

set_option autoImplicit false

namespace BlockConfig

/-- A place in a text: line and column, both counted from one. -/
structure Position where
  line : Nat
  column : Nat
deriving DecidableEq, Repr, Inhabited

namespace Position

/-- Where a text begins. -/
def start : Position := ⟨1, 1⟩

/-- The place after one more character. -/
def next (p : Position) (c : Char) : Position :=
  if c = '\n' then ⟨p.line + 1, 1⟩ else ⟨p.line, p.column + 1⟩

/-- The place after a stretch of text. -/
def advance (p : Position) (cs : List Char) : Position :=
  cs.foldl next p

/-- `line:column`, as written in messages. -/
def text (p : Position) : String :=
  p.line.repr ++ ":" ++ p.column.repr

theorem advance_append (p : Position) (xs ys : List Char) :
    p.advance (xs ++ ys) = (p.advance xs).advance ys :=
  List.foldl_append

end Position

/-- The kinds of token. -/
inductive Kind where
  | ident | str | number | bool
  | lbrace | rbrace | lbracket | rbracket | lparen | rparen
  | comma | dot | colon | semicolon | assign | atSign
  | plus | minus | star | slash | percent | lt | gt | bang | question | amp | pipe | caret
  | eq | ne | le | ge | andAnd | orOr | shl | shr | coalesce | arrow
  | ifWord | elseIfWord | elseWord
  | envRef | heredoc | comment | eof
deriving DecidableEq, Repr, Inhabited

namespace Kind

/-- How a punctuation mark, an operator or a keyword is spelt; a description for the kinds that
have no spelling of their own. -/
def symbol : Kind → String
  | lbrace => "\x7b"
  | rbrace => "\x7d"
  | lbracket => "["
  | rbracket => "]"
  | lparen => "("
  | rparen => ")"
  | comma => ","
  | dot => "."
  | colon => ":"
  | semicolon => ";"
  | assign => "="
  | atSign => "@"
  | plus => "+"
  | minus => "-"
  | star => "*"
  | slash => "/"
  | percent => "%"
  | lt => "<"
  | gt => ">"
  | bang => "!"
  | question => "?"
  | amp => "&"
  | pipe => "|"
  | caret => "^"
  | eq => "=="
  | ne => "!="
  | le => "<="
  | ge => ">="
  | andAnd => "&&"
  | orOr => "||"
  | shl => "<<"
  | shr => ">>"
  | coalesce => "??"
  | arrow => "->"
  | ifWord => "IF"
  | elseIfWord => "ELSEIF"
  | elseWord => "ELSE"
  | ident => "identifier"
  | str => "string"
  | number => "number"
  | bool => "boolean"
  | envRef => "environment reference"
  | heredoc => "heredoc"
  | comment => "comment"
  | eof => "end of input"

end Kind

/-- A token. `delimiter` is the tag of a heredoc and `quote` the quotation mark of a string; no
other token has either. -/
structure Token where
  kind : Kind
  literal : String
  pos : Position
  delimiter : Option String
  quote : Option Char
deriving DecidableEq, Repr, Inhabited

namespace Token

/-- How a message names the token. -/
def describe (t : Token) : String :=
  match t.kind with
  | .ident | .number | .bool => "'" ++ t.literal ++ "'"
  | .str => "string \"" ++ t.literal ++ "\""
  | .eof | .comment | .heredoc | .envRef => t.kind.symbol
  | kind => "'" ++ kind.symbol ++ "'"

/-- Names of statements, labels and members are identifiers or strings. -/
def isName (t : Token) : Bool :=
  t.kind = .ident || t.kind = .str

theorem isName_iff {t : Token} : t.isName = true ↔ t.kind = .ident ∨ t.kind = .str := by
  rw [isName, Bool.or_eq_true, decide_eq_true_eq, decide_eq_true_eq]

end Token

end BlockConfig
