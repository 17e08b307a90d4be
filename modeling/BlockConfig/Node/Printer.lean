import BlockConfig.Decimal.Writer
import BlockConfig.Node
import BlockConfig.Token.Lexeme

/-!
Writing documents.

A tree is written back as text, one statement a line, with four blanks for each level of nesting.
Parentheses stand where the tree has a group and nowhere else. The first line of a node carries no
indentation. Comments inside expressions are no part of the tree and so are not written.
-/

set_option autoImplicit false

namespace BlockConfig

namespace Text

/-- A character of a string body, escaped where the quotation mark `q` demands it. -/
def escapeChar (q c : Char) : List Char :=
  if c = '\\' then ['\\', '\\']
  else if c = '\n' then ['\\', 'n']
  else if c = '\t' then ['\\', 't']
  else if c = '\r' then ['\\', 'r']
  else if c = q then ['\\', c]
  else [c]

/-- The body of a string with quotation mark `q`. Interpolations are written as they stand; `depth`
braces of one are open. -/
def escapeFrom (q : Char) : Nat → List Char → List Char
  | _, [] => []
  | depth + 1, c :: cs =>
    c :: escapeFrom q (if c = '{' then depth + 2 else if c = '}' then depth else depth + 1) cs
  | 0, '$' :: '{' :: cs => '$' :: '{' :: escapeFrom q 1 cs
  | 0, c :: cs => escapeChar q c ++ escapeFrom q 0 cs

/-- The body of a string with quotation mark `q`. -/
def escape (q : Char) (s : String) : String :=
  String.ofList (escapeFrom q 0 s.toList)

/-- A string in quotation marks. -/
def quoted (q : Char) (s : String) : String :=
  String.singleton q ++ escape q s ++ String.singleton q

/-- Whether a text is an identifier that is no keyword and no literal. -/
def isPlainName (cs : List Char) : Bool :=
  match cs with
  | [] => false
  | c :: _ =>
    Lexeme.isNameStart c && cs.all Lexeme.isNameRest &&
      !(["true", "false", "null", "IF", "ELSEIF", "ELSE"].contains (String.ofList cs))

/-- A name, bare if it can be and as a string if not. -/
def nameText (name : String) : String :=
  if isPlainName name.toList then name else quoted '"' name

/-- Strings joined with a separator between neighbours. -/
def join (sep : String) : List String → String
  | [] => ""
  | [s] => s
  | s :: ss => s ++ sep ++ join sep ss

/-- The blanks in front of a line at a level of nesting. -/
def indentation (level : Nat) : String :=
  String.ofList (List.replicate (4 * level) ' ')

/-- Lines in braces, one level deeper than `level`. -/
def braced (level : Nat) (lines : List String) : String :=
  if lines.isEmpty then "\x7b\x7d"
  else
    "\x7b\n" ++ String.join (lines.map fun line => indentation (level + 1) ++ line ++ "\n") ++
      indentation level ++ "\x7d"

end Text

namespace Literal

/-- A value as it is written. -/
def render : Literal → String
  | str value _ (some tag) => "<<" ++ tag ++ "\n" ++ value ++ "\n" ++ tag ++ "\n"
  | str value quote none => Text.quoted quote value
  | int value => Decimal.intText value
  | float value => Decimal.sourceText value
  | bool true => "true"
  | bool false => "false"
  | null => "null"

end Literal

namespace Node

open Text

/-- An environment reference as it is written. -/
def referenceText (name : String) (default : Option String) : String :=
  match default with
  | some text => "$\x7b" ++ name ++ ":" ++ text ++ "\x7d"
  | none => "$\x7b" ++ name ++ "\x7d"

/-- An operator in front of its operand; a minus keeps its distance from another. -/
def unaryText (op : UnaryOp) (operand : String) : String :=
  if operand.toList.head? = some '-' then op.symbol ++ " " ++ operand else op.symbol ++ operand

/-- A list: on one line if its items are values written out, else with each item on a line of its
own. -/
def listText (level : Nat) (inline : Bool) (items : List String) : String :=
  if inline then "[" ++ join ", " items ++ "]"
  else
    "[\n" ++ String.join (items.map fun item => indentation (level + 1) ++ item ++ ",\n") ++
      indentation level ++ "]"

mutual

/-- A node at a level of nesting. -/
def render (level : Nat) : Node → String
  | assign target value style =>
    match style with
    | .flag => nameText target.name
    | .colon => nameText target.name ++ ": " ++ value.render level
    | .equals => nameText target.name ++ " = " ++ value.render level
  | assignEach pairs =>
    join ", " (pairs.map fun pair => pair.1.name) ++ " = " ++ join ", " (renderPairs level pairs)
  | destructure targets source =>
    join ", " (targets.map Target.name) ++ " = " ++ source.render level
  | block kind label body _ =>
    match label with
    | some label =>
      nameText kind ++ " " ++ nameText label ++ " " ++ braced level (renderAll (level + 1) body)
    | none => nameText kind ++ " " ++ braced level (renderAll (level + 1) body)
  | container kind body _ => nameText kind ++ " " ++ braced level (renderAll (level + 1) body)
  | arrow relation source target body _ =>
    let front := match relation with
      | some r => r.name ++ " "
      | none => ""
    let properties :=
      if body.isEmpty then "" else " " ++ braced level (renderAll (level + 1) body)
    front ++ nameText source ++ " -> " ++ nameText target ++ properties
  | map entries => braced level (renderAll (level + 1) entries)
  | combinedMap items => braced level (renderAll (level + 1) items)
  | list items =>
    let inline := items.all isLiteral
    listText level inline (renderAll (if inline then level else level + 1) items)
  | literal value => value.render
  | ident name => name
  | member left name => left.render level ++ "." ++ nameText name
  | binary op left right => left.render level ++ " " ++ op.symbol ++ " " ++ right.render level
  | unary op operand => unaryText op (operand.render level)
  | ternary condition yes no =>
    condition.render level ++ " ? " ++ yes.render level ++ " : " ++ no.render level
  | group inner => "(" ++ inner.render level ++ ")"
  | call name args _ => name ++ "(" ++ join ", " (renderAll level args) ++ ")"
  | envRef name default => referenceText name default
  | inclusion target _ => "@include " ++ target.render level
  | comment text => text
  | control branches => renderBranches level "IF" branches
  | pipeline body _ => "@pipeline " ++ braced level (renderAll (level + 1) body)
  | exec cmd args dir _ =>
    "@exec(cmd=" ++ cmd.render level ++ renderOption level ", args=" args ++
      renderOption level ", dir=" dir ++ ")"
  | extract source _ => source.render level

/-- Every node of a list at a level of nesting. -/
def renderAll (level : Nat) : List Node → List String
  | [] => []
  | n :: ns => n.render level :: renderAll level ns

/-- The values of an assignment with a value for each target. -/
def renderPairs (level : Nat) : List (Target × Node) → List String
  | [] => []
  | (_, value) :: pairs => value.render level :: renderPairs level pairs

/-- A node that may be missing, behind a caption. -/
def renderOption (level : Nat) (caption : String) : Option Node → String
  | none => ""
  | some n => caption ++ n.render level

/-- The links of an `IF` chain, the first of which begins with the given keyword. -/
def renderBranches (level : Nat) (keyword : String) : List (Branch Node) → String
  | [] => ""
  | ⟨condition, body, _⟩ :: others =>
    let head := match condition with
      | some condition => keyword ++ " (" ++ condition.render level ++ ") "
      | none => "ELSE "
    let tail := if others.isEmpty then "" else " " ++ renderBranches level "ELSEIF" others
    head ++ braced level (renderAll (level + 1) body) ++ tail

end

/-- A document, one statement a line. -/
def renderDocument (nodes : List Node) : String :=
  join "\n" (renderAll 0 nodes) ++ "\n"

end Node

end BlockConfig
