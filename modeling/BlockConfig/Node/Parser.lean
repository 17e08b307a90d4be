import BlockConfig.Decimal.Reader
import BlockConfig.Node
import BlockConfig.Token.Lexer

/-!
Reading documents and expressions.

The grammar is read by recursive descent over the token list, one rule for each construct, and
operators by precedence climbing. A rule looks at most two tokens ahead, apart from two scans that
stop at the first token that does not fit: the one for `a, b, c =` and the one over comments in
front of an `ELSE`. Reading stops at the first fault.

Line ends mean nothing except in three places: a word operator, the parenthesis of a call and the
label of a block continue what stands before them only on the same line.

Every rule takes a budget that bounds how deep the rules may call each other. No rule calls another
more than `10` times without reading a token, so `budget` is never used up.
-/

set_option autoImplicit false

namespace BlockConfig

/-- Why a token list is no document. -/
inductive SyntaxFault where
  | expected (kind : Kind) (context : String) (found : Token)
  | expectedName (context : String) (found : Token)
  | expectedExpression (found : Token)
  | unexpected (found : Token)
  | unexpectedAfterExpression (found : Token)
  | unexpectedInPipeline (found : Token)
  | unclosed (context : String)
  | strayElse (word : String)
  | blockOrAssignment (found : Token)
  | targetCount (targets values : Nat)
  | invalidNumber (literal : String)
  | unknownDirective (name : String)
  | unknownExecArgument (name : String)
  | missingCommand
  | pipelineStep
  | exhausted
deriving DecidableEq, Repr

namespace SyntaxFault

/-- The message of a fault. -/
def message : SyntaxFault → String
  | expected kind context found =>
    "Expected '" ++ kind.symbol ++ "' " ++ context ++ ", found " ++ found.describe
  | expectedName context found => "Expected a name " ++ context ++ ", found " ++ found.describe
  | expectedExpression found => "Expected an expression, found " ++ found.describe
  | unexpected found => "Unexpected " ++ found.describe
  | unexpectedAfterExpression found => "Unexpected " ++ found.describe ++ " after expression"
  | unexpectedInPipeline found => "Unexpected " ++ found.describe ++ " in pipeline"
  | unclosed context => "Unclosed '\x7b' " ++ context
  | strayElse word => "'" ++ word ++ "' without a preceding IF"
  | blockOrAssignment found => "Expected a block or assignment after " ++ found.describe
  | targetCount targets values =>
    "Assignment has " ++ targets.repr ++ " targets but " ++ values.repr ++ " values"
  | invalidNumber literal => "Invalid number '" ++ literal ++ "'"
  | unknownDirective name => "Unknown directive '@" ++ name ++ "'"
  | unknownExecArgument name => "Unknown @exec argument '" ++ name ++ "'"
  | missingCommand => "@exec requires a 'cmd' argument"
  | pipelineStep => "Pipeline steps must be assignments or arrows"
  | exhausted => "Nested too deeply"

end SyntaxFault

/-- A place in a token list: the tokens still to be read, which end with the end of input, and the
line of the token read last. -/
structure Cursor where
  line : Nat
  rest : List Token
deriving DecidableEq, Repr

namespace Cursor

/-- At the beginning of a token list. -/
def ofTokens (ts : List Token) : Cursor :=
  ⟨0, ts⟩

/-- The token `n` places ahead; past the end of the list, its last token. -/
def peekAt (c : Cursor) (n : Nat) : Token :=
  match c.rest[n]? with
  | some t => t
  | none => c.rest.getLastD (.endOfInput .start)

/-- Past the next token; the end of input is never passed. -/
def skip : Cursor → Cursor
  | ⟨_, t :: u :: rest⟩ => ⟨t.pos.line, u :: rest⟩
  | c => c

/-- Past all tokens of certain kinds. -/
def skipKinds (p : Kind → Bool) : Nat → List Token → Cursor
  | line, t :: u :: rest =>
    if p t.kind then skipKinds p t.pos.line (u :: rest) else ⟨line, t :: u :: rest⟩
  | line, rest => ⟨line, rest⟩

end Cursor

/-- A rule of the grammar: reads tokens and gives a result, or stops with a fault. -/
abbrev Rule (α : Type) : Type := StateT Cursor (Except (Misplaced SyntaxFault)) α

namespace Rule

variable {α : Type}

/-! ## Single tokens -/

/-- Stops with a fault found at a token. -/
def fail (t : Token) (fault : SyntaxFault) : Rule α :=
  fun _ => .error ⟨fault, t.pos⟩

/-- The token `n` places ahead. -/
def peekAt (n : Nat) : Rule Token :=
  fun c => .ok (c.peekAt n, c)

/-- The next token. -/
def peek : Rule Token :=
  peekAt 0

/-- Reads the next token, whatever it is. -/
def advance : Rule Token :=
  fun c => .ok (c.peekAt 0, c.skip)

/-- Reads the next token if it is of the given kind. -/
def eat (kind : Kind) : Rule Bool :=
  fun c => if (c.peekAt 0).kind = kind then .ok (true, c.skip) else .ok (false, c)

/-- Reads a token of the given kind. -/
def expect (kind : Kind) (context : String) : Rule Token := do
  let t ← peek
  if t.kind = kind then advance else fail t (.expected kind context t)

/-- Reads a name. -/
def expectName (context : String) : Rule Token := do
  let t ← peek
  if t.isName then advance else fail t (.expectedName context t)

/-- Skips commas and semicolons. -/
def skipSeparators : Rule Unit :=
  fun c => .ok ((), Cursor.skipKinds (fun k => k = .semicolon ∨ k = .comma) c.line c.rest)

/-- Skips comments. -/
def skipComments : Rule Unit :=
  fun c => .ok ((), Cursor.skipKinds (· = .comment) c.line c.rest)

/-- The budget is used up. -/
def exhausted : Rule α := do
  fail (← peek) .exhausted

/-! ## Scans that read nothing -/

/-- The binary operator that comes next. A word is an operator only on the line of the token before
it, so that a statement may begin with it. -/
def operator? : Rule (Option BinaryOp) := fun c =>
  let t := c.peekAt 0
  let op :=
    if t.kind = .ident then
      -- On a new line a word begins a statement.
      if t.pos.line = c.line then BinaryOp.ofWord? t.literal else none
    else BinaryOp.ofKind? t.kind
  .ok (op, c)

/-- The targets of `a, b, c =`, the equals sign and the tokens after it. -/
def targetList? : List Token → Option (List Target × Token × List Token)
  | t :: u :: rest =>
    if t.kind = .ident then
      if u.kind = .comma then
        (targetList? rest).map fun (targets, sign, rest) => (⟨t.literal, t.pos⟩ :: targets, sign, rest)
      else if u.kind = .assign then some ([⟨t.literal, t.pos⟩], u, rest)
      else none
    else none
  | _ => none

/-- How the statement ahead begins if it is an arrow: with a relation or without one. -/
def arrowAhead? (c : Cursor) : Option (Option Relation) :=
  let first := c.peekAt 0
  let typed :=
    if first.kind = .ident ∧ (c.peekAt 1).isName ∧ (c.peekAt 2).kind = .arrow then
      Relation.ofName? first.literal
    else none
  match typed with
  | some r => some (some r)
  | none => if first.isName ∧ (c.peekAt 1).kind = .arrow then some none else none

/-- Whether an `ELSE` or `ELSEIF` follows, perhaps behind comments. -/
def elseAhead (c : Cursor) : Bool :=
  match c.rest.dropWhile fun t => t.kind = .comment with
  | t :: _ => t.kind = .elseIfWord || t.kind = .elseWord
  | [] => false

/-! ## Leaves -/

/-- The value of a number: an integer if it is written as one and fits, a float otherwise. -/
def numberLiteral? (text : String) : Option Literal :=
  let cs := text.toList
  let whole :=
    if cs.any fun c => c = '.' ∨ c = 'e' ∨ c = 'E' then none else Decimal.readInt64? cs
  match whole with
  | some i => some (.int i)
  | none => (Decimal.readFloat? cs).map .float

/-- The environment reference with the given text between its braces: a name, perhaps with `env.` in
front of it, and perhaps a default behind a colon. -/
def envReference (text : String) : Node :=
  let (name, default) :=
    match Text.splitOnce ':' text.toList with
    | some (name, default) => (Text.trimChars name, some (String.ofList default))
    | none => (Text.trimChars text.toList, none)
  .envRef (String.ofList ((Text.dropPrefix? "env.".toList name).getD name)) default

/-- A condition may stand in parentheses, which are not kept. -/
def ungroup : Node → Node
  | .group inner => inner
  | node => node

/-- The node of an `@exec` whose arguments have been read. -/
def execNode (sign : Token) (cmd args dir : Option Node) : Rule Node :=
  match cmd with
  | some cmd => return .exec cmd args dir sign.pos
  | none => fail sign .missingCommand

/-! ## The grammar -/

mutual

/-- An expression, choices included. -/
def expression : Nat → Rule Node
  | 0 => exhausted
  | n + 1 => do
    let condition ← binary n 1
    if ← eat .question then
      let yes ← expression n
      let _ ← expect .colon "in ternary expression"
      let no ← expression n
      return .ternary condition yes no
    else
      return condition

/-- Operands joined by operators of at least the given strength. -/
def binary : Nat → Nat → Rule Node
  | 0, _ => exhausted
  | n + 1, least => do
    let left ← unary n
    climb n least left

/-- Continues an expression after its left operand as long as operators of at least the given
strength follow. -/
def climb : Nat → Nat → Node → Rule Node
  | 0, _, _ => exhausted
  | n + 1, least, left => do
    match ← operator? with
    | none => return left
    | some op =>
      if op.strength < least then
        return left
      else
        let _ ← advance
        let right ← binary n (op.strength + 1)
        climb n least (.binary op left right)

/-- An operand with operators in front of it. -/
def unary : Nat → Rule Node
  | 0 => exhausted
  | n + 1 => do
    match UnaryOp.ofKind? (← peek).kind with
    | some op =>
      let _ ← advance
      return .unary op (← unary n)
    | none =>
      let left ← primary n
      members n left

/-- Continues an operand with the members that are asked of it. -/
def members : Nat → Node → Rule Node
  | 0, _ => exhausted
  | n + 1, left => do
    if ← eat .dot then
      let name ← expectName "after '.'"
      members n (.member left name.literal)
    else
      return left

/-- An operand. -/
def primary : Nat → Rule Node
  | 0 => exhausted
  | n + 1 => do
    let t ← peek
    match t.kind with
    | .number =>
      let _ ← advance
      match numberLiteral? t.literal with
      | some value => return .literal value
      | none => fail t (.invalidNumber t.literal)
    | .str =>
      let _ ← advance
      return .literal (.str t.literal (t.quote.getD '"') none)
    | .heredoc =>
      let _ ← advance
      return .literal (.str t.literal '"' t.delimiter)
    | .bool =>
      let _ ← advance
      return .literal (.bool (t.literal = "true"))
    | .ident =>
      let _ ← advance
      if t.literal = "null" then
        return .literal .null
      else
        -- A parenthesis on the next line is no list of arguments.
        let next ← peek
        if next.kind = .lparen ∧ next.pos.line = t.pos.line then
          let _ ← expect .lparen "for call arguments"
          let args ← items n .rparen "to close call arguments"
          return .call t.literal args t.pos
        else
          return .ident t.literal
    | .envRef =>
      let _ ← advance
      return envReference t.literal
    | .lparen =>
      let _ ← advance
      let inner ← expression n
      let _ ← expect .rparen "to close group"
      return .group inner
    | .lbracket =>
      let _ ← expect .lbracket "for list"
      return .list (← items n .rbracket "to close list")
    | .lbrace => return .ofEntries (← body n "for map literal")
    | .atSign => directive n
    | _ => fail t (.expectedExpression t)

/-- Expressions separated by commas, up to the bracket that closes them; a comma may stand before
that bracket. -/
def items : Nat → Kind → String → Rule (List Node)
  | 0, _, _ => exhausted
  | n + 1, close, context => do
    skipComments
    if ← eat close then
      return []
    else
      let item ← expression n
      skipComments
      if ← eat .comma then
        return item :: (← items n close context)
      else
        let _ ← expect close context
        return [item]

/-- Statements in braces. -/
def body : Nat → String → Rule (List Node)
  | 0, _ => exhausted
  | n + 1, context => do
    let _ ← expect .lbrace context
    bodyItems n context

/-- Statements up to a closing brace. -/
def bodyItems : Nat → String → Rule (List Node)
  | 0, _ => exhausted
  | n + 1, context => do
    skipSeparators
    if ← eat .rbrace then
      return []
    else
      let t ← peek
      if t.kind = .eof then
        fail t (.unclosed context)
      else
        let first ← statement n
        return first :: (← bodyItems n context)

/-- A statement. -/
def statement : Nat → Rule Node
  | 0 => exhausted
  | n + 1 => do
    let t ← peek
    match t.kind with
    | .comment =>
      let _ ← advance
      return .comment t.literal
    | .atSign => directive n
    | .ifWord => return .control (← control n)
    | .elseIfWord | .elseWord => fail t (.strayElse t.literal)
    | .ident | .str =>
      match arrowAhead? (← get) with
      | some relation => arrow n relation
      | none => blockOrAssignment n
    | _ => fail t (.unexpected t)

/-- An arrow, whose relation has been recognised. -/
def arrow : Nat → Option Relation → Rule Node
  | 0, _ => exhausted
  | n + 1, relation => do
    let first ← peek
    if relation.isSome then
      let _ ← advance
    let source ← expectName "as arrow source"
    let _ ← expect .arrow "in arrow"
    let target ← expectName "as arrow target"
    let properties ←
      if (← peek).kind = .lbrace then body n "for arrow properties" else pure []
    return .arrow relation source.literal target.literal properties first.pos

/-- A statement that begins with a name and is no arrow. -/
def blockOrAssignment : Nat → Rule Node
  | 0 => exhausted
  | n + 1 => do
    let name ← peek
    let next ← peekAt 1
    -- A block without a label.
    if next.kind = .lbrace then
      let _ ← advance
      return .ofBlock name.literal none (← body n "for block body") name.pos
    -- A block with a label on the line of its kind.
    else if next.isName ∧ next.pos.line = name.pos.line ∧ (← peekAt 2).kind = .lbrace then
      let _ ← advance
      let _ ← advance
      return .ofBlock name.literal (some next.literal) (← body n "for block body") name.pos
    -- An assignment to one name.
    else if next.kind = .assign ∨ next.kind = .colon then
      let _ ← advance
      let _ ← advance
      let style := if next.kind = .colon then AssignStyle.colon else .equals
      return .assign ⟨name.literal, name.pos⟩ (← expression n) style
    else if name.kind = .ident then
      match targetList? (← get).rest with
      -- An assignment to several names, with a value for each or with one that is taken apart.
      | some (targets, sign, rest) =>
        set (Cursor.mk sign.pos.line rest)
        let first ← expression n
        let values := first :: (← moreValues n (targets.length - 1))
        if values.length = targets.length then
          return .assignEach (targets.zip values)
        else if values.length = 1 then
          return .destructure targets first
        else
          fail sign (.targetCount targets.length values.length)
      -- A flag.
      | none =>
        let _ ← advance
        return .assign ⟨name.literal, name.pos⟩ (.literal (.bool true)) .flag
    else
      fail name (.blockOrAssignment name)

/-- Up to `limit` more values, each behind a comma. -/
def moreValues : Nat → Nat → Rule (List Node)
  | 0, _ => exhausted
  | _ + 1, 0 => return []
  | n + 1, limit + 1 => do
    if ← eat .comma then
      let value ← expression n
      return value :: (← moreValues n limit)
    else
      return []

/-- The links of an `IF` chain from a keyword with a condition on. -/
def control : Nat → Rule (List (Branch Node))
  | 0 => exhausted
  | n + 1 => do
    let word ← advance
    let condition ← expression n
    let statements ← body n "for IF body"
    let others ← elseChain n
    return ⟨some (ungroup condition), statements, word.pos⟩ :: others

/-- The links of an `IF` chain that follow one with a condition. -/
def elseChain : Nat → Rule (List (Branch Node))
  | 0 => exhausted
  | n + 1 => do
    if elseAhead (← get) then
      skipComments
      if (← peek).kind = .elseIfWord then
        control n
      -- The two words `ELSE IF` mean the same as the one.
      else if (← peekAt 1).kind = .ifWord then
        let _ ← advance
        control n
      else
        let word ← advance
        let statements ← body n "for ELSE body"
        return [⟨none, statements, word.pos⟩]
    else
      return []

/-- A directive. -/
def directive : Nat → Rule Node
  | 0 => exhausted
  | n + 1 => do
    let sign ← expect .atSign "before directive"
    let name ← expect .ident "after '@'"
    if name.literal = "include" then
      return .inclusion (← expression n) sign.pos
    else if name.literal = "exec" then
      let _ ← expect .lparen "after '@exec'"
      execArguments n sign none none none
    else if name.literal = "pipeline" then
      let _ ← expect .lbrace "for pipeline body"
      return .pipeline (← pipelineItems n) sign.pos
    else
      fail name (.unknownDirective name.literal)

/-- The arguments of `@exec` up to the closing parenthesis, given those read already; of two with
the same name the later one counts. -/
def execArguments : Nat → Token → Option Node → Option Node → Option Node → Rule Node
  | 0, _, _, _, _ => exhausted
  | n + 1, sign, cmd, args, dir => do
    skipComments
    if ← eat .rparen then
      execNode sign cmd args dir
    else
      let key ← expect .ident "for @exec argument"
      let _ ← expect .assign "after @exec argument name"
      let value ← expression n
      if key.literal = "cmd" then
        moreExecArguments n sign (some value) args dir
      else if key.literal = "args" then
        moreExecArguments n sign cmd (some value) dir
      else if key.literal = "dir" then
        moreExecArguments n sign cmd args (some value)
      else
        fail key (.unknownExecArgument key.literal)

/-- What follows an argument of `@exec`. -/
def moreExecArguments : Nat → Token → Option Node → Option Node → Option Node → Rule Node
  | 0, _, _, _, _ => exhausted
  | n + 1, sign, cmd, args, dir => do
    skipComments
    if ← eat .comma then
      execArguments n sign cmd args dir
    else
      let _ ← expect .rparen "to close @exec"
      execNode sign cmd args dir

/-- The steps and arrows of a pipeline up to the closing brace. -/
def pipelineItems : Nat → Rule (List Node)
  | 0 => exhausted
  | n + 1 => do
    skipSeparators
    let t ← peek
    match t.kind with
    | .rbrace =>
      let _ ← advance
      return []
    | .comment =>
      let _ ← advance
      return .comment t.literal :: (← pipelineItems n)
    | .ident | .str =>
      match arrowAhead? (← get) with
      | some relation =>
        let first ← arrow n relation
        return first :: (← pipelineItems n)
      | none =>
        -- A step has one name, so that arrows can refer to it.
        let next ← peekAt 1
        if next.kind = .assign ∨ next.kind = .colon then
          let first ← blockOrAssignment n
          return first :: (← pipelineItems n)
        else
          fail t .pipelineStep
    | .eof => fail t (.unclosed "for pipeline body")
    | _ => fail t (.unexpectedInPipeline t)

end

/-- The statements of a document up to the end of input. -/
def document : Nat → Rule (List Node)
  | 0 => exhausted
  | n + 1 => do
    skipSeparators
    if (← peek).kind = .eof then
      return []
    else
      let first ← statement n
      return first :: (← document n)

/-- An expression with nothing but comments after it. -/
def loneExpression (n : Nat) : Rule Node := do
  let node ← expression n
  skipComments
  let t ← peek
  if t.kind = .eof then return node else fail t (.unexpectedAfterExpression t)

/-- How deep the rules may call each other on a token list. -/
def budget (ts : List Token) : Nat :=
  10 * ts.length + 10

/-- Reads a text with a rule. -/
def readText (rule : Nat → Rule α) (source file : String) : Except ParseError α := do
  let ts ← Token.tokenize source file
  match (rule (budget ts)).run (.ofTokens ts) with
  | .ok (result, _) => .ok result
  | .error m => .error (m.toParseError SyntaxFault.message file source.toList)

/-- A text is read if the rule reads its tokens; the name of the file is only used in errors. -/
theorem readText_ok_iff {rule : Nat → Rule α} {source file : String} {result : α} :
    readText rule source file = .ok result ↔
      ∃ ts c, Token.list source.toList = .ok ts ∧
        (rule (budget ts)).run (.ofTokens ts) = .ok (result, c) := by
  cases h : Token.list source.toList with
  | error m =>
    have tokens : Token.tokenize source file =
        .error (m.toParseError LexFault.message file source.toList) := by
      rw [Token.tokenize, h]
      rfl
    rw [readText, tokens]
    exact ⟨nofun, nofun⟩
  | ok ts =>
    have tokens : Token.tokenize source file = .ok ts := by
      rw [Token.tokenize, h]
      rfl
    rw [readText, tokens]
    dsimp only [bind, Except.bind]
    cases hrun : (rule (budget ts)).run (.ofTokens ts) with
    | error m =>
      refine ⟨nofun, ?_⟩
      rintro ⟨_, _, ⟨⟩, hgives⟩
      exact nomatch hrun.symm.trans hgives
    | ok ending =>
      obtain ⟨a, c⟩ := ending
      constructor
      · rintro ⟨⟩
        exact ⟨ts, c, rfl, hrun⟩
      · rintro ⟨_, _, ⟨⟩, hgives⟩
        obtain ⟨rfl, rfl⟩ := Prod.mk.inj (Except.ok.inj (hrun.symm.trans hgives))
        rfl

end Rule

namespace Node

/-- Reads a document. The name of the file is only used in errors. -/
def parse (source file : String) : Except ParseError (List Node) :=
  Rule.readText Rule.document source file

/-- Reads a single expression. -/
def parseExpression (source file : String) : Except ParseError Node :=
  Rule.readText Rule.loneExpression source file

end Node

end BlockConfig
