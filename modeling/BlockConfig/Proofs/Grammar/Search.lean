import BlockConfig.Proofs.Grammar.Spelling
import Mathlib.Logic.Relation

/-!
What a rule was looking for when it met a fault.

A rule of the grammar looks for tokens and for other constructs, one after another (`Seeks`): the rule for
a choice looks for a condition, behind a question mark for a value, behind that for a colon, and so on.
What it looks for next depends on what it has read, so each case of `Seeks` says what has been given so
far and at which cursor the search goes on. At some point a search meets something that cannot stand there
and finds fault itself (`Search.Refuses`): a token of another kind than the one looked for, a number that
is none, an `ELSE` without an `IF`. Following the searches from the rule for a whole text
(`Search.LooksFor`) down to the one that refuses something tells what was read, what was looked for, and
which token was in the way.

Both relations are stated of cursors and results and not of errors. That they say what the rules do is
shown here in one direction: a search fails as soon as one that it comes to fails (`Search.LooksFor.fails`),
and one that refuses a token fails with that fault at the place of that token (`Search.Refuses.fails`). So
a chain of searches determines the error completely (`Search.fails_of_refuses`).
-/

set_option autoImplicit false

namespace BlockConfig

open Cursor

/-- What can be looked for: a token of one kind, a name, or a construct of the grammar. -/
inductive Construct where
  | token (kind : Kind) (context : String)
  | name (context : String)
  | document
  | loneExpression
  | expression
  | binary (least : Nat)
  | climb (least : Nat) (left : Node)
  | unary
  | members (left : Node)
  | primary
  | items (close : Kind) (context : String)
  | body (context : String)
  | bodyItems (context : String)
  | statement
  | arrow (relation : Option Relation)
  | blockOrAssignment
  | moreValues (limit : Nat)
  | control
  | elseChain
  | directive
  | execArguments (sign : Token) (cmd args dir : Option Node)
  | moreExecArguments (sign : Token) (cmd args dir : Option Node)
  | pipelineItems

/-- A search: what is looked for, where, and with which budget. -/
structure Search where
  budget : Nat
  wanted : Construct
  here : Cursor

namespace Rule

/-- A rule stops at a cursor with a fault. -/
def Stops {α : Type} (r : Rule α) (c : Cursor) (m : Misplaced SyntaxFault) : Prop :=
  r c = .error m

end Rule

open Rule

/-- The rule that looks for a construct stops with a fault. -/
def Search.Fails : Search → Misplaced SyntaxFault → Prop
  | ⟨_, .token kind context, c⟩, m => (expect kind context).Stops c m
  | ⟨_, .name context, c⟩, m => (expectName context).Stops c m
  | ⟨n, .document, c⟩, m => (document n).Stops c m
  | ⟨n, .loneExpression, c⟩, m => (loneExpression n).Stops c m
  | ⟨n, .expression, c⟩, m => (expression n).Stops c m
  | ⟨n, .binary least, c⟩, m => (binary n least).Stops c m
  | ⟨n, .climb least left, c⟩, m => (climb n least left).Stops c m
  | ⟨n, .unary, c⟩, m => (unary n).Stops c m
  | ⟨n, .members left, c⟩, m => (members n left).Stops c m
  | ⟨n, .primary, c⟩, m => (primary n).Stops c m
  | ⟨n, .items close context, c⟩, m => (items n close context).Stops c m
  | ⟨n, .body context, c⟩, m => (body n context).Stops c m
  | ⟨n, .bodyItems context, c⟩, m => (bodyItems n context).Stops c m
  | ⟨n, .statement, c⟩, m => (statement n).Stops c m
  | ⟨n, .arrow relation, c⟩, m => (arrow n relation).Stops c m
  | ⟨n, .blockOrAssignment, c⟩, m => (blockOrAssignment n).Stops c m
  | ⟨n, .moreValues limit, c⟩, m => (moreValues n limit).Stops c m
  | ⟨n, .control, c⟩, m => (Rule.control n).Stops c m
  | ⟨n, .elseChain, c⟩, m => (elseChain n).Stops c m
  | ⟨n, .directive, c⟩, m => (directive n).Stops c m
  | ⟨n, .execArguments sign cmd args dir, c⟩, m => (execArguments n sign cmd args dir).Stops c m
  | ⟨n, .moreExecArguments sign cmd args dir, c⟩, m =>
    (moreExecArguments n sign cmd args dir).Stops c m
  | ⟨n, .pipelineItems, c⟩, m => (pipelineItems n).Stops c m

/-! ## 1. What is looked for -/

/-- With budget `n + 1` at the cursor `c`, a rule comes to look for something at another cursor. The cases
of one rule stand in the order in which it looks, and each one says what the rule has read before. -/
inductive Seeks (n : Nat) (c : Cursor) : Construct → Construct → Cursor → Prop
  -- Documents.
  | firstOfDocument (hk : (c.skipSeparators.peekAt 0).kind ≠ .eof) :
      Seeks n c .document .statement c.skipSeparators
  | moreOfDocument {first : Node} {e : Cursor} (hk : (c.skipSeparators.peekAt 0).kind ≠ .eof)
      (hf : (statement n).Gives c.skipSeparators first e) : Seeks n c .document .document e
  -- Choices and operators.
  | condition : Seeks n c .expression (.binary 1) c
  | yes {condition : Node} {e : Cursor} (hc : (binary n 1).Gives c condition e)
      (hk : (e.peekAt 0).kind = .question) : Seeks n c .expression .expression e.skip
  | colon {condition yes : Node} {e e₁ : Cursor} (hc : (binary n 1).Gives c condition e)
      (hk : (e.peekAt 0).kind = .question) (hy : (expression n).Gives e.skip yes e₁) :
      Seeks n c .expression (.token .colon "in ternary expression") e₁
  | no {condition yes : Node} {e e₁ : Cursor} (hc : (binary n 1).Gives c condition e)
      (hk : (e.peekAt 0).kind = .question) (hy : (expression n).Gives e.skip yes e₁)
      (hk₁ : (e₁.peekAt 0).kind = .colon) : Seeks n c .expression .expression e₁.skip
  | left {least : Nat} : Seeks n c (.binary least) .unary c
  | operators {least : Nat} {left : Node} {e : Cursor} (hl : (unary n).Gives c left e) :
      Seeks n c (.binary least) (.climb least left) e
  | right {least : Nat} {left : Node} {op : BinaryOp} (ho : c.operator? = some op)
      (hs : least ≤ op.strength) :
      Seeks n c (.climb least left) (.binary (op.strength + 1)) c.skip
  | moreOperators {least : Nat} {left right : Node} {op : BinaryOp} {e : Cursor}
      (ho : c.operator? = some op) (hs : least ≤ op.strength)
      (hr : (binary n (op.strength + 1)).Gives c.skip right e) :
      Seeks n c (.climb least left) (.climb least (.binary op left right)) e
  | operand {op : UnaryOp} (ho : UnaryOp.ofKind? (c.peekAt 0).kind = some op) :
      Seeks n c .unary .unary c.skip
  | leaf (ho : UnaryOp.ofKind? (c.peekAt 0).kind = none) : Seeks n c .unary .primary c
  | membersOf {left : Node} {e : Cursor} (ho : UnaryOp.ofKind? (c.peekAt 0).kind = none)
      (hl : (primary n).Gives c left e) : Seeks n c .unary (.members left) e
  | member {left : Node} (hk : (c.peekAt 0).kind = .dot) :
      Seeks n c (.members left) (.name "after '.'") c.skip
  | moreMembers {left : Node} (hk : (c.peekAt 0).kind = .dot)
      (hn : (c.skip.peekAt 0).isName = true) :
      Seeks n c (.members left) (.members (.member left (c.skip.peekAt 0).literal)) c.skip.skip
  -- Operands.
  | arguments (hk : (c.peekAt 0).kind = .ident) (hn : (c.peekAt 0).literal ≠ "null")
      (hp : (c.skip.peekAt 0).kind = .lparen)
      (hl : (c.skip.peekAt 0).pos.line = (c.peekAt 0).pos.line) :
      Seeks n c .primary (.items .rparen "to close call arguments") c.skip.skip
  | inner (hk : (c.peekAt 0).kind = .lparen) : Seeks n c .primary .expression c.skip
  | closeGroup {inner : Node} {e : Cursor} (hk : (c.peekAt 0).kind = .lparen)
      (hi : (expression n).Gives c.skip inner e) :
      Seeks n c .primary (.token .rparen "to close group") e
  | elements (hk : (c.peekAt 0).kind = .lbracket) :
      Seeks n c .primary (.items .rbracket "to close list") c.skip
  | entries (hk : (c.peekAt 0).kind = .lbrace) : Seeks n c .primary (.body "for map literal") c
  | directiveValue (hk : (c.peekAt 0).kind = .atSign) : Seeks n c .primary .directive c
  | item {close : Kind} {context : String} (hk : (c.skipComments.peekAt 0).kind ≠ close) :
      Seeks n c (.items close context) .expression c.skipComments
  | moreItems {close : Kind} {context : String} {item : Node} {e : Cursor}
      (hk : (c.skipComments.peekAt 0).kind ≠ close)
      (hi : (expression n).Gives c.skipComments item e)
      (hc : (e.skipComments.peekAt 0).kind = .comma) :
      Seeks n c (.items close context) (.items close context) e.skipComments.skip
  | closeItems {close : Kind} {context : String} {item : Node} {e : Cursor}
      (hk : (c.skipComments.peekAt 0).kind ≠ close)
      (hi : (expression n).Gives c.skipComments item e)
      (hc : (e.skipComments.peekAt 0).kind ≠ .comma) :
      Seeks n c (.items close context) (.token close context) e.skipComments
  -- Statements.
  | brace {context : String} : Seeks n c (.body context) (.token .lbrace context) c
  | inBraces {context : String} (hk : (c.peekAt 0).kind = .lbrace) :
      Seeks n c (.body context) (.bodyItems context) c.skip
  | firstOfBody {context : String} (hk : (c.skipSeparators.peekAt 0).kind ≠ .rbrace)
      (he : (c.skipSeparators.peekAt 0).kind ≠ .eof) :
      Seeks n c (.bodyItems context) .statement c.skipSeparators
  | moreOfBody {context : String} {first : Node} {e : Cursor}
      (hk : (c.skipSeparators.peekAt 0).kind ≠ .rbrace)
      (he : (c.skipSeparators.peekAt 0).kind ≠ .eof)
      (hf : (statement n).Gives c.skipSeparators first e) :
      Seeks n c (.bodyItems context) (.bodyItems context) e
  | directiveStatement (hk : (c.peekAt 0).kind = .atSign) : Seeks n c .statement .directive c
  | controlStatement (hk : (c.peekAt 0).kind = .ifWord) : Seeks n c .statement .control c
  | arrowStatement {relation : Option Relation} (hk : (c.peekAt 0).isName = true)
      (ha : arrowAhead? c = some relation) : Seeks n c .statement (.arrow relation) c
  | namedStatement (hk : (c.peekAt 0).isName = true) (ha : arrowAhead? c = none) :
      Seeks n c .statement .blockOrAssignment c
  | source {relation : Option Relation} {e : Cursor}
      (he : e = if relation.isSome then c.skip else c) :
      Seeks n c (.arrow relation) (.name "as arrow source") e
  | arrowSign {relation : Option Relation} {e : Cursor}
      (he : e = if relation.isSome then c.skip else c) (hs : (e.peekAt 0).isName = true) :
      Seeks n c (.arrow relation) (.token .arrow "in arrow") e.skip
  | target {relation : Option Relation} {e : Cursor}
      (he : e = if relation.isSome then c.skip else c) (hs : (e.peekAt 0).isName = true)
      (ha : (e.skip.peekAt 0).kind = .arrow) :
      Seeks n c (.arrow relation) (.name "as arrow target") e.skip.skip
  | properties {relation : Option Relation} {e : Cursor}
      (he : e = if relation.isSome then c.skip else c) (hs : (e.peekAt 0).isName = true)
      (ha : (e.skip.peekAt 0).kind = .arrow) (ht : (e.skip.skip.peekAt 0).isName = true)
      (hb : (e.skip.skip.skip.peekAt 0).kind = .lbrace) :
      Seeks n c (.arrow relation) (.body "for arrow properties") e.skip.skip.skip
  | blockBody (hn : (c.peekAt 1).kind = .lbrace) :
      Seeks n c .blockOrAssignment (.body "for block body") c.skip
  | labelledBody (hn : (c.peekAt 1).isName = true)
      (hl : (c.peekAt 1).pos.line = (c.peekAt 0).pos.line) (h2 : (c.peekAt 2).kind = .lbrace) :
      Seeks n c .blockOrAssignment (.body "for block body") c.skip.skip
  | value (hn : (c.peekAt 1).kind = .assign ∨ (c.peekAt 1).kind = .colon) :
      Seeks n c .blockOrAssignment .expression c.skip.skip
  | firstValue {targets : List Target} {sign : Token} {rest : List Token}
      (hk : (c.peekAt 0).kind = .ident) (hn : (c.peekAt 1).kind = .comma)
      (ht : targetList? c.rest = some (targets, sign, rest)) :
      Seeks n c .blockOrAssignment .expression ⟨sign.pos.line, rest⟩
  | otherValues {targets : List Target} {sign : Token} {rest : List Token} {first : Node}
      {e : Cursor} (hk : (c.peekAt 0).kind = .ident) (hn : (c.peekAt 1).kind = .comma)
      (ht : targetList? c.rest = some (targets, sign, rest))
      (hf : (expression n).Gives ⟨sign.pos.line, rest⟩ first e) :
      Seeks n c .blockOrAssignment (.moreValues (targets.length - 1)) e
  | nextValue {limit : Nat} (hk : (c.peekAt 0).kind = .comma) :
      Seeks n c (.moreValues (limit + 1)) .expression c.skip
  | valuesBehind {limit : Nat} {value : Node} {e : Cursor} (hk : (c.peekAt 0).kind = .comma)
      (hv : (expression n).Gives c.skip value e) :
      Seeks n c (.moreValues (limit + 1)) (.moreValues limit) e
  | branchCondition : Seeks n c .control .expression c.skip
  | branchBody {condition : Node} {e : Cursor} (hc : (expression n).Gives c.skip condition e) :
      Seeks n c .control (.body "for IF body") e
  | branchesBehind {condition : Node} {statements : List Node} {e e₁ : Cursor}
      (hc : (expression n).Gives c.skip condition e)
      (hb : (body n "for IF body").Gives e statements e₁) : Seeks n c .control .elseChain e₁
  | elseIf (ha : elseAhead c = true) (hk : (c.skipComments.peekAt 0).kind = .elseIfWord) :
      Seeks n c .elseChain .control c.skipComments
  | elseThenIf (ha : elseAhead c = true) (hk : (c.skipComments.peekAt 0).kind ≠ .elseIfWord)
      (hi : (c.skipComments.peekAt 1).kind = .ifWord) :
      Seeks n c .elseChain .control c.skipComments.skip
  | elseBody (ha : elseAhead c = true) (hk : (c.skipComments.peekAt 0).kind ≠ .elseIfWord)
      (hi : (c.skipComments.peekAt 1).kind ≠ .ifWord) :
      Seeks n c .elseChain (.body "for ELSE body") c.skipComments.skip
  -- Directives.
  | sign : Seeks n c .directive (.token .atSign "before directive") c
  | directiveName (hs : (c.peekAt 0).kind = .atSign) :
      Seeks n c .directive (.token .ident "after '@'") c.skip
  | included (hs : (c.peekAt 0).kind = .atSign) (hk : (c.skip.peekAt 0).kind = .ident)
      (hn : (c.skip.peekAt 0).literal = "include") :
      Seeks n c .directive .expression c.skip.skip
  | openExec (hs : (c.peekAt 0).kind = .atSign) (hk : (c.skip.peekAt 0).kind = .ident)
      (hn : (c.skip.peekAt 0).literal = "exec") :
      Seeks n c .directive (.token .lparen "after '@exec'") c.skip.skip
  | execution (hs : (c.peekAt 0).kind = .atSign) (hk : (c.skip.peekAt 0).kind = .ident)
      (hn : (c.skip.peekAt 0).literal = "exec") (hp : (c.skip.skip.peekAt 0).kind = .lparen) :
      Seeks n c .directive (.execArguments (c.peekAt 0) none none none) c.skip.skip.skip
  | openPipeline (hs : (c.peekAt 0).kind = .atSign) (hk : (c.skip.peekAt 0).kind = .ident)
      (hn : (c.skip.peekAt 0).literal = "pipeline") :
      Seeks n c .directive (.token .lbrace "for pipeline body") c.skip.skip
  | pipeline (hs : (c.peekAt 0).kind = .atSign) (hk : (c.skip.peekAt 0).kind = .ident)
      (hn : (c.skip.peekAt 0).literal = "pipeline")
      (hb : (c.skip.skip.peekAt 0).kind = .lbrace) :
      Seeks n c .directive .pipelineItems c.skip.skip.skip
  | key {sign : Token} {cmd args dir : Option Node}
      (hp : (c.skipComments.peekAt 0).kind ≠ .rparen) :
      Seeks n c (.execArguments sign cmd args dir) (.token .ident "for @exec argument")
        c.skipComments
  | equals {sign : Token} {cmd args dir : Option Node}
      (hk : (c.skipComments.peekAt 0).kind = .ident) :
      Seeks n c (.execArguments sign cmd args dir) (.token .assign "after @exec argument name")
        c.skipComments.skip
  | argument {sign : Token} {cmd args dir : Option Node}
      (hk : (c.skipComments.peekAt 0).kind = .ident)
      (ha : (c.skipComments.skip.peekAt 0).kind = .assign) :
      Seeks n c (.execArguments sign cmd args dir) .expression c.skipComments.skip.skip
  | behindCmd {sign : Token} {cmd args dir : Option Node} {value : Node} {e : Cursor}
      (hk : (c.skipComments.peekAt 0).kind = .ident)
      (ha : (c.skipComments.skip.peekAt 0).kind = .assign)
      (hv : (expression n).Gives c.skipComments.skip.skip value e)
      (hn : (c.skipComments.peekAt 0).literal = "cmd") :
      Seeks n c (.execArguments sign cmd args dir)
        (.moreExecArguments sign (some value) args dir) e
  | behindArgs {sign : Token} {cmd args dir : Option Node} {value : Node} {e : Cursor}
      (hk : (c.skipComments.peekAt 0).kind = .ident)
      (ha : (c.skipComments.skip.peekAt 0).kind = .assign)
      (hv : (expression n).Gives c.skipComments.skip.skip value e)
      (hn : (c.skipComments.peekAt 0).literal = "args") :
      Seeks n c (.execArguments sign cmd args dir)
        (.moreExecArguments sign cmd (some value) dir) e
  | behindDir {sign : Token} {cmd args dir : Option Node} {value : Node} {e : Cursor}
      (hk : (c.skipComments.peekAt 0).kind = .ident)
      (ha : (c.skipComments.skip.peekAt 0).kind = .assign)
      (hv : (expression n).Gives c.skipComments.skip.skip value e)
      (hn : (c.skipComments.peekAt 0).literal = "dir") :
      Seeks n c (.execArguments sign cmd args dir)
        (.moreExecArguments sign cmd args (some value)) e
  | nextArgument {sign : Token} {cmd args dir : Option Node}
      (hc : (c.skipComments.peekAt 0).kind = .comma) :
      Seeks n c (.moreExecArguments sign cmd args dir) (.execArguments sign cmd args dir)
        c.skipComments.skip
  | closeExec {sign : Token} {cmd args dir : Option Node}
      (hc : (c.skipComments.peekAt 0).kind ≠ .comma) :
      Seeks n c (.moreExecArguments sign cmd args dir) (.token .rparen "to close @exec")
        c.skipComments
  | behindComment (hk : (c.skipSeparators.peekAt 0).kind = .comment) :
      Seeks n c .pipelineItems .pipelineItems c.skipSeparators.skip
  | route {relation : Option Relation} (hk : (c.skipSeparators.peekAt 0).isName = true)
      (ha : arrowAhead? c.skipSeparators = some relation) :
      Seeks n c .pipelineItems (.arrow relation) c.skipSeparators
  | behindRoute {relation : Option Relation} {first : Node} {e : Cursor}
      (hk : (c.skipSeparators.peekAt 0).isName = true)
      (ha : arrowAhead? c.skipSeparators = some relation)
      (hf : (arrow n relation).Gives c.skipSeparators first e) :
      Seeks n c .pipelineItems .pipelineItems e
  | step (hk : (c.skipSeparators.peekAt 0).isName = true)
      (ha : arrowAhead? c.skipSeparators = none)
      (hn : (c.skipSeparators.peekAt 1).kind = .assign ∨
        (c.skipSeparators.peekAt 1).kind = .colon) :
      Seeks n c .pipelineItems .blockOrAssignment c.skipSeparators
  | behindStep {first : Node} {e : Cursor} (hk : (c.skipSeparators.peekAt 0).isName = true)
      (ha : arrowAhead? c.skipSeparators = none)
      (hn : (c.skipSeparators.peekAt 1).kind = .assign ∨
        (c.skipSeparators.peekAt 1).kind = .colon)
      (hf : (blockOrAssignment n).Gives c.skipSeparators first e) :
      Seeks n c .pipelineItems .pipelineItems e

/-- One search comes to another one. A lone expression is an expression first of all, with the same
budget. -/
inductive Search.LooksFor : Search → Search → Prop
  | inside {n : Nat} {c d : Cursor} {x y : Construct} (h : Seeks n c x y d) :
      LooksFor ⟨n + 1, x, c⟩ ⟨n, y, d⟩
  | alone {n : Nat} {c : Cursor} : LooksFor ⟨n, .loneExpression, c⟩ ⟨n, .expression, c⟩

/-! ## 2. What is refused -/

/-- A search refuses a token. It is the one that comes next, the one just passed where only its text is
wrong, or the sign of the statement or directive that is being read. -/
inductive Search.Refuses : Search → Token → SyntaxFault → Prop
  | token {n : Nat} {c : Cursor} {kind : Kind} {context : String} (hk : (c.peekAt 0).kind ≠ kind) :
      Refuses ⟨n, .token kind context, c⟩ (c.peekAt 0) (.expected kind context (c.peekAt 0))
  | name {n : Nat} {c : Cursor} {context : String} (hk : (c.peekAt 0).isName = false) :
      Refuses ⟨n, .name context, c⟩ (c.peekAt 0) (.expectedName context (c.peekAt 0))
  | behindExpression {n : Nat} {c e : Cursor} {node : Node} (hn : (expression n).Gives c node e)
      (hk : (e.skipComments.peekAt 0).kind ≠ .eof) :
      Refuses ⟨n, .loneExpression, c⟩ (e.skipComments.peekAt 0)
        (.unexpectedAfterExpression (e.skipComments.peekAt 0))
  | operand {n : Nat} {c : Cursor} (hk : (c.peekAt 0).kind.startsOperand = false) :
      Refuses ⟨n + 1, .primary, c⟩ (c.peekAt 0) (.expectedExpression (c.peekAt 0))
  | number {n : Nat} {c : Cursor} (hk : (c.peekAt 0).kind = .number)
      (hv : numberLiteral? (c.peekAt 0).literal = none) :
      Refuses ⟨n + 1, .primary, c⟩ (c.peekAt 0) (.invalidNumber (c.peekAt 0).literal)
  | unclosedBody {n : Nat} {c : Cursor} {context : String}
      (hk : (c.skipSeparators.peekAt 0).kind = .eof) :
      Refuses ⟨n + 1, .bodyItems context, c⟩ (c.skipSeparators.peekAt 0) (.unclosed context)
  | strayElse {n : Nat} {c : Cursor}
      (hk : (c.peekAt 0).kind = .elseIfWord ∨ (c.peekAt 0).kind = .elseWord) :
      Refuses ⟨n + 1, .statement, c⟩ (c.peekAt 0) (.strayElse (c.peekAt 0).literal)
  | statement {n : Nat} {c : Cursor} (hk : (c.peekAt 0).kind.startsStatement = false)
      (hi : (c.peekAt 0).kind ≠ .elseIfWord) (he : (c.peekAt 0).kind ≠ .elseWord) :
      Refuses ⟨n + 1, .statement, c⟩ (c.peekAt 0) (.unexpected (c.peekAt 0))
  | blockOrAssignment {n : Nat} {c : Cursor} (hb : (c.peekAt 1).kind ≠ .lbrace)
      (hl : ¬((c.peekAt 1).isName = true ∧ (c.peekAt 1).pos.line = (c.peekAt 0).pos.line ∧
        (c.peekAt 2).kind = .lbrace))
      (ha : ¬((c.peekAt 1).kind = .assign ∨ (c.peekAt 1).kind = .colon))
      (hk : (c.peekAt 0).kind ≠ .ident) :
      Refuses ⟨n + 1, .blockOrAssignment, c⟩ (c.peekAt 0) (.blockOrAssignment (c.peekAt 0))
  | targetCount {n : Nat} {c e d : Cursor} {targets : List Target} {sign : Token}
      {rest : List Token} {first : Node} {others : List Node} (hk : (c.peekAt 0).kind = .ident)
      (hn : (c.peekAt 1).kind = .comma) (ht : targetList? c.rest = some (targets, sign, rest))
      (hf : (expression n).Gives ⟨sign.pos.line, rest⟩ first e)
      (ho : (moreValues n (targets.length - 1)).Gives e others d)
      (hl : (first :: others).length ≠ targets.length) (h1 : (first :: others).length ≠ 1) :
      Refuses ⟨n + 1, .blockOrAssignment, c⟩ sign
        (.targetCount targets.length (first :: others).length)
  | directive {n : Nat} {c : Cursor} (hs : (c.peekAt 0).kind = .atSign)
      (hk : (c.skip.peekAt 0).kind = .ident) (hi : (c.skip.peekAt 0).literal ≠ "include")
      (he : (c.skip.peekAt 0).literal ≠ "exec") (hp : (c.skip.peekAt 0).literal ≠ "pipeline") :
      Refuses ⟨n + 1, .directive, c⟩ (c.skip.peekAt 0)
        (.unknownDirective (c.skip.peekAt 0).literal)
  | argumentName {n : Nat} {c e : Cursor} {sign : Token} {cmd args dir : Option Node} {value : Node}
      (hk : (c.skipComments.peekAt 0).kind = .ident)
      (ha : (c.skipComments.skip.peekAt 0).kind = .assign)
      (hv : (expression n).Gives c.skipComments.skip.skip value e)
      (hc : (c.skipComments.peekAt 0).literal ≠ "cmd")
      (hr : (c.skipComments.peekAt 0).literal ≠ "args")
      (hd : (c.skipComments.peekAt 0).literal ≠ "dir") :
      Refuses ⟨n + 1, .execArguments sign cmd args dir, c⟩ (c.skipComments.peekAt 0)
        (.unknownExecArgument (c.skipComments.peekAt 0).literal)
  | noCommand {n : Nat} {c : Cursor} {sign : Token} {args dir : Option Node}
      (hp : (c.skipComments.peekAt 0).kind = .rparen) :
      Refuses ⟨n + 1, .execArguments sign none args dir, c⟩ sign .missingCommand
  | noCommandBehind {n : Nat} {c : Cursor} {sign : Token} {args dir : Option Node}
      (hp : (c.skipComments.peekAt 0).kind = .rparen) :
      Refuses ⟨n + 1, .moreExecArguments sign none args dir, c⟩ sign .missingCommand
  | pipelineStep {n : Nat} {c : Cursor} (hk : (c.skipSeparators.peekAt 0).isName = true)
      (ha : arrowAhead? c.skipSeparators = none)
      (hn : ¬((c.skipSeparators.peekAt 1).kind = .assign ∨
        (c.skipSeparators.peekAt 1).kind = .colon)) :
      Refuses ⟨n + 1, .pipelineItems, c⟩ (c.skipSeparators.peekAt 0) .pipelineStep
  | unclosedPipeline {n : Nat} {c : Cursor} (hk : (c.skipSeparators.peekAt 0).kind = .eof) :
      Refuses ⟨n + 1, .pipelineItems, c⟩ (c.skipSeparators.peekAt 0)
        (.unclosed "for pipeline body")
  | pipeline {n : Nat} {c : Cursor} (hb : (c.skipSeparators.peekAt 0).kind ≠ .rbrace)
      (hc : (c.skipSeparators.peekAt 0).kind ≠ .comment)
      (hn : (c.skipSeparators.peekAt 0).isName = false)
      (he : (c.skipSeparators.peekAt 0).kind ≠ .eof) :
      Refuses ⟨n + 1, .pipelineItems, c⟩ (c.skipSeparators.peekAt 0)
        (.unexpectedInPipeline (c.skipSeparators.peekAt 0))

/-! ## 3. Steps that stop -/

namespace Rule

variable {α β : Type} {r s : Rule α} {f : α → Rule β} {c d : Cursor} {m : Misplaced SyntaxFault}

/-- A rule stops where its first step stops. -/
theorem stops_bind (h : r.Stops c m) : (r >>= f).Stops c m := by
  show (r c).bind (fun p => f p.1 p.2) = .error m
  rw [show r c = .error m from h]
  rfl

/-- A rule stops where what comes behind its first step stops. -/
theorem stops_behind {a : α} (h : r.Gives c a d) (hf : (f a).Stops d m) : (r >>= f).Stops c m := by
  show (r c).bind (fun p => f p.1 p.2) = .error m
  rw [show r c = .ok (a, d) from h]
  exact hf

/-- Looking ahead stops nothing, so what follows does, with the token that was seen. -/
theorem stops_peekAt {f : Token → Rule β} (n : Nat) (h : (f (c.peekAt n)).Stops c m) :
    (peekAt n >>= f).Stops c m :=
  stops_behind rfl h

theorem stops_peek {f : Token → Rule β} (h : (f (c.peekAt 0)).Stops c m) : (peek >>= f).Stops c m :=
  stops_behind rfl h

/-- A token is passed on the way to the failure. -/
theorem stops_advance {f : Token → Rule β} (h : (f (c.peekAt 0)).Stops c.skip m) :
    (advance >>= f).Stops c m :=
  stops_behind rfl h

theorem stops_get {f : Cursor → Rule β} (h : (f c).Stops c m) : (get >>= f).Stops c m :=
  stops_behind rfl h

/-- When the place is set, the failure is one of what follows from there. -/
theorem stops_set {f : PUnit → Rule β} (h : (f ⟨⟩).Stops d m) : (set d >>= f).Stops c m :=
  stops_behind rfl h

theorem stops_operator? {f : Option BinaryOp → Rule β} (h : (f c.operator?).Stops c m) :
    (operator? >>= f).Stops c m :=
  stops_behind rfl h

theorem stops_skipComments {f : Unit → Rule β} (h : (f ()).Stops c.skipComments m) :
    (skipComments >>= f).Stops c m :=
  stops_behind rfl h

theorem stops_skipSeparators {f : Unit → Rule β} (h : (f ()).Stops c.skipSeparators m) :
    (skipSeparators >>= f).Stops c m :=
  stops_behind rfl h

/-- Under a condition that holds, its branch fails. -/
theorem stops_if {p : Prop} [Decidable p] (hp : p) (h : r.Stops c m) :
    (if p then r else s).Stops c m := by
  rwa [if_pos hp]

theorem stops_else {p : Prop} [Decidable p] (hp : ¬p) (h : s.Stops c m) :
    (if p then r else s).Stops c m := by
  rwa [if_neg hp]

/-- An optional token that was there is passed, and what follows it fails. -/
theorem stops_eat {kind : Kind} (hk : (c.peekAt 0).kind = kind) (h : r.Stops c.skip m) :
    (eat kind >>= fun b => if b = true then r else s).Stops c m :=
  stops_behind ((gives_eat kind c true _).2 (.inl ⟨hk, rfl, rfl⟩)) h

/-- One that was not there is not. -/
theorem stops_not_eat {kind : Kind} (hk : (c.peekAt 0).kind ≠ kind) (h : s.Stops c m) :
    (eat kind >>= fun b => if b = true then r else s).Stops c m :=
  stops_behind ((gives_eat kind c false _).2 (.inr ⟨hk, rfl, rfl⟩)) h

/-- An expected token that was there is passed. If it was not, this rule would have been the one to fail,
and with another fault. -/
theorem stops_expect {f : Token → Rule β} {kind : Kind} {context : String}
    (hk : (c.peekAt 0).kind = kind) (h : (f (c.peekAt 0)).Stops c.skip m) :
    (expect kind context >>= f).Stops c m :=
  stops_behind ((gives_expect kind context c _ _).2 ⟨hk, rfl, rfl⟩) h

/-- The same of an expected name. -/
theorem stops_expectName {f : Token → Rule β} {context : String}
    (hk : (c.peekAt 0).isName = true) (h : (f (c.peekAt 0)).Stops c.skip m) :
    (expectName context >>= f).Stops c m :=
  stops_behind ((gives_expectName context c _ _).2 ⟨hk, rfl, rfl⟩) h

end Rule

/-! ## 4. A search fails with what it comes to -/

section Fails

variable {n : Nat} {c d : Cursor} {y : Construct} {m : Misplaced SyntaxFault}

/-- If a document looks for something where it fails, then the document fails in the same way. This and the
lemmas below follow the equations of the rules up to the point where the search is made. -/
theorem Seeks.fails_document (h : Seeks n c .document y d) (hy : Search.Fails ⟨n, y, d⟩ m) :
    (document (n + 1)).Stops c m := by
  simp only [document]
  refine stops_skipSeparators (stops_peek ?_)
  cases h with
  | firstOfDocument hk => exact stops_else hk (stops_bind hy)
  | moreOfDocument hk hf => exact stops_else hk (stops_behind hf (stops_bind hy))

/-- An expression fails with its condition, with one of the values of a choice, or at the colon between
them. -/
theorem Seeks.fails_expression (h : Seeks n c .expression y d) (hy : Search.Fails ⟨n, y, d⟩ m) :
    (expression (n + 1)).Stops c m := by
  simp only [expression]
  cases h with
  | condition => exact stops_bind hy
  | yes hc hk => exact stops_behind hc (stops_eat hk (stops_bind hy))
  | colon hc hk hyes => exact stops_behind hc (stops_eat hk (stops_behind hyes (stops_bind hy)))
  | no hc hk hyes hk₁ =>
    exact stops_behind hc (stops_eat hk (stops_behind hyes (stops_expect hk₁ (stops_bind hy))))

/-- An operand that fails, in first place or behind an operator, fails the whole. -/
theorem Seeks.fails_binary {least : Nat} (h : Seeks n c (.binary least) y d)
    (hy : Search.Fails ⟨n, y, d⟩ m) : (binary (n + 1) least).Stops c m := by
  simp only [binary]
  cases h with
  | left => exact stops_bind hy
  | operators hl => exact stops_behind hl hy

/-- A right operand that fails, now or in a later turn of the loop. -/
theorem Seeks.fails_climb {least : Nat} {left : Node} (h : Seeks n c (.climb least left) y d)
    (hy : Search.Fails ⟨n, y, d⟩ m) : (climb (n + 1) least left).Stops c m := by
  simp only [climb]
  refine stops_operator? ?_
  cases h with
  | right ho hs =>
    rw [ho]
    exact stops_else (Nat.not_lt.2 hs) (stops_advance (stops_bind hy))
  | moreOperators ho hs hr =>
    rw [ho]
    exact stops_else (Nat.not_lt.2 hs) (stops_advance (stops_behind hr hy))

/-- The operand of a prefix operator, an operand without one, or its members. -/
theorem Seeks.fails_unary (h : Seeks n c .unary y d) (hy : Search.Fails ⟨n, y, d⟩ m) :
    (unary (n + 1)).Stops c m := by
  simp only [unary]
  refine stops_peek ?_
  cases h with
  | operand ho =>
    rw [ho]
    exact stops_advance (stops_bind hy)
  | leaf ho =>
    rw [ho]
    exact stops_bind hy
  | membersOf ho hl =>
    rw [ho]
    exact stops_behind hl hy

/-- The name behind a dot, or a member further on. -/
theorem Seeks.fails_members {left : Node} (h : Seeks n c (.members left) y d)
    (hy : Search.Fails ⟨n, y, d⟩ m) : (members (n + 1) left).Stops c m := by
  simp only [members]
  cases h with
  | member hk => exact stops_eat hk (stops_bind hy)
  | moreMembers hk hn => exact stops_eat hk (stops_expectName hn hy)

/-- What stands in brackets, in each kind of them, the bracket that closes a group, and the directives that
are operands. -/
theorem Seeks.fails_primary (h : Seeks n c .primary y d) (hy : Search.Fails ⟨n, y, d⟩ m) :
    (primary (n + 1)).Stops c m := by
  simp only [primary]
  refine stops_peek ?_
  cases h with
  | arguments hk hn hp hl =>
    rw [hk]
    exact stops_advance (stops_else hn (stops_peek
      (stops_if ⟨hp, hl⟩ (stops_expect hp (stops_bind hy)))))
  | inner hk =>
    rw [hk]
    exact stops_advance (stops_bind hy)
  | closeGroup hk hi =>
    rw [hk]
    exact stops_advance (stops_behind hi (stops_bind hy))
  | elements hk =>
    rw [hk]
    exact stops_expect hk (stops_bind hy)
  | entries hk =>
    rw [hk]
    exact stops_bind hy
  | directiveValue hk =>
    rw [hk]
    exact hy

/-- An item, one of those behind it, or the token that closes them. -/
theorem Seeks.fails_items {close : Kind} {context : String}
    (h : Seeks n c (.items close context) y d) (hy : Search.Fails ⟨n, y, d⟩ m) :
    (items (n + 1) close context).Stops c m := by
  simp only [items]
  refine stops_skipComments ?_
  cases h with
  | item hk => exact stops_not_eat hk (stops_bind hy)
  | moreItems hk hi hc =>
    exact stops_not_eat hk (stops_behind hi (stops_skipComments (stops_eat hc (stops_bind hy))))
  | closeItems hk hi hc =>
    exact stops_not_eat hk (stops_behind hi (stops_skipComments (stops_not_eat hc (stops_bind hy))))

/-- The brace that opens a body, or what it holds. -/
theorem Seeks.fails_body {context : String} (h : Seeks n c (.body context) y d)
    (hy : Search.Fails ⟨n, y, d⟩ m) : (body (n + 1) context).Stops c m := by
  simp only [body]
  cases h with
  | brace => exact stops_bind hy
  | inBraces hk => exact stops_expect hk hy

/-- A statement of a body, or one of those behind it. -/
theorem Seeks.fails_bodyItems {context : String} (h : Seeks n c (.bodyItems context) y d)
    (hy : Search.Fails ⟨n, y, d⟩ m) : (bodyItems (n + 1) context).Stops c m := by
  simp only [bodyItems]
  refine stops_skipSeparators ?_
  cases h with
  | firstOfBody hk he => exact stops_not_eat hk (stops_peek (stops_else he (stops_bind hy)))
  | moreOfBody hk he hf =>
    exact stops_not_eat hk (stops_peek (stops_else he (stops_behind hf (stops_bind hy))))

/-- The construct that a statement turns out to be. -/
theorem Seeks.fails_statement (h : Seeks n c .statement y d) (hy : Search.Fails ⟨n, y, d⟩ m) :
    (statement (n + 1)).Stops c m := by
  simp only [statement]
  refine stops_peek ?_
  cases h with
  | directiveStatement hk =>
    rw [hk]
    exact hy
  | controlStatement hk =>
    rw [hk]
    exact stops_bind hy
  | arrowStatement hk ha | namedStatement hk ha =>
    rcases Token.isName_iff.1 hk with hk | hk
    all_goals
      rw [hk]
      refine stops_get ?_
      rw [ha]
      exact hy

/-- One of the names of an arrow, its sign, or its properties. With a relation in front, all of them stand
one token further on. -/
theorem Seeks.fails_arrow {relation : Option Relation} (h : Seeks n c (.arrow relation) y d)
    (hy : Search.Fails ⟨n, y, d⟩ m) : (arrow (n + 1) relation).Stops c m := by
  -- Behind the relation, if there is one, the rule is the same for all arrows.
  have tail : ∀ {e : Cursor} (first : Token), e = (if relation.isSome then c.skip else c) →
      (do let source ← expectName "as arrow source"
          let _ ← expect .arrow "in arrow"
          let target ← expectName "as arrow target"
          let properties ←
            if (← peek).kind = Kind.lbrace then body n "for arrow properties" else pure []
          return Node.arrow relation source.literal target.literal properties first.pos).Stops
        e m := by
    rintro _ first rfl
    cases h with
    | source he => exact stops_bind (he ▸ hy)
    | arrowSign he hs =>
      subst he
      exact stops_expectName hs (stops_bind hy)
    | target he hs ha =>
      subst he
      exact stops_expectName hs (stops_expect ha (stops_bind hy))
    | properties he hs ha ht hb =>
      subst he
      exact stops_expectName hs (stops_expect ha (stops_expectName ht
        (stops_peek (stops_if hb (stops_bind hy)))))
  simp only [arrow]
  refine stops_peek ?_
  cases relation with
  | none => exact tail _ rfl
  | some r => exact stops_advance (tail _ rfl)

/-- In front of a comma no statement begins but one with several targets. -/
theorem not_before_comma (hn : (c.peekAt 1).kind = .comma) : (c.peekAt 1).kind ≠ .lbrace ∧
    ¬((c.peekAt 1).isName = true ∧ (c.peekAt 1).pos.line = (c.peekAt 0).pos.line ∧
      (c.peekAt 2).kind = .lbrace) ∧
    ¬((c.peekAt 1).kind = .assign ∨ (c.peekAt 1).kind = .colon) := by
  simp [hn, Token.isName]

/-- A value or a body behind a name. For several targets one has to go past all of them first, which the
list of targets has done in advance. -/
theorem Seeks.fails_blockOrAssignment (h : Seeks n c .blockOrAssignment y d)
    (hy : Search.Fails ⟨n, y, d⟩ m) : (blockOrAssignment (n + 1)).Stops c m := by
  simp only [blockOrAssignment]
  refine stops_peek (stops_peekAt 1 ?_)
  cases h with
  | blockBody hn => exact stops_if hn (stops_advance (stops_bind hy))
  | labelledBody hn hl h2 =>
    have hb : ¬(c.peekAt 1).kind = .lbrace := fun hb => by simp [Token.isName, hb] at hn
    exact stops_else hb (stops_peekAt 2 (stops_if ⟨hn, hl, h2⟩
      (stops_advance (stops_advance (stops_bind hy)))))
  | value hn =>
    have hb : ¬(c.peekAt 1).kind = .lbrace := by rcases hn with hn | hn <;> simp [hn]
    have hl : ¬(c.peekAt 1).isName = true := by rcases hn with hn | hn <;> simp [Token.isName, hn]
    exact stops_else hb (stops_peekAt 2 (stops_else (fun h => hl h.1) (stops_if hn
      (stops_advance (stops_advance (stops_bind hy))))))
  | firstValue hk hn ht =>
    obtain ⟨hb, hl, ha⟩ := not_before_comma hn
    refine stops_else hb (stops_peekAt 2 (stops_else hl (stops_else ha (stops_if hk
      (stops_get ?_)))))
    rw [ht]
    exact stops_set (stops_bind hy)
  | otherValues hk hn ht hf =>
    obtain ⟨hb, hl, ha⟩ := not_before_comma hn
    refine stops_else hb (stops_peekAt 2 (stops_else hl (stops_else ha (stops_if hk
      (stops_get ?_)))))
    rw [ht]
    exact stops_set (stops_behind hf (stops_bind hy))

/-- A value behind a comma, or one of those behind it. -/
theorem Seeks.fails_moreValues {limit : Nat} (h : Seeks n c (.moreValues limit) y d)
    (hy : Search.Fails ⟨n, y, d⟩ m) : (moreValues (n + 1) limit).Stops c m := by
  cases h with
  | nextValue hk =>
    simp only [moreValues]
    exact stops_eat hk (stops_bind hy)
  | valuesBehind hk hv =>
    simp only [moreValues]
    exact stops_eat hk (stops_behind hv (stops_bind hy))

/-- A condition, a body, or a link further on. -/
theorem Seeks.fails_control (h : Seeks n c .control y d) (hy : Search.Fails ⟨n, y, d⟩ m) :
    (Rule.control (n + 1)).Stops c m := by
  simp only [Rule.control]
  refine stops_advance ?_
  cases h with
  | branchCondition => exact stops_bind hy
  | branchBody hc => exact stops_behind hc (stops_bind hy)
  | branchesBehind hc hb => exact stops_behind hc (stops_behind hb (stops_bind hy))

/-- The link that follows, in each of the three spellings. -/
theorem Seeks.fails_elseChain (h : Seeks n c .elseChain y d) (hy : Search.Fails ⟨n, y, d⟩ m) :
    (elseChain (n + 1)).Stops c m := by
  simp only [elseChain]
  refine stops_get ?_
  cases h with
  | elseIf ha hk => exact stops_if ha (stops_skipComments (stops_peek (stops_if hk hy)))
  | elseThenIf ha hk hi =>
    exact stops_if ha (stops_skipComments (stops_peek (stops_else hk
      (stops_peekAt 1 (stops_if hi (stops_advance hy))))))
  | elseBody ha hk hi =>
    exact stops_if ha (stops_skipComments (stops_peek (stops_else hk
      (stops_peekAt 1 (stops_else hi (stops_advance (stops_bind hy)))))))

/-- The sign of a directive, its name, or what that name asks for. -/
theorem Seeks.fails_directive (h : Seeks n c .directive y d) (hy : Search.Fails ⟨n, y, d⟩ m) :
    (directive (n + 1)).Stops c m := by
  simp only [directive]
  cases h with
  | sign => exact stops_bind hy
  | directiveName hs => exact stops_expect hs (stops_bind hy)
  | included hs hk hn =>
    exact stops_expect hs (stops_expect hk (stops_if hn (stops_bind hy)))
  | openExec hs hk hn =>
    exact stops_expect hs (stops_expect hk
      (stops_else (by simp [hn]) (stops_if hn (stops_bind hy))))
  | execution hs hk hn hp =>
    exact stops_expect hs (stops_expect hk
      (stops_else (by simp [hn]) (stops_if hn (stops_expect hp hy))))
  | openPipeline hs hk hn =>
    exact stops_expect hs (stops_expect hk
      (stops_else (by simp [hn]) (stops_else (by simp [hn]) (stops_if hn (stops_bind hy)))))
  | pipeline hs hk hn hb =>
    exact stops_expect hs (stops_expect hk (stops_else (by simp [hn])
      (stops_else (by simp [hn]) (stops_if hn (stops_expect hb (stops_bind hy))))))

/-- The name of an argument, its equals sign or its value, or what follows it under each of the three
names. -/
theorem Seeks.fails_execArguments {sign : Token} {cmd args dir : Option Node}
    (h : Seeks n c (.execArguments sign cmd args dir) y d) (hy : Search.Fails ⟨n, y, d⟩ m) :
    (execArguments (n + 1) sign cmd args dir).Stops c m := by
  simp only [execArguments]
  refine stops_skipComments ?_
  -- A key is no closing parenthesis.
  have key : (c.skipComments.peekAt 0).kind = .ident → (c.skipComments.peekAt 0).kind ≠ .rparen :=
    fun hk => by simp [hk]
  cases h with
  | key hp => exact stops_not_eat hp (stops_bind hy)
  | equals hk => exact stops_not_eat (key hk) (stops_expect hk (stops_bind hy))
  | argument hk ha =>
    exact stops_not_eat (key hk) (stops_expect hk (stops_expect ha (stops_bind hy)))
  | behindCmd hk ha hv hn =>
    exact stops_not_eat (key hk) (stops_expect hk (stops_expect ha (stops_behind hv
      (stops_if hn hy))))
  | behindArgs hk ha hv hn =>
    exact stops_not_eat (key hk) (stops_expect hk (stops_expect ha (stops_behind hv
      (stops_else (by simp [hn]) (stops_if hn hy)))))
  | behindDir hk ha hv hn =>
    exact stops_not_eat (key hk) (stops_expect hk (stops_expect ha (stops_behind hv
      (stops_else (by simp [hn]) (stops_else (by simp [hn]) (stops_if hn hy))))))

/-- An argument behind a comma, or the bracket that closes the arguments. -/
theorem Seeks.fails_moreExecArguments {sign : Token} {cmd args dir : Option Node}
    (h : Seeks n c (.moreExecArguments sign cmd args dir) y d) (hy : Search.Fails ⟨n, y, d⟩ m) :
    (moreExecArguments (n + 1) sign cmd args dir).Stops c m := by
  simp only [moreExecArguments]
  refine stops_skipComments ?_
  cases h with
  | nextArgument hc => exact stops_eat hc hy
  | closeExec hc => exact stops_not_eat hc (stops_bind hy)

/-- In a pipeline an arrow is ahead. -/
theorem stops_pipelineItems_of_arrow {relation : Option Relation}
    (hk : (c.skipSeparators.peekAt 0).isName = true)
    (ha : arrowAhead? c.skipSeparators = some relation)
    (h : (do let first ← arrow n relation
             return first :: (← pipelineItems n)).Stops c.skipSeparators m) :
    (pipelineItems (n + 1)).Stops c m := by
  simp only [pipelineItems]
  refine stops_skipSeparators (stops_peek ?_)
  rcases Token.isName_iff.1 hk with hk | hk
  all_goals
    rw [hk]
    refine stops_get ?_
    rw [ha]
    exact h

/-- In a pipeline a name is ahead that begins no arrow. -/
theorem stops_pipelineItems_of_name (hk : (c.skipSeparators.peekAt 0).isName = true)
    (ha : arrowAhead? c.skipSeparators = none)
    (h : (if (c.skipSeparators.peekAt 1).kind = .assign ∨ (c.skipSeparators.peekAt 1).kind = .colon
          then do
            let first ← blockOrAssignment n
            return first :: (← pipelineItems n)
          else fail (c.skipSeparators.peekAt 0) .pipelineStep).Stops c.skipSeparators m) :
    (pipelineItems (n + 1)).Stops c m := by
  simp only [pipelineItems]
  refine stops_skipSeparators (stops_peek ?_)
  rcases Token.isName_iff.1 hk with hk | hk
  all_goals
    rw [hk]
    refine stops_get ?_
    rw [ha]
    exact stops_peekAt 1 h

/-- An arrow or an assignment, or the items behind one. -/
theorem Seeks.fails_pipelineItems (h : Seeks n c .pipelineItems y d)
    (hy : Search.Fails ⟨n, y, d⟩ m) : (pipelineItems (n + 1)).Stops c m := by
  cases h with
  | behindComment hk =>
    simp only [pipelineItems]
    refine stops_skipSeparators (stops_peek ?_)
    rw [hk]
    exact stops_advance (stops_bind hy)
  | route hk ha => exact stops_pipelineItems_of_arrow hk ha (stops_bind hy)
  | behindRoute hk ha hf =>
    exact stops_pipelineItems_of_arrow hk ha (stops_behind hf (stops_bind hy))
  | step hk ha hn => exact stops_pipelineItems_of_name hk ha (stops_if hn (stops_bind hy))
  | behindStep hk ha hn hf =>
    exact stops_pipelineItems_of_name hk ha (stops_if hn (stops_behind hf (stops_bind hy)))

/-- **A search fails with what it comes to.** If it looks for something and that is refused, then nothing
else is tried in its place. -/
theorem Search.LooksFor.fails {s s' : Search} (h : s.LooksFor s') (hs : s'.Fails m) : s.Fails m := by
  cases h with
  | alone => exact stops_bind hs
  | @inside n c d x y h =>
    cases x with
    | token => cases h
    | name => cases h
    | loneExpression => cases h
    | document => exact h.fails_document hs
    | expression => exact h.fails_expression hs
    | binary => exact h.fails_binary hs
    | climb => exact h.fails_climb hs
    | unary => exact h.fails_unary hs
    | members => exact h.fails_members hs
    | primary => exact h.fails_primary hs
    | items => exact h.fails_items hs
    | body => exact h.fails_body hs
    | bodyItems => exact h.fails_bodyItems hs
    | statement => exact h.fails_statement hs
    | arrow => exact h.fails_arrow hs
    | blockOrAssignment => exact h.fails_blockOrAssignment hs
    | moreValues => exact h.fails_moreValues hs
    | control => exact h.fails_control hs
    | elseChain => exact h.fails_elseChain hs
    | directive => exact h.fails_directive hs
    | execArguments => exact h.fails_execArguments hs
    | moreExecArguments => exact h.fails_moreExecArguments hs
    | pipelineItems => exact h.fails_pipelineItems hs

end Fails

/-! ## 5. A search fails with what it refuses -/

section Refuses

variable {n : Nat} {c : Cursor} {t : Token} {fault : SyntaxFault}

/-- A token that is refused where an operand is looked for is what the operand fails at, with the fault it
is refused for. -/
theorem Search.fails_primary (h : Search.Refuses ⟨n + 1, .primary, c⟩ t fault) :
    (primary (n + 1)).Stops c ⟨fault, t.pos⟩ := by
  simp only [primary]
  refine stops_peek ?_
  cases h with
  | operand hk => cases hkind : (c.peekAt 0).kind <;> first | rfl | simp [hkind, Kind.startsOperand] at hk
  | number hk hv =>
    rw [hk]
    refine stops_advance ?_
    rw [hv]
    rfl

/-- The same of a statement. -/
theorem Search.fails_statement (h : Search.Refuses ⟨n + 1, .statement, c⟩ t fault) :
    (statement (n + 1)).Stops c ⟨fault, t.pos⟩ := by
  simp only [statement]
  refine stops_peek ?_
  cases h with
  | strayElse hk => rcases hk with hk | hk <;> rw [hk] <;> rfl
  | statement hk hi he =>
    cases hkind : (c.peekAt 0).kind <;>
      first | rfl | exact absurd hkind hi | exact absurd hkind he | simp [hkind, Kind.startsStatement] at hk

/-- A statement that begins with a name fails at that name when nothing goes on from it, and at the equals
sign when its targets and values do not match. -/
theorem Search.fails_blockOrAssignment (h : Search.Refuses ⟨n + 1, .blockOrAssignment, c⟩ t fault) :
    (blockOrAssignment (n + 1)).Stops c ⟨fault, t.pos⟩ := by
  simp only [blockOrAssignment]
  refine stops_peek (stops_peekAt 1 ?_)
  cases h with
  | blockOrAssignment hb hl ha hk =>
    exact stops_else hb (stops_peekAt 2 (stops_else hl (stops_else ha (stops_else hk rfl))))
  | targetCount hk hn ht hf ho hl h1 =>
    obtain ⟨hb, hlabel, ha⟩ := not_before_comma hn
    refine stops_else hb (stops_peekAt 2 (stops_else hlabel (stops_else ha (stops_if hk
      (stops_get ?_)))))
    rw [ht]
    exact stops_set (stops_behind hf (stops_behind ho (stops_else hl (stops_else h1 rfl))))

/-- An item of a pipeline is refused at its first token, also where the rest of it is well written. -/
theorem Search.fails_pipelineItems (h : Search.Refuses ⟨n + 1, .pipelineItems, c⟩ t fault) :
    (pipelineItems (n + 1)).Stops c ⟨fault, t.pos⟩ := by
  cases h with
  | pipelineStep hk ha hn => exact stops_pipelineItems_of_name hk ha (stops_else hn rfl)
  | unclosedPipeline hk =>
    simp only [pipelineItems]
    refine stops_skipSeparators (stops_peek ?_)
    rw [hk]
    rfl
  | pipeline hb hc hn he =>
    simp only [pipelineItems]
    refine stops_skipSeparators (stops_peek ?_)
    cases hkind : (c.skipSeparators.peekAt 0).kind <;>
      first | rfl | exact absurd hkind hb | exact absurd hkind hc | exact absurd hkind he |
        simp [hkind, Token.isName] at hn

/-- **A search that refuses a token fails there,** with the fault that goes with the way in which it
refuses. What it has passed before, such as the name in front of a missing sign, is part of the refusal. -/
theorem Search.Refuses.fails {s : Search} (h : s.Refuses t fault) : s.Fails ⟨fault, t.pos⟩ := by
  -- Each way to refuse a token is a way through one of the rules: the tests before it fail, and the
  -- last one has no branch for the token.
  cases h with
  | token hk => exact stops_peek (stops_else hk rfl)
  | name hk => exact stops_peek (stops_else (by simp [hk]) rfl)
  | behindExpression hn hk =>
    exact stops_behind hn (stops_skipComments (stops_peek (stops_else hk rfl)))
  | operand hk => exact Search.fails_primary (.operand hk)
  | number hk hv => exact Search.fails_primary (.number hk hv)
  | unclosedBody hk =>
    simp only [Search.Fails, bodyItems]
    exact stops_skipSeparators (stops_not_eat (by simp [hk])
      (stops_peek (stops_if hk rfl)))
  | strayElse hk => exact Search.fails_statement (.strayElse hk)
  | statement hk hi he => exact Search.fails_statement (.statement hk hi he)
  | blockOrAssignment hb hl ha hk =>
    exact Search.fails_blockOrAssignment (.blockOrAssignment hb hl ha hk)
  | targetCount hk hn ht hf ho hl h1 =>
    exact Search.fails_blockOrAssignment (.targetCount hk hn ht hf ho hl h1)
  | directive hs hk hi he hp =>
    simp only [Search.Fails, Rule.directive]
    exact stops_expect hs (stops_expect hk (stops_else hi (stops_else he (stops_else hp rfl))))
  | argumentName hk ha hv hc hr hd =>
    simp only [Search.Fails, execArguments]
    exact stops_skipComments (stops_not_eat (by simp [hk])
      (stops_expect hk (stops_expect ha (stops_behind hv
        (stops_else hc (stops_else hr (stops_else hd rfl)))))))
  | noCommand hp =>
    simp only [Search.Fails, execArguments]
    exact stops_skipComments (stops_eat hp rfl)
  | noCommandBehind hp =>
    simp only [Search.Fails, moreExecArguments]
    exact stops_skipComments (stops_not_eat (by simp [hp])
      (stops_expect hp rfl))
  | pipelineStep hk ha hn => exact Search.fails_pipelineItems (.pipelineStep hk ha hn)
  | unclosedPipeline hk => exact Search.fails_pipelineItems (.unclosedPipeline hk)
  | pipeline hb hc hn he => exact Search.fails_pipelineItems (.pipeline hb hc hn he)

end Refuses

/-- **A chain of searches determines the error.** The search that it begins with fails with the fault that
is found at its end, at the place of the token that is refused. -/
theorem Search.fails_of_refuses {s s' : Search} {t : Token} {fault : SyntaxFault}
    (h : Relation.ReflTransGen Search.LooksFor s s') (ht : s'.Refuses t fault) :
    s.Fails ⟨fault, t.pos⟩ := by
  induction h using Relation.ReflTransGen.head_induction_on with
  | refl => exact ht.fails
  | head hstep _ ih => exact hstep.fails ih

end BlockConfig
