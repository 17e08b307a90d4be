import BlockConfig.Token

/-!
The operators of expressions, their spelling and how strongly they bind.

A binary operator is written as a symbol; five of them may also be written as a word. The strength
of an operator is 1, 2 or 3; operators of one strength associate to the left. Member access and the
two unary operators bind more strongly than all of these.
-/

set_option autoImplicit false

namespace BlockConfig

/-- Operators between two operands. -/
inductive BinaryOp where
  | add | sub | mul | div | mod
  | eq | ne | gt | ge | lt | le
  | and | or
  | bitAnd | bitOr | bitXor | shl | shr
  | coalesce
deriving DecidableEq, Repr, Inhabited

namespace BinaryOp

/-- How strongly an operator binds: a larger number binds more strongly. -/
def strength : BinaryOp → Nat
  | mul | div | mod => 3
  | add | sub | lt | le | gt | ge | eq | ne | shl | shr => 2
  | bitAnd | bitXor | bitOr | or | and | coalesce => 1

/-- The spelling of an operator. -/
def symbol : BinaryOp → String
  | add => "+"
  | sub => "-"
  | mul => "*"
  | div => "/"
  | mod => "%"
  | eq => "=="
  | ne => "!="
  | gt => ">"
  | ge => ">="
  | lt => "<"
  | le => "<="
  | and => "&&"
  | or => "||"
  | bitAnd => "&"
  | bitOr => "|"
  | bitXor => "^"
  | shl => "<<"
  | shr => ">>"
  | coalesce => "??"

/-- All binary operators. -/
def all : List BinaryOp :=
  [add, sub, mul, div, mod, eq, ne, gt, ge, lt, le, and, or, bitAnd, bitOr, bitXor, shl, shr,
    coalesce]

/-- The operator with a given spelling. -/
def ofSymbol? (s : String) : Option BinaryOp :=
  all.find? fun op => op.symbol = s

/-- The operator that a word stands for. -/
def ofWord? (word : String) : Option BinaryOp :=
  if word = "add" then some add
  else if word = "subtract" then some sub
  else if word = "multiply" then some mul
  else if word = "divide" then some div
  else if word = "mod" then some mod
  else none

/-- The operator that a punctuation token stands for. -/
def ofKind? : Kind → Option BinaryOp
  | .plus => some add
  | .minus => some sub
  | .star => some mul
  | .slash => some div
  | .percent => some mod
  | .eq => some eq
  | .ne => some ne
  | .lt => some lt
  | .le => some le
  | .gt => some gt
  | .ge => some ge
  | .andAnd => some and
  | .orOr => some or
  | .amp => some bitAnd
  | .pipe => some bitOr
  | .caret => some bitXor
  | .shl => some shl
  | .shr => some shr
  | .coalesce => some coalesce
  | _ => none

/-- **Symbols are the tokens' symbols.** A punctuation token that stands for an operator is spelt
like the operator. -/
theorem symbol_of_ofKind? {k : Kind} {op : BinaryOp} (h : ofKind? k = some op) :
    op.symbol = k.symbol := by
  cases k <;> simp_all [ofKind?] <;> subst h <;> rfl

end BinaryOp

/-- Operators in front of one operand. -/
inductive UnaryOp where
  | neg | not
deriving DecidableEq, Repr, Inhabited

namespace UnaryOp

/-- The spelling of an operator. -/
def symbol : UnaryOp → String
  | neg => "-"
  | not => "!"

/-- The operator with a given spelling. -/
def ofSymbol? (s : String) : Option UnaryOp :=
  [neg, not].find? fun op => op.symbol = s

/-- The operator that a token stands for in front of an operand. -/
def ofKind? : Kind → Option UnaryOp
  | .minus => some neg
  | .bang => some not
  | _ => none

end UnaryOp

end BlockConfig
