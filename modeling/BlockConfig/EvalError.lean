import BlockConfig.Operator
import BlockConfig.ParseError

/-!
Why an evaluation failed.

An error is a cause, with what its message mentions. The error of a statement also carries the place
of the statement: `locate` adds it, unless the error has a place already, so that only the innermost
statement is named. A text that could not be read carries its own place.
-/

set_option autoImplicit false

namespace BlockConfig

/-- An operation that does not fit the types or sizes of its operands. -/
inductive TypeFault where
  /-- A number was expected. -/
  | notNumeric (op : BinaryOp) (found : String)
  /-- Only strings and numbers can be joined to a string. -/
  | notJoinable (found : String)
  /-- The result does not fit into 64 bits. -/
  | overflow (symbol : String)
  /-- Two values that have no order. -/
  | notComparable (op : BinaryOp) (left right : String)
  /-- A shift by less than nothing or by more than 63 places. -/
  | shiftRange (amount : Int64)
  /-- A value that has no negative. -/
  | notNegatable (found : String)
  /-- A value that is neither true nor false, after `!`. -/
  | notBoolean (found : String)
  /-- A condition that is neither true nor false. -/
  | condition (construct : String) (found : String)
deriving DecidableEq, Repr

namespace TypeFault

/-- The message of a fault. -/
def message : TypeFault → String
  | notNumeric op found => "operator '" ++ op.symbol ++ "' expects numbers, got " ++ found
  | notJoinable found => "cannot add " ++ found ++ " to a string"
  | overflow symbol => "integer overflow in '" ++ symbol ++ "'"
  | notComparable op left right =>
    "cannot compare " ++ left ++ " with " ++ right ++ " using '" ++ op.symbol ++ "'"
  | shiftRange amount => "shift amount " ++ toString amount.toInt ++ " out of range"
  | notNegatable found => "cannot negate " ++ found
  | notBoolean found => "'!' expects a boolean, got " ++ found
  | condition construct found => construct ++ " condition must be a boolean, got " ++ found

end TypeFault

/-- Why a string could not be interpolated. -/
inductive InterpolationFault where
  | unmatched (text : String)
  | empty
  | unreadable (inner reason : String)
  | tooDeep
deriving DecidableEq, Repr

namespace InterpolationFault

/-- The message of a fault. -/
def message : InterpolationFault → String
  | unmatched text => "unmatched '$\x7b' in \"" ++ text ++ "\""
  | empty => "empty '$\x7b\x7d'"
  | unreadable inner reason => "cannot parse '" ++ inner ++ "': " ++ reason
  | tooDeep => "nested too deeply"

end InterpolationFault

/-- Why a document could not be included. -/
inductive InclusionFault where
  | notString (found : String)
  | remoteDisabled
  | notFound
  | unreadable (reason : String)
  | noneLeft
deriving DecidableEq, Repr

namespace InclusionFault

/-- The message of a fault. -/
def message : InclusionFault → String
  | notString found => "target must be a string, got " ++ found
  | remoteDisabled => "remote includes are disabled"
  | notFound => "file not found"
  | unreadable reason => reason
  | noneLeft => "every document is open already"

end InclusionFault

/-- Why a command gave no output. -/
inductive ExecFault where
  | command (found : String)
  | directory (found : String)
  | failed (reason : String)
deriving DecidableEq, Repr

namespace ExecFault

/-- The message of a fault. -/
def message : ExecFault → String
  | command found => "cmd must be a non-empty string, got " ++ found
  | directory found => "dir must be a string, got " ++ found
  | failed reason => reason

end ExecFault

/-- Why a pipeline stopped. -/
inductive PipelineFault where
  | unknownStep (name : String)
  | failed (step reason : String)
deriving DecidableEq, Repr

namespace PipelineFault

/-- The message of a fault. -/
def message : PipelineFault → String
  | unknownStep name => "unknown step '" ++ name ++ "'"
  | failed step reason => "step '" ++ step ++ "' failed: " ++ reason

end PipelineFault

/-- The errors of evaluation. -/
inductive EvalError where
  | type (fault : TypeFault)
  | unknownFunction (name : String)
  | divisionByZero
  | logical (op : BinaryOp) (left right : String)
  | dotAccess (found : String)
  | tupleIndex (index length : Nat)
  | interpolation (fault : InterpolationFault)
  | function (name message : String)
  | inclusion (target : String) (fault : InclusionFault)
  | circularInclusion (key : String)
  | exec (fault : ExecFault)
  | execDisabled
  | pipeline (fault : PipelineFault)
  | parse (error : ParseError)
  /-- The cause, in the statement of a file that begins at a position. -/
  | located (file : String) (pos : Position) (cause : EvalError)
deriving DecidableEq, Repr

namespace EvalError

/-- The message of an error. -/
def message : EvalError → String
  | type fault => "Type error: " ++ fault.message
  | unknownFunction name => "Unknown function: " ++ name
  | divisionByZero => "Division by zero"
  | logical op left right =>
    "Logical operator '" ++ op.symbol ++ "' requires boolean operands, got " ++ left ++ " and " ++
      right
  | dotAccess found => "Dot access on non-map type " ++ found
  | tupleIndex index length =>
    "Tuple index " ++ index.repr ++ " out of bounds for length " ++ length.repr
  | interpolation fault => "Interpolation error: " ++ fault.message
  | function name message => "Function '" ++ name ++ "' failed: " ++ message
  | inclusion target fault => "Include '" ++ target ++ "' failed: " ++ fault.message
  | circularInclusion key => "Circular include: " ++ key
  | exec fault => "Exec failed: " ++ fault.message
  | execDisabled => "@exec is disabled"
  | pipeline fault => "Pipeline error: " ++ fault.message
  | parse error => error.text
  | located file pos cause => file ++ ":" ++ pos.text ++ ": " ++ cause.message

/-- The error with the place of a statement, unless it has a place of its own. -/
def locate (file : String) (pos : Position) : EvalError → EvalError
  | located file' pos' cause => located file' pos' cause
  | parse error => parse error
  | cause => located file pos cause

/-- The error without places. -/
def root : EvalError → EvalError
  | located _ _ cause => cause.root
  | cause => cause

end EvalError

end BlockConfig
