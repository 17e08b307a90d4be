import BlockConfig.Eval.Evaluate

/-!
Errors that only say what went wrong.

Most errors say what went wrong, and are raised by the node that it went wrong in. The others have a place
already or are about a text that could not be read. An operator, a condition, a call that is taken apart
or a command raises errors of the first kind only (`PlainResult`), so that whatever else comes out of a
node has come out of something that the node ran.
-/

set_option autoImplicit false

namespace BlockConfig

/-! ## 1. Plain results -/

/-- Whether an error only says what went wrong: it has no place, and it is not about a text that could
not be read. -/
def EvalError.isPlain : EvalError → Bool
  | parse _ | located .. => false
  | _ => true

/-- A result that is no error, or a plain one. -/
def PlainResult {α : Type} (r : Except EvalError α) : Prop :=
  ∀ e, r = .error e → e.isPlain = true

namespace PlainResult

variable {α β : Type}

theorem ok (a : α) : PlainResult (.ok a) := nofun

theorem error {e : EvalError} (h : e.isPlain = true) : PlainResult (.error e : Except EvalError α) := by
  rintro _ ⟨⟩
  exact h

/-- A result is plain if all that it depends on is. The lemmas below say of everything that is computed
outside of evaluation that it fails with errors of its own, never with one that was located or that came out
of an included document. -/
theorem bind {x : Except EvalError α} {f : α → Except EvalError β} (h : PlainResult x)
    (hf : ∀ a, PlainResult (f a)) : PlainResult (x >>= f) := by
  cases x with
  | error e => exact .error (h e rfl)
  | ok a => exact hf a

end PlainResult

/-! ## 2. Operators and members -/

namespace Value

variable (op : BinaryOp) (v l r : Value)

theorem plain_numeric : PlainResult (numeric op v) := by
  unfold numeric
  split
  · exact .ok _
  · exact .error rfl

theorem plain_checked (symbol : String) (i : Int) : PlainResult (checked symbol i) := by
  unfold checked
  split
  · exact .ok _
  · exact .error rfl

theorem plain_numericOp (ints : Int → Int → Int) (floats : Float → Float → Float) :
    PlainResult (numericOp op ints floats l r) := by
  refine .bind (plain_numeric op l) fun a => .bind (plain_numeric op r) fun b => ?_
  unfold onNumbers
  split
  · exact plain_checked _ _
  · exact .ok _

/-- An addition is refused or overflows, and both are said plainly. -/
theorem plain_add : PlainResult (add l r) := by
  unfold add
  split
  · exact .ok _
  · split
    · exact .ok _
    · exact .error rfl
  · split
    · exact .ok _
    · exact .error rfl
  · exact plain_numericOp _ _ _ _ _

/-- A division is refused for its operands or for a zero. -/
theorem plain_divide : PlainResult (divide l r) := by
  refine .bind (plain_numeric .div l) fun a => .bind (plain_numeric .div r) fun b => ?_
  by_cases zero : b.isZero = true
  · rw [if_pos zero]
    exact .error rfl
  · rw [if_neg zero]
    split
    · split
      · exact .error rfl
      · split <;> exact .ok _
    · exact .ok _

theorem plain_remainder : PlainResult (remainder l r) := by
  refine .bind (plain_numeric .mod l) fun a => .bind (plain_numeric .mod r) fun b => ?_
  dsimp only
  split
  · exact .error rfl
  · split
    · exact .error rfl
    · exact .ok _

theorem plain_compare : PlainResult (compare op l r) := by
  unfold compare
  split
  · exact .ok _
  · split
    · exact .ok _
    · exact .error rfl

theorem plain_logical : PlainResult (logical op l r) := by
  unfold logical
  split
  · exact .ok _
  · exact .error rfl

theorem plain_shift (f : Int64 → Int64 → Int64) : PlainResult (shift op f l r) := by
  refine .bind (plain_numeric op l) fun a => .bind (plain_numeric op r) fun b => ?_
  dsimp only
  split
  · exact .ok _
  · exact .error rfl

/-- Operators raise plain errors. -/
theorem plain_binary : PlainResult (binary op l r) := by
  have bits (f : Int64 → Int64 → Int64) : PlainResult (bitwise op f l r) :=
    .bind (plain_numeric op l) fun a => .bind (plain_numeric op r) fun b => .ok _
  cases op with
  | add => exact plain_add l r
  | sub | mul => exact plain_numericOp _ _ _ _ _
  | div => exact plain_divide l r
  | mod => exact plain_remainder l r
  | eq | ne | coalesce => exact .ok _
  | lt | le | gt | ge => exact plain_compare _ _ _
  | and | or => exact plain_logical _ _ _
  | bitAnd | bitOr | bitXor => exact bits _
  | shl | shr => exact plain_shift _ _ _ _

/-- A prefix operator refuses its operand or overflows. -/
theorem plain_unary (op : UnaryOp) : PlainResult (unary op v) := by
  unfold unary negate
  split
  · dsimp only
    split
    · exact plain_checked _ _
    · exact .ok _
    · exact .error rfl
  · split
    · exact .ok _
    · exact .error rfl

/-- A member is refused when there is none of that name. -/
theorem plain_member (name : String) (scope : Scope) (envValue? : String → Option String) :
    PlainResult (v.member name scope envValue?) := by
  unfold member
  split
  · exact .ok _
  · exact .ok _
  · split
    · exact .ok _
    · exact .error rfl
  · exact .ok _
  · exact .error rfl

/-- The message of a failed call becomes an error of its own. What it says may come from anywhere; the error
is still a plain one. -/
theorem plain_unwrapCall (n : Node) : PlainResult (v.unwrapCall n) := by
  unfold unwrapCall
  split
  · split
    · exact .ok _
    · exact .error rfl
  · exact .ok _

/-- An element is refused when there are too few. -/
theorem plain_element (index : Nat) : PlainResult (v.element index) := by
  unfold element
  split
  · split
    · exact .ok _
    · exact .error rfl
  · split
    · exact .ok _
    · exact .error rfl
  · split
    · exact .ok _
    · exact .error rfl

end Value

/-! ## 3. What nodes do with values -/

namespace Eval

theorem plain_choose (v : Value) : PlainResult (choose v) := by
  unfold choose
  split
  · exact .ok _
  · exact .ok _
  · exact .ok _
  · exact .error rfl

theorem plain_holds (v : Value) : PlainResult (holds v) := by
  unfold holds
  split
  · exact .ok _
  · exact .error rfl

/-- A function is refused when none has the name. -/
theorem plain_function (src : Source) (name : String) : PlainResult (function src name) := by
  unfold function
  split
  · exact .ok _
  · exact .error rfl

/-- A step of a pipeline that failed is said to have, by its name. -/
theorem plain_stepResult (name : String) (v : Value) : PlainResult (stepResult name v) := by
  unfold stepResult
  split
  · split
    · exact .ok _
    · exact .error rfl
  · exact .ok _

theorem plain_programOf (v : Value) : PlainResult (programOf v) := by
  unfold programOf
  split
  · split
    · exact .error rfl
    · exact .ok _
  · exact .error rfl

theorem plain_directoryOf (src : Source) (v : Value) : PlainResult (directoryOf src v) := by
  unfold directoryOf
  split
  · exact .ok _
  · exact .ok _
  · exact .ok _
  · exact .error rfl

end Eval

end BlockConfig
