import BlockConfig.EvalError
import BlockConfig.Value.Number

/-!
What the operators do with values.

Integer arithmetic is exact or an error, never wrapped. A quotient of integers is an integer if it
comes out even and a float otherwise. As soon as one operand is a float both are taken as floats;
only the remainder and the bitwise operators take integer parts instead. `+` joins strings, with
each other and with numbers. Order compares numbers as floats, and strings by code point where not
both spell numbers; equality never reads strings as numbers. The right side of `??` has been
evaluated here like any other operand.
-/

set_option autoImplicit false

namespace BlockConfig.Value

/-- The integer if it fits into 64 bits. -/
def checked (symbol : String) (i : Int) : Except EvalError Value :=
  if Decimal.fitsInt64 i then .ok (int (Int64.ofInt i))
  else .error (.type (.overflow symbol))

/-- An operand as a number. -/
def numeric (op : BinaryOp) (v : Value) : Except EvalError Number :=
  match v.toNumber? with
  | some n => .ok n
  | none => .error (.type (.notNumeric op v.typeName))

/-- An operation on two numbers: exact on integers, else on floats. -/
def onNumbers (op : BinaryOp) (ints : Int → Int → Int) (floats : Float → Float → Float) :
    Number → Number → Except EvalError Value
  | .int a, .int b => checked op.symbol (ints a.toInt b.toInt)
  | a, b => .ok (float (floats a.toFloat b.toFloat))

/-- An operation on two operands that have to be numbers. -/
def numericOp (op : BinaryOp) (ints : Int → Int → Int) (floats : Float → Float → Float)
    (l r : Value) : Except EvalError Value := do
  let a ← numeric op l
  let b ← numeric op r
  onNumbers op ints floats a b

/-- Whether a value is a number itself, not only a text that spells one. -/
def isNumber : Value → Bool
  | int _ | float _ => true
  | _ => false

/-- The sum of two numbers, or strings and numbers joined. -/
def add (l r : Value) : Except EvalError Value :=
  match l, r with
  | str a, str b => .ok (str (a ++ b))
  | str a, other =>
    if other.isNumber then .ok (str (a ++ other.print))
    else .error (.type (.notJoinable other.typeName))
  | other, str b =>
    if other.isNumber then .ok (str (other.print ++ b))
    else .error (.type (.notJoinable other.typeName))
  | l, r => numericOp .add (· + ·) (· + ·) l r

/-- The quotient of two numbers. -/
def divide (l r : Value) : Except EvalError Value := do
  let a ← numeric .div l
  let b ← numeric .div r
  if b.isZero then
    .error .divisionByZero
  else
    match a, b with
    | .int x, .int y =>
      -- The one quotient of 64-bit integers that is no 64-bit integer.
      if x = Int64.minValue ∧ y = -1 then .error (.type (.overflow "/"))
      else if Int.tmod x.toInt y.toInt = 0 then .ok (int (Int64.ofInt (Int.tdiv x.toInt y.toInt)))
      else .ok (float (Decimal.ofInt64 x / Decimal.ofInt64 y))
    | a, b => .ok (float (a.toFloat / b.toFloat))

/-- The remainder of the integer parts of two numbers, with the sign of the first. -/
def remainder (l r : Value) : Except EvalError Value := do
  let a := (← numeric .mod l).toInt64
  let b := (← numeric .mod r).toInt64
  if b = 0 then .error .divisionByZero
  else if a = Int64.minValue ∧ b = -1 then .error (.type (.overflow "%"))
  else .ok (int (Int64.ofInt (Int.tmod a.toInt b.toInt)))

/-- How two floats compare; not at all if one is not a number. -/
def compareFloats (x y : Float) : Option Ordering :=
  if x < y then some .lt
  else if x == y then some .eq
  else if y < x then some .gt
  else none

/-- How two strings compare, by code point. -/
def compareStrings (a b : String) : Ordering :=
  if a < b then .lt else if a = b then .eq else .gt

/-- Whether an ordering is what a comparison asks for. -/
def accepts : BinaryOp → Ordering → Bool
  | .lt, o => o == .lt
  | .le, o => o != .gt
  | .gt, o => o == .gt
  | _, o => o != .lt

/-- A comparison: of two numbers, or of two strings. -/
def compare (op : BinaryOp) (l r : Value) : Except EvalError Value :=
  match l.toNumber?, r.toNumber? with
  | some a, some b =>
    .ok (bool ((compareFloats a.toFloat b.toFloat).any (accepts op)))
  | _, _ =>
    -- Two strings of which at least one spells no number.
    match l, r with
    | str a, str b => .ok (bool (accepts op (compareStrings a b)))
    | l, r => .error (.type (.notComparable op l.typeName r.typeName))

/-- Both or one of two truth values. -/
def logical (op : BinaryOp) (l r : Value) : Except EvalError Value :=
  match l, r with
  | bool a, bool b => .ok (bool (if op = .and then a && b else a || b))
  | l, r => .error (.logical op l.typeName r.typeName)

/-- A bitwise operation on the integer parts of two numbers. -/
def bitwise (op : BinaryOp) (f : Int64 → Int64 → Int64) (l r : Value) : Except EvalError Value := do
  let a ← numeric op l
  let b ← numeric op r
  .ok (int (f a.toInt64 b.toInt64))

/-- A shift of the integer part of a number, by less than 64 places. -/
def shift (op : BinaryOp) (f : Int64 → Int64 → Int64) (l r : Value) : Except EvalError Value := do
  let a ← numeric op l
  let b := (← numeric op r).toInt64
  if 0 ≤ b.toInt ∧ b.toInt < 64 then .ok (int (f a.toInt64 b))
  else .error (.type (.shiftRange b))

mutual

/-- Equality of values: like sameness, but an integer equals the float with the same value, also
inside lists. -/
def equal : Value → Value → Bool
  | int a, float b => Decimal.ofInt64 a == b
  | float a, int b => Decimal.ofInt64 b == a
  | list as, list bs => equalItems as bs
  | a, b => same a b

/-- Equality of lists, value by value. -/
def equalItems : List Value → List Value → Bool
  | [], [] => true
  | a :: as, b :: bs => equal a b && equalItems as bs
  | _, _ => false

end

/-- An operator applied to two values. -/
def binary (op : BinaryOp) (l r : Value) : Except EvalError Value :=
  match op with
  | .add => add l r
  | .sub => numericOp .sub (· - ·) (· - ·) l r
  | .mul => numericOp .mul (· * ·) (· * ·) l r
  | .div => divide l r
  | .mod => remainder l r
  | .eq => .ok (bool (equal l r))
  | .ne => .ok (bool (!equal l r))
  | .lt | .le | .gt | .ge => compare op l r
  | .and | .or => logical op l r
  | .bitAnd => bitwise op (· &&& ·) l r
  | .bitOr => bitwise op (· ||| ·) l r
  | .bitXor => bitwise op (· ^^^ ·) l r
  | .shl => shift op (· <<< ·) l r
  | .shr => shift op (· >>> ·) l r
  | .coalesce => .ok (if l.isNullish then r else l)

/-- The negative of a number; a list of one number counts as the number. -/
def negate (v : Value) : Except EvalError Value :=
  let v := match v with
    | list [item] => item
    | v => v
  match v.toNumber? with
  | some (.int i) => checked "-" (-i.toInt)
  | some (.float x) => .ok (float (-x))
  | none => .error (.type (.notNegatable v.typeName))

/-- An operator applied to one value. -/
def unary (op : UnaryOp) (v : Value) : Except EvalError Value :=
  match op with
  | .neg => negate v
  | .not =>
    match v with
    | bool b => .ok (bool !b)
    | v => .error (.type (.notBoolean v.typeName))

end BlockConfig.Value
