import BlockConfig.Decimal.Reader
import BlockConfig.Value

/-!
Values as numbers.

Integers and floats are numbers, and so is a string that reads as one once blanks around it are
dropped. An integer is preferred: a text is a float only if it is no 64-bit integer.
-/

set_option autoImplicit false

namespace BlockConfig

/-- A number. -/
inductive Number where
  | int (value : Int64)
  | float (value : Float)
deriving DecidableEq

namespace Number

/-- The nearest float. -/
def toFloat : Number → Float
  | int i => Decimal.ofInt64 i
  | float x => x

/-- The integer part, within 64 bits. -/
def toInt64 : Number → Int64
  | int i => i
  | float x => Decimal.truncateToInt64 x

/-- Whether a number is zero. -/
def isZero : Number → Bool
  | int i => i == 0
  | float x => x == 0

/-- A number as a value. -/
def toValue : Number → Value
  | int i => .int i
  | float x => .float x

/-- The number that a text spells, blanks around it aside. -/
def ofText? (s : String) : Option Number :=
  let cs := Text.trimChars s.toList
  match Decimal.readInt64? cs with
  | some i => some (int i)
  | none => (Decimal.readFloat? cs).map float

end Number

/-- The number that a value is or spells. -/
def Value.toNumber? : Value → Option Number
  | .int i => some (.int i)
  | .float x => some (.float x)
  | .str s => Number.ofText? s
  | _ => none

end BlockConfig
