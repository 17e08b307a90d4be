import BlockConfig.Decimal.Writer
import BlockConfig.Table
import BlockConfig.Text.Search

/-!
The values that evaluation produces.

A block is a table with three reserved entries: its kind under `__type`, its label under `__label`
and its properties under `props`. Any table with the entry `__type` counts as a block. A tuple is
what a function call gives before it is used as a value: the result and the error, one of which is
null. `undefined` is what an unknown name means; it is not the same as null.
-/

set_option autoImplicit false

namespace BlockConfig

/-- The values of the language. -/
inductive Value where
  | undefined
  | null
  | bool (value : Bool)
  | int (value : Int64)
  | float (value : Float)
  | str (value : String)
  | list (items : List Value)
  | map (entries : List (String × Value))
  | tuple (items : List Value)
  /-- What the name `env` means on its own. -/
  | env
deriving Inhabited

/-- The key that holds the kind of a block. -/
def typeKey : String := "__type"

/-- The key that holds the label of a block. -/
def labelKey : String := "__label"

/-- The key that holds the properties of a block. -/
def propsKey : String := "props"

/-- Whether a table is a block. -/
def isBlockTable (entries : Table Value) : Bool :=
  Table.contains entries typeKey

/-- Keys with this beginning are internal. -/
def isReservedKey (key : String) : Bool :=
  (Text.dropPrefix? ['_', '_'] key.toList).isSome

namespace Value

/-! ## Making values -/

/-- The block of a kind with a label and properties. -/
def block (kind label : String) (props : Table Value) : Value :=
  map (Table.ofEntries [(typeKey, str kind), (labelKey, str label), (propsKey, map props)])

/-- The tuple that a call gives: its result and its error. -/
def ofCall : Except String Value → Value
  | .ok v => tuple [v, null]
  | .error message => tuple [null, str message]

/-! ## Looking at values -/

/-- The name of a value's type. -/
def typeName : Value → String
  | undefined => "undefined"
  | null => "null"
  | bool _ => "bool"
  | int _ => "int"
  | float _ => "float"
  | str _ => "string"
  | list _ => "list"
  | map entries => if isBlockTable entries then "block" else "map"
  | tuple _ => "tuple"
  | env => "env"

/-- Whether a value is `undefined`. -/
def isUndefined : Value → Bool
  | undefined => true
  | _ => false

/-- Whether a value counts as missing. -/
def isNullish : Value → Bool
  | undefined | null => true
  | _ => false

/-- Whether a value is a block. -/
def isBlock : Value → Bool
  | map entries => isBlockTable entries
  | _ => false

/-- The truth value that a value is. -/
def toBool? : Value → Option Bool
  | bool b => some b
  | _ => none

/-- The string that a value is. -/
def toStr? : Value → Option String
  | str s => some s
  | _ => none

/-- The table that a value is. -/
def toTable? : Value → Option (Table Value)
  | map entries => some entries
  | _ => none

/-- The list that a value is. -/
def toList? : Value → Option (List Value)
  | list items => some items
  | _ => none

/-- The integer that a value is; a float without fraction counts. -/
def toInt64? : Value → Option Int64
  | int i => some i
  | float x => if Decimal.isWhole x then some (Decimal.truncateToInt64 x) else none
  | _ => none

/-- The number that a value is, as a float. -/
def toFloat? : Value → Option Float
  | int i => some (Decimal.ofInt64 i)
  | float x => some x
  | _ => none

/-! ## Printed form -/

mutual

/-- The text of a value in strings and messages. -/
def print : Value → String
  | undefined => ""
  | null => "null"
  | bool true => "true"
  | bool false => "false"
  | int i => Decimal.intText i
  | float x => Decimal.printedText x
  | str s => s
  | list items => "[" ++ printItems items ++ "]"
  | tuple items => "[" ++ printItems items ++ "]"
  | map entries => "\x7b" ++ printEntries entries ++ "\x7d"
  | env => "env"

/-- The texts of values with commas between them. -/
def printItems : List Value → String
  | [] => ""
  | [v] => v.print
  | v :: w :: vs => v.print ++ ", " ++ printItems (w :: vs)

/-- The texts of entries with commas between them. -/
def printEntries : List (String × Value) → String
  | [] => ""
  | [(k, v)] => k ++ ": " ++ v.print
  | (k, v) :: e :: es => k ++ ": " ++ v.print ++ ", " ++ printEntries (e :: es)

end

/-! ## Sameness -/

mutual

/-- Whether two values are the same: of the same type and with the same content. Floats are compared
as numbers, so that not-a-number differs from itself and the two zeros are the same. -/
def same : Value → Value → Bool
  | undefined, undefined => true
  | null, null => true
  | bool a, bool b => a == b
  | int a, int b => a == b
  | float a, float b => a == b
  | str a, str b => a == b
  | list as, list bs => sameItems as bs
  | map as, map bs => sameEntries as bs
  | tuple as, tuple bs => sameItems as bs
  | env, env => true
  | _, _ => false

/-- Whether two lists have the same values in the same places. -/
def sameItems : List Value → List Value → Bool
  | [], [] => true
  | a :: as, b :: bs => same a b && sameItems as bs
  | _, _ => false

/-- Whether two tables have the same entries. -/
def sameEntries : List (String × Value) → List (String × Value) → Bool
  | [], [] => true
  | (k, a) :: as, (k', b) :: bs => k == k' && same a b && sameEntries as bs
  | _, _ => false

end

end Value

end BlockConfig
