import BlockConfig.Pattern.Parser
import BlockConfig.Registry
import BlockConfig.Value.Number

/-!
The functions that every engine begins with.

They are pure. An argument that should be a string may be any value and counts as its printed form;
an argument that should be a number may be a string that spells one. Positions and lengths count
characters.
-/

set_option autoImplicit false

namespace BlockConfig

namespace Builtin

/-- A function without memory. -/
abbrev Pure : Type := List Value → Reply

/-- A function that expects between `least` and `most` arguments. -/
def withArity (name : String) (least most : Nat) (f : Pure) : Pure := fun args =>
  if least ≤ args.length ∧ args.length ≤ most then f args
  else
    let expected := if least = most then least.repr else least.repr ++ "-" ++ most.repr
    .error (name ++ " expects " ++ expected ++ " argument(s), got " ++ args.length.repr)

/-- Argument `i`; `undefined` if there is none. -/
def arg (args : List Value) (i : Nat) : Value :=
  args.getD i .undefined

/-- The printed form of argument `i`, as characters. -/
def chars (args : List Value) (i : Nat) : List Char :=
  (arg args i).print.toList

/-- A string value. -/
def text (cs : List Char) : Value :=
  .str (String.ofList cs)

/-- An argument as an integer. -/
def integer (name : String) (v : Value) : Except String Int64 :=
  match v.toNumber? with
  | some n => .ok n.toInt64
  | none => .error (name ++ ": expected a number, got " ++ v.typeName)

/-- The outcome of a computation that may fail. -/
def reply : Except String Value → Reply
  | .ok v => .value v
  | .error message => .error message

/-! ## Tests -/

/-- Whether a value is defined. -/
def isDefined : Pure := withArity "isDefined" 1 1 fun args =>
  .value (.bool !(arg args 0).isUndefined)

/-- Whether a value counts as missing. -/
def isNull : Pure := withArity "isNull" 1 1 fun args =>
  .value (.bool (arg args 0).isNullish)

/-- Whether a value is missing or has nothing in it. -/
def isEmpty : Pure := withArity "isEmpty" 1 1 fun args =>
  .value <| .bool <| match arg args 0 with
    | .undefined | .null => true
    | .str s => s.isEmpty
    | .list items => items.isEmpty
    | .map entries => entries.isEmpty
    | _ => false

/-- Whether a text begins with another. -/
def startsWith : Pure := withArity "startsWith" 2 2 fun args =>
  .value (.bool (Text.dropPrefix? (chars args 1) (chars args 0)).isSome)

/-- Whether a text ends with another. -/
def endsWith : Pure := withArity "endsWith" 2 2 fun args =>
  .value (.bool (Text.dropPrefix? (chars args 1).reverse (chars args 0).reverse).isSome)

/-- Whether a pattern occurs in a text. -/
def doesMatch : Pure := withArity "matches" 2 2 fun args =>
  match Pattern.parse? (chars args 1) with
  | some p => .value (.bool (p.occursIn (chars args 0)))
  | none => .error "matches: regex parse error"

/-! ## Texts -/

/-- A text in upper case. -/
def upper : Pure := withArity "upper" 1 1 fun args =>
  .value (.str (Text.upper (arg args 0).print))

/-- A text in lower case. -/
def lower : Pure := withArity "lower" 1 1 fun args =>
  .value (.str (Text.lower (arg args 0).print))

/-- A text without blanks around it. -/
def trim : Pure := withArity "trim" 1 1 fun args =>
  .value (.str (Text.trim (arg args 0).print))

/-- A text with every occurrence of one text replaced by another. -/
def replace : Pure := withArity "replace" 3 3 fun args =>
  if (chars args 1).isEmpty then .error "replace: search string must not be empty"
  else .value (text (Text.replace (chars args 1) (chars args 2) (chars args 0)))

/-- A list or a text backwards. -/
def reverse : Pure := withArity "reverse" 1 1 fun args =>
  match arg args 0 with
  | .list items => .value (.list items.reverse)
  | v => .value (text v.print.toList.reverse)

/-- The characters from one position up to, but not including, another; positions past the end are
the end. -/
def substring : Pure := withArity "substring" 2 3 fun args => reply do
  let cs := chars args 0
  let start := (← integer "substring" (arg args 1)).toInt
  let stop ← match args[2]? with
    | some v => (integer "substring" v).map Int64.toInt
    | none => pure (cs.length : Int)
  if start < 0 ∨ stop < start then
    .error ("substring: invalid range " ++ toString start ++ ".." ++ toString stop)
  else
    .ok (text ((cs.take stop.toNat).drop start.toNat))

/-- The pieces of a text between the occurrences of another; its characters if that is empty. -/
def split : Pure := withArity "split" 2 2 fun args =>
  let cs := chars args 0
  let sep := chars args 1
  -- Nothing between the pieces means every character is one.
  let pieces := if sep.isEmpty then cs.map fun c => [c] else Text.splitOn sep cs
  .value (.list (pieces.map text))

/-- The values of a list as one text, with a separator between neighbours; any other value is its
text. -/
def join : Pure := withArity "join" 1 2 fun args =>
  let sep := match args[1]? with
    | some v => v.print.toList
    | none => []
  match arg args 0 with
  | .list items => .value (text (Text.joinWith sep (items.map fun v => v.print.toList)))
  | v => .value (.str v.print)

/-- How many values, entries or characters there are. -/
def length : Pure := withArity "length" 1 1 fun args =>
  let n := match arg args 0 with
    | .list items => items.length
    | .map entries => entries.length
    | .undefined | .null => 0
    | v => v.print.toList.length
  .value (.int (Int64.ofNat n))

/-- The position of the first occurrence of a text in another, or -1. -/
def index : Pure := withArity "index" 2 2 fun args =>
  match Text.find? (chars args 1) (chars args 0) with
  | some i => .value (.int (Int64.ofNat i))
  | none => .value (.int (-1))

/-- A text repeated a number of times. A result beyond the range of sizes breaks the call off. -/
def repeatText : Pure := withArity "repeat" 2 2 fun args =>
  match integer "repeat" (arg args 1) with
  | .error message => .error message
  | .ok n =>
    let n := n.toInt
    let s := (arg args 0).print
    if n < 0 then .error ("repeat: negative count " ++ toString n)
    else if s.isEmpty then .value (.str "")
    else if Nat.pow 2 63 ≤ s.utf8ByteSize * n.toNat then .abort "capacity overflow"
    else .value (text (List.replicate n.toNat s.toList).flatten)

/-! ## Conversions -/

/-- The printed form of a value. -/
def printed : Pure := withArity "toString" 1 1 fun args =>
  .value (.str (arg args 0).print)

/-- The number that a value is or spells. -/
def number : Pure := withArity "toNumber" 1 1 fun args =>
  let v := arg args 0
  match v.toNumber? with
  | some n => .value n.toValue
  | none => .error ("toNumber: cannot convert " ++ v.typeName ++ " '" ++ v.print ++ "'")

/-- The functions by the names under which they are known. -/
def all : List (String × Pure) :=
  [("isDefined", isDefined), ("isNull", isNull), ("isEmpty", isEmpty), ("upper", upper),
    ("lower", lower), ("trim", trim), ("replace", replace), ("reverse", reverse),
    ("substring", substring), ("split", split), ("join", join), ("length", length),
    ("len", length), ("index", index), ("startsWith", startsWith), ("endsWith", endsWith),
    ("repeat", repeatText), ("matches", doesMatch), ("toString", printed), ("toNumber", number)]

end Builtin

/-- The registry of a new engine. -/
def Registry.builtins : Registry :=
  Table.ofEntries (Builtin.all.map fun (name, f) => (Text.lower name, fun args m => (f args, m)))

end BlockConfig
