import BlockConfig.Decimal.Binary
import BlockConfig.Text.Blank

/-!
How numbers are read.

An integer is an optional sign and digits, within 64 bits. A decimal is an optional sign and either
one of the words `inf`, `infinity` and `nan`, in any case, or digits with at most one point among,
before or after them, and an optional exponent. There is no other form: no digit groups, no
hexadecimal, no blanks.
-/

set_option autoImplicit false

namespace BlockConfig.Decimal

/-- The value of a decimal digit. -/
def digitValue (c : Char) : Nat :=
  c.toNat - '0'.toNat

/-- The number that a list of digits spells. -/
def digitsValue (ds : List Char) : Nat :=
  ds.foldl (fun n c => 10 * n + digitValue c) 0

/-- Whether a text is a sequence of digits, at least one. -/
def isDigits (cs : List Char) : Bool :=
  !cs.isEmpty && cs.all Char.isDigit

/-- The sign at the front of a text, and the rest; a missing sign is a plus. -/
def readSign : List Char → Bool × List Char
  | '-' :: cs => (true, cs)
  | '+' :: cs => (false, cs)
  | cs => (false, cs)

/-- An integer of any size: an optional sign and digits. -/
def readInt? (cs : List Char) : Option Int :=
  let (negative, ds) := readSign cs
  if isDigits ds then
    some (if negative then -(digitsValue ds : Int) else digitsValue ds)
  else none

/-- An integer of 64 bits. -/
def readInt64? (cs : List Char) : Option Int64 :=
  match readInt? cs with
  | some i => if fitsInt64 i then some (Int64.ofInt i) else none
  | none => none

/-- The double nearest to `n * 10 ^ e`. Exponents far outside the range of doubles are decided
without computing the power: `digits` bounds the digits of `n`. -/
def scale (n : Nat) (digits : Nat) (e : Int) : Float :=
  if n = 0 then 0
  else if 400 < e then infinity
  else if e + digits < -400 then 0
  else if 0 ≤ e then Float.ofScientific n false e.toNat
  else Float.ofScientific n true (-e).toNat

/-- An exponent after its mark. -/
def readExponent? : List Char → Option Int
  | [] => some 0
  | c :: cs => if c = 'e' ∨ c = 'E' then readInt? cs else none

/-- A decimal without sign. -/
def readSize? (cs : List Char) : Option Float :=
  let word := cs.map Char.toLower
  if word = "inf".toList ∨ word = "infinity".toList then some infinity
  else if word = "nan".toList then some notANumber
  else
    let whole := cs.takeWhile Char.isDigit
    let (fraction, rest) :=
      match cs.dropWhile Char.isDigit with
      | '.' :: rest => (rest.takeWhile Char.isDigit, rest.dropWhile Char.isDigit)
      | rest => ([], rest)
    -- The point only moves the exponent.
    let digits := whole ++ fraction
    if digits.isEmpty then none
    else
      (readExponent? rest).map fun e =>
        scale (digitsValue digits) digits.length (e - fraction.length)

/-- A decimal. -/
def readFloat? (cs : List Char) : Option Float :=
  let (negative, size) := readSign cs
  (readSize? size).map fun x => if negative then -x else x

end BlockConfig.Decimal
