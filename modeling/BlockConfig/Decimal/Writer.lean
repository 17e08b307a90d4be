import BlockConfig.Decimal.Shortest

/-!
How numbers are written.

Two texts of a double are in use. A *printed* number is always positional, and a whole number below
`10 ^ 15` is printed like an integer. A *source* number is what stands in rendered documents: it
always shows that it is no integer, by a point or by an exponent, and uses an exponent from
`10 ^ 16` on and below `10 ^ -4`.
-/

set_option autoImplicit false

namespace BlockConfig.Decimal

/-- `n` zeros. -/
def zeros (n : Int) : List Char :=
  List.replicate n.toNat '0'

/-- A decimal in positional notation, with at least `places` digits after the point and no point if
there are none. -/
def positional (places : Nat) (d : Digits) : List Char :=
  let whole :=
    if d.point ≤ 0 then ['0']
    else d.digits.take d.point.toNat ++ zeros (d.point - d.digits.length)
  let fraction := zeros (-d.point) ++ d.digits.drop d.point.toNat
  let fraction := fraction ++ zeros (places - fraction.length)
  if fraction.isEmpty then whole else whole ++ '.' :: fraction

/-- A decimal with one digit before the point and an exponent. -/
def scientific (d : Digits) : List Char :=
  let fraction := d.digits.drop 1
  d.digits.take 1 ++ (if fraction.isEmpty then [] else '.' :: fraction) ++
    'e' :: (toString (d.point - 1)).toList

/-- A double as text: `body` writes the size of a number that is not zero. -/
def floatText (zero : String) (body : Digits → List Char) (x : Float) : String :=
  match decode x with
  | none => if x.isNaN then "NaN" else if x < 0 then "-inf" else "inf"
  | some b =>
    let size := if b.significand = 0 then zero else String.ofList (body (shortest b))
    if b.negative then "-" ++ size else size

/-- A double in positional notation with the fewest digits. -/
def positionalText (x : Float) : String :=
  floatText "0" (positional 0) x

/-- A double as documents write it. -/
def sourceText (x : Float) : String :=
  floatText "0.0"
    (fun d => if -4 < d.point ∧ d.point ≤ 16 then positional 1 d else scientific d) x

/-- A 64-bit integer in decimal. -/
def intText (i : Int64) : String :=
  toString i.toInt

/-- A double as it is printed: a whole number below `10 ^ 15` like an integer, so that zero has no
sign, and any other number in positional notation. -/
def printedText (x : Float) : String :=
  match decode x with
  | some b =>
    if b.isWhole && b.truncatedSize < Nat.pow 10 15 then toString b.truncated else positionalText x
  | none => positionalText x

end BlockConfig.Decimal
