/-!
Floating-point numbers as exact fractions.

A finite double is a whole number times a power of two (`Binary`). Everything that has to be exact
-- cutting off the fraction, telling whether there is one, finding the shortest decimal text -- is
done on that form in whole-number arithmetic.
-/

set_option autoImplicit false

namespace BlockConfig.Decimal

/-- The finite number `± significand * 2 ^ exponent`. It is `narrow` when the next smaller double is
only half as far away as the next larger one. -/
structure Binary where
  negative : Bool
  significand : Nat
  exponent : Int
  narrow : Bool
deriving DecidableEq, Repr

/-- The exact value of a finite double; nothing for infinities and for what is not a number. -/
def decode (x : Float) : Option Binary :=
  let bits := x.toBits.toNat
  let negative : Bool := bits / Nat.pow 2 63 = 1
  let biased : Nat := bits / Nat.pow 2 52 % 2048
  let fraction : Nat := bits % Nat.pow 2 52
  -- The largest exponent marks what is not finite, the smallest one the numbers next to zero.
  if biased = 2047 then none
  else if biased = 0 then some ⟨negative, fraction, -1074, false⟩
  else some ⟨negative, fraction + Nat.pow 2 52, (biased : Int) - 1075, fraction = 0 ∧ 1 < biased⟩

/-- Positive infinity. -/
def infinity : Float := Float.ofBits 0x7ff0000000000000

/-- Not a number. -/
def notANumber : Float := Float.ofBits 0x7ff8000000000000

namespace Binary

/-- The size of the number without its fraction. -/
def truncatedSize (b : Binary) : Nat :=
  if 0 ≤ b.exponent then b.significand * Nat.pow 2 b.exponent.toNat
  else b.significand / Nat.pow 2 (-b.exponent).toNat

/-- The number without its fraction, which is cut off toward zero. -/
def truncated (b : Binary) : Int :=
  if b.negative then -(b.truncatedSize : Int) else b.truncatedSize

/-- Whether the number has no fraction. -/
def isWhole (b : Binary) : Bool :=
  0 ≤ b.exponent || b.significand % Nat.pow 2 (-b.exponent).toNat = 0

end Binary

/-- Whether a double is finite and has no fraction. -/
def isWhole (x : Float) : Bool :=
  (decode x).any Binary.isWhole

/-- Whether an integer fits into 64 bits. -/
def fitsInt64 (i : Int) : Bool :=
  Int64.minValue.toInt ≤ i && i ≤ Int64.maxValue.toInt

/-- The nearest 64-bit integer to `i`. -/
def clampInt64 (i : Int) : Int64 :=
  if fitsInt64 i then Int64.ofInt i else if i < 0 then Int64.minValue else Int64.maxValue

/-- A double without its fraction as a 64-bit integer: numbers beyond the range become its nearest
end, and what is not a number becomes zero. -/
def truncateToInt64 (x : Float) : Int64 :=
  match decode x with
  | some b => clampInt64 b.truncated
  | none => if x.isNaN then 0 else if x < 0 then Int64.minValue else Int64.maxValue

/-- The double nearest to a 64-bit integer. -/
def ofInt64 (i : Int64) : Float :=
  Float.ofInt i.toInt

end BlockConfig.Decimal
