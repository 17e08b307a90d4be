import BlockConfig.Decimal.Binary

/-!
The shortest decimal that reads back as a given double.

All reals closer to a double than to its neighbours read back as it, and so do the two ends of that
interval if its significand is even. Among the decimals in the interval those with the fewest digits
are taken, and of these the one nearest to the double, the larger one in a tie. A decimal with `n`
digits in the interval exists exactly if one of the two neighbours of the double on the grid of such
decimals lies in it, so for each number of digits only those two are tested.
-/

set_option autoImplicit false

namespace BlockConfig.Decimal

/-- The decimal number `0.d₁d₂… * 10 ^ point`, given by its digits `d₁d₂…`. -/
structure Digits where
  digits : List Char
  point : Int
deriving DecidableEq, Repr

/-- The decimal digits of a natural number, the most significant one first. -/
def natDigits (n : Nat) : List Char :=
  Nat.toDigits 10 n

/-- An interval of positive rationals around a value, all over one denominator. The ends belong to
the interval if it is closed. -/
structure Interval where
  low : Nat
  value : Nat
  high : Nat
  denominator : Nat
  closed : Bool

namespace Interval

/-- The reals that read back as a positive double. -/
def ofBinary (b : Binary) : Interval :=
  -- Quarters of the last place make all ends whole numbers.
  let gap := if b.narrow then 1 else 2
  let scale := Nat.pow 2 (b.exponent - 2).toNat
  { low := (4 * b.significand - gap) * scale
    value := 4 * b.significand * scale
    high := (4 * b.significand + 2) * scale
    denominator := Nat.pow 2 (2 - b.exponent).toNat
    closed := b.significand % 2 = 0 }

/-- Whether `n / m` lies in the interval. -/
def contains (i : Interval) (n m : Nat) : Bool :=
  if i.closed then i.low * m ≤ n * i.denominator && n * i.denominator ≤ i.high * m
  else i.low * m < n * i.denominator && n * i.denominator < i.high * m

/-- The exponent `e` with `10 ^ e ≤ value < 10 ^ (e + 1)`. -/
def decimalExponent (i : Interval) : Int :=
  if i.denominator ≤ i.value then (natDigits (i.value / i.denominator)).length - 1
  else -((natDigits (i.denominator / i.value)).length : Int)

/-- The multiple of `10 ^ k` in the interval that is nearest to the value, divided by `10 ^ k`. -/
def nearestMultiple? (i : Interval) (k : Int) : Option Nat :=
  let up := Nat.pow 10 k.toNat
  let down := Nat.pow 10 (-k).toNat
  let q := i.value * down / (i.denominator * up)
  let below := i.contains (q * up) down
  let above := i.contains ((q + 1) * up) down
  -- Of two candidates the nearer one counts, and in a tie the larger one.
  if below && above then
    if (2 * q + 1) * (i.denominator * up) ≤ 2 * (i.value * down) then some (q + 1) else some q
  else if below then some q
  else if above then some (q + 1)
  else none

/-- The first decimal found with `1`, `2`, … digits more than `17 - left`. -/
def search (i : Interval) (e : Int) : Nat → Nat × Int
  | 0 => (i.value / i.denominator, 0)
  | left + 1 =>
    let k := e - 16 + left
    match i.nearestMultiple? k with
    | some n => (n, k)
    | none => i.search e left

end Interval

/-- Digits without zeros at their end. -/
def dropZeros (ds : List Char) : List Char :=
  (ds.reverse.dropWhile (· == '0')).reverse

/-- The shortest decimal that reads back as a positive number. -/
def shortest (b : Binary) : Digits :=
  let i := Interval.ofBinary b
  let (n, k) := i.search i.decimalExponent 17
  let ds := natDigits n
  ⟨dropZeros ds, ds.length + k⟩

end BlockConfig.Decimal
