import InkSyntax.Decimal.Binary32

namespace InkSyntax

/-!
# Shortest decimals

The decimal written for a number has as few digits as possible so that reading
it gives the number back, and among those it is the nearest one.
-/

/-- The decimal `digits · 10 ^ exponent`. -/
structure Decimal where
  digits : Nat
  exponent : Int
  deriving DecidableEq, Repr

namespace Decimal

/-- A power as a quotient of naturals. -/
def powerQuotient (base : Nat) (exponent : Int) : Nat × Nat :=
  if 0 ≤ exponent then (Nat.pow base exponent.toNat, 1) else (1, Nat.pow base (-exponent).toNat)

/-- Number of decimal digits; zero has none. -/
def digitCount (number : Nat) : Nat :=
  if number = 0 then 0 else (Nat.toDigits 10 number).length

/-- The power of ten of the leading digit of a quotient that is not zero. -/
def leadingPower (numerator denominator : Nat) : Int :=
  if denominator ≤ numerator then (digitCount (numerator / denominator) : Int) - 1
  else -(digitCount ((denominator - 1) / numerator) : Int)

/-- Move trailing zeros into the exponent. -/
def trim (decimal : Decimal) : Nat → Decimal
  | 0 => decimal
  | rounds + 1 =>
      if decimal.digits ≠ 0 ∧ decimal.digits % 10 = 0 then
        trim ⟨decimal.digits / 10, decimal.exponent + 1⟩ rounds
      else decimal

/-- The stretch of numbers that round to one number, in units of `2 ^ power`.

Its ends belong to it if `closed`. -/
structure Basin where
  low : Nat
  centre : Nat
  high : Nat
  power : Int
  closed : Bool

/-- The numbers nearest to a finite number; below a power of two they are closer. -/
def basin (number : Binary32) : Basin where
  low :=
    if number.mantissa = Binary32.leadingBit ∧ -149 < number.exponent then 4 * number.mantissa - 1
    else 4 * number.mantissa - 2
  centre := 4 * number.mantissa
  high := 4 * number.mantissa + 2
  power := number.exponent - 2
  closed := number.mantissa % 2 == 0

/-- Whether a decimal lies in a basin. -/
def inBasin (decimal : Decimal) (basin : Basin) : Bool :=
  let (unit, unitParts) := powerQuotient 2 basin.power
  let (step, stepParts) := powerQuotient 10 decimal.exponent
  let value := decimal.digits * step * unitParts
  let low := basin.low * unit * stepParts
  let high := basin.high * unit * stepParts
  if basin.closed then decide (low ≤ value) && decide (value ≤ high)
  else decide (low < value) && decide (value < high)

/-- Which of two equally near decimals is chosen. -/
inductive Tie where
  | up
  | toEven
  deriving DecidableEq, Repr

/-- Whether the upper neighbour is chosen, by the place of a value between two neighbours.

The value lies `remainder / grid` above the lower neighbour, which has an odd last
digit if `isOdd`. -/
def Tie.choosesUpper (tie : Tie) (remainder grid : Nat) (isOdd : Bool) : Bool :=
  decide (grid < 2 * remainder) || 2 * remainder == grid && (tie == .up || isOdd)

/-- The nearest decimal in a basin with a given number of digits. -/
def withDigits? (tie : Tie) (basin : Basin) (leading : Int) (count : Nat) : Option Decimal :=
  let exponent := leading - (count : Int) + 1
  let (unit, unitParts) := powerQuotient 2 basin.power
  let (step, stepParts) := powerQuotient 10 exponent
  let value := basin.centre * unit * stepParts
  let grid := step * unitParts
  let below : Decimal := ⟨value / grid, exponent⟩
  let above : Decimal := ⟨value / grid + 1, exponent⟩
  let choosesAbove := tie.choosesUpper (value % grid) grid (below.digits % 2 == 1)
  match below.inBasin basin, above.inBasin basin with
  | true, true => some (if choosesAbove then above else below)
  | true, false => some below
  | false, true => some above
  | false, false => none

/-- The shortest decimal of a finite number. -/
def shortest (tie : Tie) (number : Binary32) : Decimal :=
  if number.code = 0 then ⟨0, 0⟩
  else
    let basin := basin number
    let (unit, unitParts) := powerQuotient 2 basin.power
    let leading := leadingPower (basin.centre * unit) unitParts
    let found := (List.range' 1 9).findSome? (withDigits? tie basin leading)
    (found.getD ⟨0, 0⟩).trim 10

end Decimal

end InkSyntax
