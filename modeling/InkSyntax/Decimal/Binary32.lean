namespace InkSyntax

/-!
# Single-precision numbers

A `Binary32` is a finite number `mantissa · 2 ^ exponent`, or an infinity, as the
32-bit binary interchange format has them.  Reading a decimal picks the nearest
such number, and of two equally near ones the even one.
-/

/-- Quotient of two naturals to the nearest integer; a half goes to the even neighbour. -/
def roundDivEven (numerator denominator : Nat) : Nat :=
  let quotient := numerator / denominator
  let twice := 2 * (numerator % denominator)
  if denominator < twice || twice == denominator && quotient % 2 == 1 then quotient + 1
  else quotient

/-- A number of the 32-bit binary format: its sign, and the code of its magnitude.

Codes order magnitudes: `2 ^ 23` codes for each power of two, the least power
shared with zero and the subnormal numbers, and one code for infinity. -/
structure Binary32 where
  negative : Bool
  code : Nat
  deriving DecidableEq, Repr

namespace Binary32

/-- The first bit of a 24-bit mantissa; also how many codes a power of two has. -/
def leadingBit : Nat := 0x800000

/-- The code of infinity, above the codes of all finite numbers. -/
def infinityCode : Nat := 255 * leadingBit

def isInfinite (number : Binary32) : Bool := decide (infinityCode ≤ number.code)

def isZero (number : Binary32) : Bool := number.code == 0

/-- The number with the other sign. -/
def negate (number : Binary32) : Binary32 := { number with negative := !number.negative }

/-- The integer `m` of a finite magnitude `m · 2 ^ e`. -/
def mantissa (number : Binary32) : Nat :=
  if number.code < leadingBit then number.code else leadingBit + number.code % leadingBit

/-- The power `e` of a finite magnitude `m · 2 ^ e`. -/
def exponent (number : Binary32) : Int :=
  if number.code < leadingBit then -149 else ((number.code / leadingBit : Nat) : Int) - 150

/-- The power of two that stands for one unit of a 24-bit mantissa near a quotient. -/
def unitPower (numerator denominator : Nat) : Int :=
  let estimate : Int := (Nat.log2 numerator : Int) - Nat.log2 denominator
  let atLeast :=
    if 0 ≤ estimate then decide (denominator * Nat.pow 2 estimate.toNat ≤ numerator)
    else decide (denominator ≤ numerator * Nat.pow 2 (-estimate).toNat)
  max (-149) ((if atLeast then estimate else estimate - 1) - 23)

/-- The magnitude code nearest to a quotient. -/
def codeOfQuotient (numerator denominator : Nat) : Nat :=
  if numerator = 0 then 0
  else
    let unit := unitPower numerator denominator
    let mantissa :=
      if 0 ≤ unit then roundDivEven numerator (denominator * Nat.pow 2 unit.toNat)
      else roundDivEven (numerator * Nat.pow 2 (-unit).toNat) denominator
    min infinityCode ((unit + 149).toNat * leadingBit + mantissa)

/-- The number nearest to `± digits / 10 ^ places`. -/
def ofDecimal (negative : Bool) (digits places : Nat) : Binary32 :=
  ⟨negative, codeOfQuotient digits (Nat.pow 10 places)⟩

end Binary32

end InkSyntax
