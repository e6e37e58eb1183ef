import InkSyntax.Decimal.Shortest

namespace InkSyntax

/-!
# How numbers are written

A number is written by its shortest decimal, in full with at least one digit after
the point or with an exponent.  A style says which of the two, and which decimal
is taken if two are equally near.
-/

/-- A way to write numbers. -/
structure DecimalStyle where
  /-- The least power of ten of a leading digit that is written in full. -/
  least : Int
  /-- The least power above those that are written in full. -/
  beyond : Int
  tie : Decimal.Tie

/-- Numbers from 0.0001 up to, and without, ten to the sixteenth are written in full. -/
def DecimalStyle.script : DecimalStyle := ⟨-4, 16, .up⟩

/-- Numbers from 0.000001 up to, and without, ten to the thirteenth are written in full. -/
def DecimalStyle.structured : DecimalStyle := ⟨-6, 13, .toEven⟩

namespace Decimal

/-- Digits with a point after the first `whole` of them, filled up with zeros. -/
def plainText (digits : List Char) (whole : Int) : String :=
  if whole ≤ 0 then
    "0." ++ String.ofList (List.replicate (-whole).toNat '0' ++ digits)
  else
    let count := whole.toNat
    let front := digits.take count ++ List.replicate (count - digits.length) '0'
    let back := digits.drop count
    String.ofList (front ++ '.' :: if back.isEmpty then ['0'] else back)

/-- One digit, the others after a point, and the power of ten. -/
def exponentText (digits : List Char) (power : Int) : String :=
  let fraction := digits.drop 1
  let mantissa := digits.take 1 ++ if fraction.isEmpty then [] else '.' :: fraction
  s!"{String.ofList mantissa}e{power}"

/-- A decimal in full or with an exponent, by the power of its leading digit. -/
def display (style : DecimalStyle) (decimal : Decimal) : String :=
  let digits := Nat.toDigits 10 decimal.digits
  if decimal.digits = 0 then "0.0"
  else
    let power := decimal.exponent + digits.length - 1
    if style.least ≤ power ∧ power < style.beyond then
      plainText digits (power + 1)
    else exponentText digits power

end Decimal

/-- The shortest decimal of a number, after its sign. -/
def Binary32.write (style : DecimalStyle) (number : Binary32) : String :=
  let magnitude :=
    if number.isInfinite then "inf" else (Decimal.shortest style.tie number).display style
  if number.negative then "-" ++ magnitude else magnitude

/-- A number as scripts have it. -/
def Binary32.display (number : Binary32) : String := number.write .script

end InkSyntax
