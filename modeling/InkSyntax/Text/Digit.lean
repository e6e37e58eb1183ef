namespace InkSyntax

/-!
# Digits

Numbers in base ten and in bases up to sixteen, where letters of either case go on
after nine.
-/

/-- The value of a hexadecimal digit. -/
def hexDigit? (digit : Char) : Option Nat :=
  if '0' ≤ digit ∧ digit ≤ '9' then some (digit.toNat - '0'.toNat)
  else if 'a' ≤ digit ∧ digit ≤ 'f' then some (digit.toNat - 'a'.toNat + 10)
  else if 'A' ≤ digit ∧ digit ≤ 'F' then some (digit.toNat - 'A'.toNat + 10)
  else none

/-- The value of a digit in some base. -/
def digit? (base : Nat) (digit : Char) : Option Nat := (hexDigit? digit).filter (· < base)

/-- The value of digits in some base, if they all are digits there; no digits are zero. -/
def digitsValue? (base : Nat) (digits : List Char) : Option Nat :=
  digits.foldlM (fun value digit => do return value * base + (← digit? base digit)) 0

end InkSyntax
