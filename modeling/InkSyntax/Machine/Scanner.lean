import InkSyntax.Machine.Cursor
import InkSyntax.Text.Alphabet

namespace InkSyntax

/-!
# Raw scanners

A scanner looks at the text that follows a cursor and says what it found and how
many characters that took.  It never moves a cursor itself, so a scanner that
finds nothing leaves no trace.
-/

/-- A reading of the front of a text, with its length. -/
abbrev Scanner (α : Type) := List Char → Option (α × Nat)

namespace Scanner

variable {α : Type}

/-- Exactly the given characters. -/
def exactly (expected : List Char) : Scanner Unit := fun rest =>
  if expected.isPrefixOf rest then some ((), expected.length) else none

/-- Any one character. -/
def anyChar : Scanner Char
  | [] => none
  | character :: _ => some (character, 1)

/-- A non-empty run of accepted characters, at most `limit` of them. -/
def charsAtMost (limit : Nat) (accept : Char → Bool) : Scanner String := fun rest =>
  match (rest.take limit).takeWhile accept with
  | [] => none
  | found => some (String.ofList found, found.length)

/-- A non-empty run of accepted characters. -/
def chars (accept : Char → Bool) : Scanner String := fun rest =>
  match rest.takeWhile accept with
  | [] => none
  | found => some (String.ofList found, found.length)

/-- A line feed, with or without a carriage return before it. -/
def lineBreak : Scanner Unit
  | '\r' :: '\n' :: _ => some ((), 2)
  | '\n' :: _ => some ((), 1)
  | _ => none

/-- An integer as written: whether it has a minus sign, and its digits.

Spaces and tabs may stand between the sign and the digits, and before the digits
when there is no sign. -/
def signedDigits : Scanner (Bool × String) := fun rest =>
  let negative := rest.head? == some '-'
  let unsigned := if negative then rest.tail else rest
  let blanks := unsigned.takeWhile isInlineBlank
  match (unsigned.drop blanks.length).takeWhile isDigit with
  | [] => none
  | digits =>
      some ((negative, String.ofList digits), (if negative then 1 else 0) + blanks.length + digits.length)

/-- A number with a decimal point: sign, digits before and digits after the point.

The digits after the point may be missing; they then count as one zero. -/
def decimalDigits : Scanner (Bool × String × String) := fun rest =>
  match signedDigits rest with
  | none => none
  | some ((negative, whole), length) =>
      match rest.drop length with
      | '.' :: afterPoint =>
          let fraction := afterPoint.takeWhile isDigit
          let digits := if fraction.isEmpty then ['0'] else fraction
          some ((negative, whole, String.ofList digits), length + 1 + fraction.length)
      | _ => none

end Scanner

/-- Let a scanner read at a cursor; the cursor moves over what was found. -/
def Cursor.scan {α : Type} (cursor : Cursor) (scanner : Scanner α) : Option (α × Cursor) :=
  (scanner cursor.rest).map fun (found, length) => (found, cursor.advance length)

end InkSyntax
