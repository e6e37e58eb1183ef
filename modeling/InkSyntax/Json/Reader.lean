import InkSyntax.Json.Value
import InkSyntax.Text.Digit

namespace InkSyntax.JsonValue

/-!
# Structured values from text

A text is read as one value with white space around it, or not at all.  Numbers
keep their text.  In texts a surrogate needs its partner; alone it is refused in
the names of the outermost object, which have a meaning, and replaced elsewhere.
-/

def isSpace (character : Char) : Bool := " \n\t\r".toList.contains character

/-- Go over white space. -/
def skipSpace (text : List Char) : List Char := text.dropWhile isSpace

/-- The character of a code, of which surrogates have none. -/
def ofCode (code : Nat) : Char := if code.isValidChar then Char.ofNat code else '\ufffd'

def isHighSurrogate (code : Nat) : Bool := decide (0xd800 ≤ code) && decide (code ≤ 0xdbff)

def isLowSurrogate (code : Nat) : Bool := decide (0xdc00 ≤ code) && decide (code ≤ 0xdfff)

/-- The code that two surrogates stand for. -/
def pairCode (high low : Nat) : Nat := 0x10000 + (high - 0xd800) * 0x400 + (low - 0xdc00)

/-- The character of a short escape. -/
def shortEscape? (mark : Char) : Option Char :=
  match mark with
  | '"' => some '"'
  | '\\' => some '\\'
  | '/' => some '/'
  | 'b' => some '\x08'
  | 'f' => some '\x0c'
  | 'n' => some '\n'
  | 'r' => some '\r'
  | 't' => some '\t'
  | _ => none

/-- Finish a surrogate that found no partner. -/
def settle (strict : Bool) (high : Option Nat) (read : List Char) : Option (List Char) :=
  match high with
  | none => some read
  | some _ => if strict then none else some ('\ufffd' :: read)

/-- Read a text up to its closing quotation mark.

What was read is held in reverse, a surrogate in wait for its partner apart. -/
def textFrom (strict : Bool) : Option Nat → List Char → List Char → Option (String × List Char)
  | _, _, [] => none
  | high, read, '"' :: rest => do
      return (String.ofList (← settle strict high read).reverse, rest)
  | high, read, '\\' :: 'u' :: a :: b :: c :: d :: rest => do
      let code ← digitsValue? 16 [a, b, c, d]
      match high, isLowSurrogate code with
      | some first, true => textFrom strict none (ofCode (pairCode first code) :: read) rest
      | none, true =>
          if strict then none else textFrom strict none ('\ufffd' :: read) rest
      | _, false => do
          let read ← settle strict high read
          if isHighSurrogate code then textFrom strict (some code) read rest
          else textFrom strict none (ofCode code :: read) rest
  | high, read, '\\' :: mark :: rest => do
      textFrom strict none ((← shortEscape? mark) :: (← settle strict high read)) rest
  | high, read, character :: rest => do
      if character.toNat < 0x20 || character == '\\' then none
      else textFrom strict none (character :: (← settle strict high read)) rest

/-- Decimal digits in front, at least one. -/
def digits? (text : List Char) : Option (List Char × List Char) :=
  let found := text.takeWhile Char.isDigit
  if found.isEmpty then none else some (found, text.drop found.length)

/-- A whole number without a sign; no other digit follows a leading zero. -/
def whole? (text : List Char) : Option (List Char × List Char) := do
  let (found, rest) ← digits? text
  if found.head? == some '0' && found != ['0'] then none else return (found, rest)

/-- The digits after a decimal point, if there is one. -/
def fraction? : List Char → Option (List Char × List Char)
  | '.' :: rest => do
      let (found, rest) ← digits? rest
      return ('.' :: found, rest)
  | other => some ([], other)

/-- A power of ten, if there is one. -/
def power? : List Char → Option (List Char × List Char)
  | mark :: rest =>
      if mark == 'e' || mark == 'E' then do
        let sign := (rest.take 1).filter fun c => c == '+' || c == '-'
        let (found, rest) ← digits? (rest.drop sign.length)
        return (mark :: (sign ++ found), rest)
      else some ([], mark :: rest)
  | [] => some ([], [])

/-- A number as it is written. -/
def number? (text : List Char) : Option (String × List Char) := do
  let sign := (text.take 1).filter (· == '-')
  let (whole, rest) ← whole? (text.drop sign.length)
  let (fraction, rest) ← fraction? rest
  let (power, rest) ← power? rest
  return (String.ofList (sign ++ whole ++ fraction ++ power), rest)

/-- Go over a word. -/
def word? (word : String) (text : List Char) : Option (List Char) :=
  if word.toList.isPrefixOf text then some (text.drop word.length) else none

mutual

/-- Read a value; `strict` says whether it is the outermost one. -/
def valueFrom (strict : Bool) (text : List Char) : Nat → Option (JsonValue × List Char)
  | 0 => none
  | steps + 1 =>
      match skipSpace text with
      | '\x7b' :: rest => do
          let (fields, rest) ← fieldsFrom strict true rest steps
          return (.object fields, rest)
      | '[' :: rest => do
          let (elements, rest) ← elementsFrom true rest steps
          return (.list elements, rest)
      | '"' :: rest => do
          let (found, rest) ← textFrom false none [] rest
          return (.text found, rest)
      | 'n' :: rest => do return (.null, ← word? "ull" rest)
      | 't' :: rest => do return (.bool true, ← word? "rue" rest)
      | 'f' :: rest => do return (.bool false, ← word? "alse" rest)
      | other => do
          let (written, rest) ← number? other
          return (.number written, rest)

/-- Read elements up to the end of their list. -/
def elementsFrom (isFirst : Bool) (text : List Char) :
    Nat → Option (List JsonValue × List Char)
  | 0 => none
  | steps + 1 =>
      match skipSpace text, isFirst with
      | ']' :: rest, _ => some ([], rest)
      | ',' :: rest, false => do
          let (element, rest) ← valueFrom false rest steps
          let (others, rest) ← elementsFrom false rest steps
          return (element :: others, rest)
      | other, true => do
          let (element, rest) ← valueFrom false other steps
          let (others, rest) ← elementsFrom false rest steps
          return (element :: others, rest)
      | _, false => none

/-- Read fields up to the end of their object. -/
def fieldsFrom (strict isFirst : Bool) (text : List Char) :
    Nat → Option (List (String × JsonValue) × List Char)
  | 0 => none
  | steps + 1 =>
      match skipSpace text, isFirst with
      | '\x7d' :: rest, _ => some ([], rest)
      | ',' :: rest, false => oneField strict (skipSpace rest) steps
      | other, true => oneField strict other steps
      | _, false => none

/-- Read a field and those after it. -/
def oneField (strict : Bool) (text : List Char) :
    Nat → Option (List (String × JsonValue) × List Char)
  | 0 => none
  | steps + 1 =>
      match text with
      | '"' :: rest => do
          let (name, rest) ← textFrom strict none [] rest
          match skipSpace rest with
          | ':' :: rest => do
              let (found, rest) ← valueFrom false rest steps
              let (others, rest) ← fieldsFrom strict false rest steps
              return ((name, found) :: others, rest)
          | _ => none
      | _ => none

end

/-- The value that a text is, if it is one. -/
def ofText? (text : String) : Option JsonValue := do
  let written := text.toList
  let (found, rest) ← valueFrom true written (3 * written.length + 3)
  if (skipSpace rest).isEmpty then return found else none

end InkSyntax.JsonValue
