import InkSyntax.Json.Value

namespace InkSyntax.JsonValue

/-!
# Structured values as text

A value is written over several lines, two blanks deeper for each level, with
every element and field on a line of its own.  Empty lists and objects stay on
their line.
-/

/-- A control character in four hexadecimal digits. -/
def controlEscape (character : Char) : List Char :=
  let digits := Nat.toDigits 16 character.toNat
  '\\' :: 'u' :: (List.replicate (4 - digits.length) '0' ++ digits)

/-- A character inside quotation marks. -/
def escape (character : Char) : List Char :=
  match character with
  | '"' => ['\\', '"']
  | '\\' => ['\\', '\\']
  | '\n' => ['\\', 'n']
  | '\r' => ['\\', 'r']
  | '\t' => ['\\', 't']
  | '\x08' => ['\\', 'b']
  | '\x0c' => ['\\', 'f']
  | other => if other.toNat < 0x20 then controlEscape other else [other]

/-- A text in quotation marks. -/
def quoted (text : String) : String :=
  "\"" ++ String.ofList (text.toList.flatMap escape) ++ "\""

/-- A new line at some level. -/
def newLine (level : Nat) : String := "\n" ++ String.ofList (List.replicate (2 * level) ' ')

mutual

/-- The text of a value at some level. -/
def prettyAt (level : Nat) : JsonValue → String
  | .null => "null"
  | .bool value => if value then "true" else "false"
  | .number written => written
  | .text value => quoted value
  | .list [] => "[]"
  | .list elements =>
      "[" ++ prettyElements (level + 1) true elements ++ newLine level ++ "]"
  | .object [] => "\x7b\x7d"
  | .object fields =>
      "\x7b" ++ prettyFields (level + 1) true fields ++ newLine level ++ "\x7d"

/-- The elements of a list, each on its line. -/
def prettyElements (level : Nat) (isFirst : Bool) : List JsonValue → String
  | [] => ""
  | element :: others =>
      (if isFirst then "" else ",") ++ newLine level ++ prettyAt level element ++
        prettyElements level false others

/-- The fields of an object, each on its line. -/
def prettyFields (level : Nat) (isFirst : Bool) : List (String × JsonValue) → String
  | [] => ""
  | (name, value) :: others =>
      (if isFirst then "" else ",") ++ newLine level ++ quoted name ++ ": " ++
        prettyAt level value ++ prettyFields level false others

end

/-- The text of a value. -/
def pretty (value : JsonValue) : String := prettyAt 0 value

end InkSyntax.JsonValue
