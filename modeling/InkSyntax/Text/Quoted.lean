import InkSyntax.Text.Printable

namespace InkSyntax.Quoted

/-!
# Quoted text

Text between quotation marks on one line.  Quotation marks and backslashes get a
backslash, a few controls have a letter, and whatever cannot be shown is given by
its code point in hexadecimal.
-/

/-- Hexadecimal digits in lower case. -/
def hexadecimal (code : Nat) : List Char := Nat.toDigits 16 code

/-- One character inside quotation marks. -/
def encodeChar (character : Char) : List Char :=
  match character with
  | '\x00' => ['\\', '0']
  | '\t' => ['\\', 't']
  | '\r' => ['\\', 'r']
  | '\n' => ['\\', 'n']
  | '\\' => ['\\', '\\']
  | '"' => ['\\', '"']
  | shown =>
      if isShowable shown then [shown]
      else ['\\', 'u', '\x7b'] ++ hexadecimal shown.toNat ++ ['\x7d']

/-- A text between quotation marks. -/
def encode (text : String) : String :=
  String.ofList ('"' :: (text.toList.flatMap encodeChar ++ ['"']))

end InkSyntax.Quoted
