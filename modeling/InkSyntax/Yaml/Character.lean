import InkSyntax.Machine.Cursor

namespace InkSyntax

/-!
# Characters of YAML texts

Some characters may stand nowhere in a YAML text.  Five kinds of line break are
all read as a line feed; what follows a mark decides whether it is one, and most
often that has to be a gap: a blank, a line break or the end of the text.
-/

namespace YamlText

/-- Whether YAML allows a character anywhere. -/
def isAllowed (character : Char) : Bool :=
  let code := character.toNat
  code == 0x9 || code == 0xa || code == 0xd || code == 0x85 ||
    decide (0x20 ≤ code) && decide (code ≤ 0x7e) ||
    decide (0xa0 ≤ code) && decide (code ≤ 0xfffd) || decide (0x10000 ≤ code)

/-- Write every line break as a line feed. -/
def unifyBreaks : List Char → List Char
  | '\r' :: '\n' :: rest => '\n' :: unifyBreaks rest
  | character :: rest =>
      (if "\r\u0085\u2028\u2029".toList.contains character then '\n' else character) ::
        unifyBreaks rest
  | [] => []

/-- The mark of the order of bytes, which may stand in front of a text. -/
def orderMark : Char := '\ufeff'

/-- The place where the tokens of a text begin, if all its characters are allowed.

A mark of the order of bytes is passed over, but it takes a column. -/
def start? (text : String) : Option Cursor :=
  let unified := unifyBreaks text.toList
  if unified.all isAllowed then
    let start := Cursor.atStart unified
    some (if unified.head? == some orderMark then start.advance 1 else start)
  else none

def isBreak (character : Char) : Bool := character == '\n'

/-- Whether a character is a blank within a line. -/
def isInlineSpace (character : Char) : Bool := character == ' ' || character == '\t'

/-- Whether a character may stand in a name. -/
def isWordChar (character : Char) : Bool :=
  character.isAlphanum || character == '_' || character == '-'

/-- Whether a blank, a line break or the end of the text is at the head. -/
def atGap : List Char → Bool
  | [] => true
  | character :: _ => isInlineSpace character || isBreak character

/-- Whether a line break or the end of the text is at the head. -/
def atLineEnd : List Char → Bool
  | [] => true
  | character :: _ => isBreak character

/-- Whether a mark of three characters takes the first columns of a line. -/
def atDocumentMark (cursor : Cursor) : Bool :=
  cursor.column == 0 &&
    match cursor.rest with
    | '-' :: '-' :: '-' :: after => atGap after
    | '.' :: '.' :: '.' :: after => atGap after
    | _ => false

/-- Go over the characters in front that pass a test. -/
def skipWhile (test : Char → Bool) (cursor : Cursor) : Cursor :=
  cursor.advance (cursor.rest.takeWhile test).length

/-- Go over the rest of a line in which nothing but blanks and a comment may stand. -/
def finishLine (cursor : Cursor) : Option Cursor :=
  let blanks := skipWhile isInlineSpace cursor
  let content :=
    if blanks.rest.head? == some '#' then skipWhile (fun c => !isBreak c) blanks else blanks
  if atLineEnd content.rest then some (content.advance 1) else none

end YamlText

end InkSyntax
