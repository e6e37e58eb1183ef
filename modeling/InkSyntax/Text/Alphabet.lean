import InkSyntax.Text.CharSet

namespace InkSyntax

/-!
# The identifier alphabet

A `CharBlock` is a stretch of code points with holes.  It can be asked about one
character by its bounds, or written out as a `CharSet`; both views have the same
members.  The identifier alphabet joins the blocks of eleven scripts with the
ASCII letters, digits and underscore.
-/

/-- Consecutive code points, some of them left out. -/
structure CharBlock where
  first : Char
  last : Char
  holes : CharSet := ∅
  deriving DecidableEq

namespace CharBlock

/-- Membership by comparing bounds. -/
def contains (block : CharBlock) (character : Char) : Bool :=
  decide (block.first ≤ character) && decide (character ≤ block.last) &&
    !block.holes.contains character

/-- The members written out. -/
def toCharSet (block : CharBlock) : CharSet :=
  (CharSet.between block.first block.last).filter fun character =>
    !block.holes.contains character

end CharBlock

/-- The scripts whose characters may spell an identifier. -/
inductive Script where
  | latinBasic
  | latinExtendedA
  | latinExtendedB
  | greek
  | cyrillic
  | armenian
  | hebrew
  | arabic
  | korean
  | latin1Supplement
  | chinese
  deriving DecidableEq, Repr

namespace Script

/-- Every script, in the order in which they are listed to users. -/
def all : List Script :=
  [latinBasic, latinExtendedA, latinExtendedB, greek, cyrillic, armenian, hebrew, arabic,
    korean, latin1Supplement, chinese]

/-- The name under which a script is listed. -/
def name : Script → String
  | latinBasic => "latin_basic"
  | latinExtendedA => "latin_extended_a"
  | latinExtendedB => "latin_extended_b"
  | greek => "greek"
  | cyrillic => "cyrillic"
  | armenian => "armenian"
  | hebrew => "hebrew"
  | arabic => "arabic"
  | korean => "korean"
  | latin1Supplement => "latin_1_supplement"
  | chinese => "chinese"

/-- The script listed under a name. -/
def ofName? (name : String) : Option Script := all.find? fun script => script.name == name

/-- The letters of a script; holes are marks, punctuation and unassigned points. -/
def block : Script → CharBlock
  | latinBasic => ⟨'A', 'z', .between '[' '\x60'⟩
  | latinExtendedA => ⟨'\u0100', '\u017f', ∅⟩
  | latinExtendedB => ⟨'\u0180', '\u024f', ∅⟩
  | greek =>
      ⟨'\u0370', '\u03ff',
        .between '\u0378' '\u0385' ∪
          .ofString "\u0374\u0375\u0387\u038b\u038d\u03a2"⟩
  | cyrillic => ⟨'\u0400', '\u04ff', .between '\u0482' '\u0489'⟩
  | armenian =>
      ⟨'\u0530', '\u058f',
        .singleton '\u0530' ∪ .between '\u0557' '\u0560' ∪ .between '\u0588' '\u058e'⟩
  | hebrew => ⟨'\u0590', '\u05ff', ∅⟩
  | arabic => ⟨'\u0600', '\u06ff', ∅⟩
  | korean => ⟨'\uac00', '\ud7af', ∅⟩
  | latin1Supplement => ⟨'\u0080', '\u00ff', ∅⟩
  | chinese => ⟨'\u4e00', '\u9fff', ∅⟩

/-- The scripts that have a character. -/
def having (character : Char) : List Script :=
  all.filter fun script => script.block.contains character

end Script

/-- A decimal digit. -/
def isDigit (character : Char) : Bool := decide ('0' ≤ character) && decide (character ≤ '9')

/-- Space or tab: blanks that do not end a line. -/
def isInlineBlank (character : Char) : Bool := character == ' ' || character == '\t'

/-- An ASCII letter, digit or underscore. -/
def isAsciiWordChar (character : Char) : Bool :=
  decide ('A' ≤ character) && decide (character ≤ 'Z') ||
    decide ('a' ≤ character) && decide (character ≤ 'z') ||
    isDigit character || character == '_'

/-- A character that may appear in an identifier. -/
def isIdentifierChar (character : Char) : Bool :=
  isAsciiWordChar character || Script.all.any fun script => script.block.contains character

/-- The identifier alphabet written out. -/
def identifierChars : CharSet :=
  Script.all.foldl (fun known script => known ∪ script.block.toCharSet)
    ((CharSet.between 'A' 'Z' ∪ .between 'a' 'z' ∪ .between '0' '9').insert '_')

end InkSyntax
