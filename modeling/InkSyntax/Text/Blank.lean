namespace InkSyntax

/-!
# Blanks

The characters with the Unicode property White_Space.  They are what is dropped
from the end of a file name or of a quoted line.
-/

/-- Code points with the property White_Space. -/
def blankRanges : List (Nat × Nat) :=
   [(0x9, 0xd), (0x20, 0x20), (0x85, 0x85), (0xa0, 0xa0), (0x1680, 0x1680), (0x2000, 0x200a),
    (0x2028, 0x2029), (0x202f, 0x202f), (0x205f, 0x205f), (0x3000, 0x3000)]

/-- Whether some range holds a code point. -/
def inRanges (ranges : List (Nat × Nat)) (code : Nat) : Bool :=
  ranges.any fun (first, last) => decide (first ≤ code) && decide (code ≤ last)

/-- Blank in the sense of Unicode. -/
def isBlank (character : Char) : Bool := inRanges blankRanges character.toNat

/-- A text without the characters at its end that pass a test. -/
def dropEndWhile (text : String) (drop : Char → Bool) : String :=
  String.ofList (text.toList.reverse.dropWhile drop).reverse

/-- A text without blanks at its end. -/
def trimEnd (text : String) : String := dropEndWhile text isBlank

end InkSyntax
