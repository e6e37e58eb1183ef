import InkSyntax.Text.Alphabet

namespace InkSyntax

/-!
# Two views of a block of characters

A block can be asked about a character by its bounds, or be written out as a set that
is then searched.  Both give the same answer, also where the bounds are inverted, lie on
both sides of the gap that no character fills, or leave out characters that were never
between them.  So the identifier alphabet, which is written out from the blocks of all
scripts, can be asked by their bounds.
-/

variable {character : Char}

namespace CharBlock

variable {block : CharBlock}

theorem not_contains_holes_iff :
    (!block.holes.contains character) = true ↔ character ∉ block.holes := by
  rw [← CharSet.contains_iff_mem, Bool.not_eq_true, Bool.not_eq_true']

/-- A block has what lies between its bounds, but for its holes. -/
theorem contains_iff :
    block.contains character = true ↔
      (block.first ≤ character ∧ character ≤ block.last) ∧ character ∉ block.holes := by
  simp only [contains, Bool.and_eq_true, decide_eq_true_eq, not_contains_holes_iff]

/-- Written out, a block has the same characters. -/
theorem mem_toCharSet :
    character ∈ block.toCharSet ↔
      (block.first ≤ character ∧ character ≤ block.last) ∧ character ∉ block.holes := by
  simp only [toCharSet, CharSet.mem_filter, CharSet.mem_between, not_contains_holes_iff]

/-- The bounds of a block and its characters, written out, give the same answers. -/
theorem contains_eq_toCharSet_contains
    (block : CharBlock)
    (character : Char) :
    block.contains character = block.toCharSet.contains character := by
  rw [Bool.eq_iff_iff, contains_iff, CharSet.contains_iff_mem, mem_toCharSet]

end CharBlock

/-- Every script is listed. -/
theorem Script.mem_all
    (script : Script) :
    script ∈ all := by
  cases script <;> decide

theorem isAsciiWordChar_iff :
    isAsciiWordChar character = true ↔
      character.isAlphanum = true ∨ character = '_' := by
  have isUpper :
      character.isUpper = (decide ('A' ≤ character) && decide (character ≤ 'Z')) :=
    Bool.decide_and ('A' ≤ character) (character ≤ 'Z')
  have isLetter :
      character.isAlpha =
        (decide ('A' ≤ character) && decide (character ≤ 'Z') ||
          decide ('a' ≤ character) && decide (character ≤ 'z')) :=
    congrArg (· || character.isLower) isUpper
  rw [Char.isAlphanum, isLetter, isAsciiWordChar, Bool.or_eq_true, beq_iff_eq]
  rfl

/-- By its bounds the alphabet has the ASCII word characters and those of the scripts. -/
theorem isIdentifierChar_iff :
    isIdentifierChar character = true ↔
      isAsciiWordChar character = true ∨
        ∃ script : Script, script.block.contains character = true := by
  simp [isIdentifierChar, Script.mem_all]

/-- Joining the blocks of scripts adds the characters of each. -/
theorem mem_foldl_union
    {scripts : List Script}
    {known : CharSet} :
    character ∈ scripts.foldl (fun known script => known ∪ script.block.toCharSet) known ↔
      character ∈ known ∨ ∃ script ∈ scripts, character ∈ script.block.toCharSet := by
  induction scripts generalizing known with
  | nil =>
      simp
  | cons script others inductionHypothesis =>
      simp only [List.foldl_cons, inductionHypothesis, CharSet.mem_union, List.mem_cons,
        exists_eq_or_imp]
      exact or_assoc

/-- Written out, the alphabet has the same characters. -/
theorem mem_identifierChars :
    character ∈ identifierChars ↔
      isAsciiWordChar character = true ∨
        ∃ script : Script, character ∈ script.block.toCharSet := by
  simp [identifierChars, mem_foldl_union, Script.mem_all, isAsciiWordChar, isDigit,
    or_assoc]

/-- A block, and the identifier alphabet made of blocks, have the same characters whether
they are asked by their bounds or written out. -/
theorem bounds_and_members_agree
    (block : CharBlock)
    (character : Char) :
    (block.contains character = block.toCharSet.contains character ∧
        (block.contains character = true ↔
          (block.first ≤ character ∧ character ≤ block.last) ∧
            character ∉ block.holes)) ∧
      isIdentifierChar character = identifierChars.contains character ∧
        (isIdentifierChar character = true ↔
          character.isAlphanum = true ∨
            character = '_' ∨
              ∃ script : Script, script.block.contains character = true) := by
  refine ⟨⟨block.contains_eq_toCharSet_contains character, block.contains_iff⟩, ?_, ?_⟩
  · have sameBlocks (script : Script) :
        script.block.contains character = true ↔ character ∈ script.block.toCharSet := by
      rw [CharBlock.contains_eq_toCharSet_contains, CharSet.contains_iff_mem]
    rw [Bool.eq_iff_iff, CharSet.contains_iff_mem, mem_identifierChars,
      isIdentifierChar_iff]
    simp only [sameBlocks]
  · rw [isIdentifierChar_iff, isAsciiWordChar_iff, or_assoc]

/-- On both sides of the gap there is one character each. -/
example :
    (CharBlock.mk '\ud7ff' '\ue000' ∅).toCharSet.members = ['\ud7ff', '\ue000'] := by
  decide +kernel

end InkSyntax
