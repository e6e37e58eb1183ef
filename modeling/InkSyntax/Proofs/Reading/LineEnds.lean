import InkSyntax.Proofs.Reading.Words

namespace InkSyntax

/-!
# Line ends on a page

Where a line ends there may be a line break or the end of the text, with blanks in
front of either.  A dark text begins with something to be read: neither with a blank
nor with a line break.
-/

/-- A blank or a character of a line break. -/
def isSpaceOrBreak (character : Char) : Bool :=
  isInlineBlank character || character == '\n' || character == '\r'

/-- Neither a blank nor a line break stands at the start of a text. -/
abbrev StartsDark (text : List Char) : Prop :=
  StartsWithout isSpaceOrBreak text

namespace StartsDark

variable {text : List Char}

theorem withoutInlineBlank
    (dark : StartsDark text) :
    StartsWithout isInlineBlank text := by
  intro character first
  have rejected := dark character first
  simp only [isSpaceOrBreak, Bool.or_eq_false_iff] at rejected
  exact rejected.1.1

theorem withoutBlanks
    (dark : StartsDark text) :
    Grammar.withoutBlanks text = text :=
  dark.withoutInlineBlank.dropWhile

theorem lineBreak
    (dark : StartsDark text) :
    Scanner.lineBreak text = none := by
  match text with
  | [] => rfl
  | character :: rest =>
      have rejected := startsWithout_cons.mp dark
      simp only [isSpaceOrBreak, Bool.or_eq_false_iff, beq_eq_false_iff_ne] at rejected
      unfold Scanner.lineBreak
      split
      · next same => exact absurd (List.cons.inj same).1 rejected.2
      · next same => exact absurd (List.cons.inj same).1 rejected.1.2
      · rfl

end StartsDark

namespace Grammar

variable
    {α : Type}
    {depth : Nat}
    {kinds : List StoryKind}
    {text rest : List Char}

section LineEnds

/-- What takes over where a rule fails does not matter where it matches. -/
theorem ComesTo.expectOr
    [StandsFor α]
    {rule recovery : GrammarRule α}
    {page last : Page}
    {value : α}
    {description : String}
    (comes : ComesTo rule depth page (some value) last) :
    ComesTo (Rule.expectOr rule description recovery) (depth + 1) page (some value)
      last :=
  comes.tried.bind comesTo_pure

theorem comesTo_lineEnd :
    ComesTo lineEnd depth ⟨'\n' :: rest, kinds⟩ (some ()) ⟨rest, kinds⟩ := by
  have found : Scanner.lineBreak ('\n' :: rest) = some ((), 1) :=
    rfl
  apply (comesTo_skipBlanks rfl).bind
  exact comesTo_scan depth kinds found

theorem fails_lineEnd
    (dark : StartsDark text) :
    Fails lineEnd depth ⟨text, kinds⟩ :=
  (comesTo_skipBlanks dark.withoutBlanks).bind_fails
    (comesTo_scan_none dark.lineBreak).fails

theorem fails_textEnd
    (dark : StartsDark text)
    (nonempty : text ≠ []) :
    Fails textEnd depth ⟨text, kinds⟩ := by
  apply (comesTo_skipBlanks dark.withoutBlanks).bind_fails
  apply comesTo_atEnd.bind_fails
  rw [List.isEmpty_eq_false_iff.mpr nonempty]
  exact fails_require

theorem fails_endOfLine
    (dark : StartsDark text)
    (nonempty : text ≠ []) :
    Fails endOfLine (depth + 2) ⟨text, kinds⟩ := by
  apply Fails.parse_fails
  apply (comesTo_firstOf_none _).fails
  simp only [List.forall_mem_cons, List.not_mem_nil, false_implies, implies_true,
    and_true]
  exact ⟨fails_lineEnd dark, fails_textEnd dark nonempty⟩

/-- A line feed ends its line. -/
theorem comesTo_endOfLine :
    ComesTo endOfLine (depth + 2) ⟨'\n' :: rest, kinds⟩ (some ()) ⟨rest, kinds⟩ :=
  (ComesTo.firstOf [] comesTo_lineEnd (by simp)).parse

/-- The end of the text ends its last line. -/
theorem comesTo_endOfLine_nil :
    ComesTo endOfLine (depth + 2) ⟨[], kinds⟩ (some ()) ⟨[], kinds⟩ := by
  have ends :
      ComesTo textEnd depth ⟨[], kinds⟩ (some ()) ⟨[], kinds⟩ :=
    (comesTo_skipBlanks rfl).bind (comesTo_atEnd.bind comesTo_require)
  refine (ComesTo.firstOf [lineEnd] ends ?_).parse
  simp only [List.forall_mem_cons, List.not_mem_nil, false_implies, implies_true,
    and_true]
  exact fails_lineEnd startsWithout_nil

end LineEnds

section BlankSpace

theorem fails_blankLines
    (dark : StartsDark text) :
    Fails blankLines (depth + 1) ⟨text, kinds⟩ := by
  have none :
      ComesTo (Rule.zeroOrMore lineEnd) (depth + 1) ⟨text, kinds⟩ (some [])
        ⟨text, kinds⟩ := by
    apply Rounds.loop
    apply Rounds.last
    apply (fails_lineEnd dark).tried.bind
    exact comesTo_pure
  exact (none.bind_fails fails_fail).bind

/-- Where something to be read follows there is no blank space. -/
theorem comesTo_blankSpace_none
    (dark : StartsDark text) :
    ComesTo (Rule.oneOf [blanks, blankLines]) (depth + 3) ⟨text, kinds⟩ none
      ⟨text, kinds⟩ := by
  apply Fails.parse
  apply (comesTo_firstOf_none _).fails
  simp only [List.forall_mem_cons, List.not_mem_nil, false_implies, implies_true,
    and_true]
  exact
    ⟨(comesTo_chars_none dark.withoutInlineBlank.takeWhile).bind_none.fails,
      fails_blankLines dark⟩

/-- A round in which blank space is skipped, or there is none. -/
def blankSpaceRound (_ : Unit) : GrammarRule (Unit ⊕ Unit) := do
  match ← Rule.attempt (Rule.oneOf [blanks, blankLines]) with
  | some _ => return .inl ()
  | none => return .inr ()

theorem rounds_blankSpace
    (dark : StartsDark text) :
    Rounds blankSpaceRound (depth + 3) () ⟨text, kinds⟩ (some ()) ⟨text, kinds⟩ :=
  .last ((comesTo_blankSpace_none dark).attempt.bind comesTo_pure)

theorem comesTo_skipBlankSpace
    (dark : StartsDark text) :
    ComesTo skipBlankSpace (depth + 3) ⟨text, kinds⟩ (some ()) ⟨text, kinds⟩ :=
  (rounds_blankSpace dark).loop.bind comesTo_pure

/-- Blank space that is taken in one go is skipped. -/
theorem comesTo_skipBlankSpace_of_takes
    (takes :
      ComesTo (Rule.oneOf [blanks, blankLines]) (depth + 3) ⟨text, kinds⟩ (some ())
        ⟨rest, kinds⟩)
    (shorter : rest.length < text.length)
    (dark : StartsDark rest) :
    ComesTo skipBlankSpace (depth + 3) ⟨text, kinds⟩ (some ()) ⟨rest, kinds⟩ := by
  have rounds :
      Rounds blankSpaceRound (depth + 3) () ⟨text, kinds⟩ (some ()) ⟨rest, kinds⟩ :=
    .again (takes.attempt.bind comesTo_pure) shorter (rounds_blankSpace dark)
  exact rounds.loop.bind comesTo_pure

theorem comesTo_skipBlankSpace_space
    (dark : StartsDark rest) :
    ComesTo skipBlankSpace (depth + 3) ⟨' ' :: rest, kinds⟩ (some ()) ⟨rest, kinds⟩ := by
  have run : (' ' :: rest).takeWhile isInlineBlank = [' '] :=
    takeWhile_run [' '] rfl dark.withoutInlineBlank
  have left : withoutBlanks (' ' :: rest) = rest :=
    dropWhile_run [' '] rfl dark.withoutInlineBlank
  have nonempty : (' ' :: rest).takeWhile isInlineBlank ≠ [] := by
    rw [run]
    exact List.cons_ne_nil _ _
  have taken :
      ComesTo blanks (depth + 1) ⟨' ' :: rest, kinds⟩ (some ()) ⟨rest, kinds⟩ := by
    have comes := @comesTo_blanks (depth + 1) kinds _ nonempty
    rwa [left] at comes
  exact
    comesTo_skipBlankSpace_of_takes
      (ComesTo.firstOf [] taken nofun).parse (Nat.lt_succ_self _) dark

/-- A line feed at the end of the text is blank space. -/
theorem comesTo_skipBlankSpace_feed :
    ComesTo skipBlankSpace (depth + 3) ⟨['\n'], kinds⟩ (some ()) ⟨[], kinds⟩ := by
  have noBlank : Fails blanks (depth + 1) ⟨['\n'], kinds⟩ :=
    (comesTo_chars_none rfl).bind_none.fails
  have lines :
      ComesTo (Rule.zeroOrMore lineEnd) (depth + 1) ⟨['\n'], kinds⟩ (some [()])
        ⟨[], kinds⟩ := by
    apply Rounds.loop
    refine Rounds.again (comesTo_lineEnd.tried.bind comesTo_pure) Nat.zero_lt_one ?_
    exact .last ((fails_lineEnd startsWithout_nil).tried.bind comesTo_pure)
  have nonempty :
      ComesTo (Rule.oneOrMore lineEnd) (depth + 1) ⟨['\n'], kinds⟩ (some [()])
        ⟨[], kinds⟩ := by
    apply lines.bind
    exact comesTo_pure
  have taken :
      ComesTo blankLines (depth + 1) ⟨['\n'], kinds⟩ (some ()) ⟨[], kinds⟩ :=
    nonempty.bind comesTo_pure
  refine
    comesTo_skipBlankSpace_of_takes
      (ComesTo.firstOf [blanks] taken ?_).parse Nat.zero_lt_one startsWithout_nil
  simpa using noBlank

end BlankSpace

end Grammar

end InkSyntax
