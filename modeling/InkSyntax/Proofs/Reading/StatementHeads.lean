import InkSyntax.Proofs.Reading.Operands

namespace InkSyntax

/-!
# Where no statement begins

All statements but prose begin with a mark or with a word in capitals.  Where a text
begins with neither they fail, one after the other, silently and before anything of
them was read.
-/

/-- A blank, or a character with which statements other than declarations begin. -/
def isStatementMark (character : Char) : Bool :=
  " \t<-=*+~".toList.contains character

/-- No blank and no mark of a statement stands at the start of a text. -/
abbrev StartsUnmarked (text : List Char) : Prop :=
  StartsWithout isStatementMark text

section Texts

variable
    {accept : Char → Bool}
    {text : List Char}

theorem StartsWithout.narrow
    {narrower : Char → Bool}
    (starts : StartsWithout accept text)
    (within : ∀ character, narrower character = true → accept character = true) :
    StartsWithout narrower text := by
  intro character first
  by_contra accepted
  have rejected := starts character first
  rw [within character (by simpa using accepted)] at rejected
  cases rejected

/-- No text begins with a character that is excluded. -/
theorem StartsWithout.not_prefix
    {expected : List Char}
    {character : Char}
    (starts : StartsWithout accept text)
    (begins : expected.head? = some character)
    (excluded : accept character = true) :
    ¬ expected <+: text := by
  apply not_prefix_of_head? begins
  intro first
  rw [starts character first] at excluded
  cases excluded

theorem StartsUnmarked.withoutInlineBlank
    (starts : StartsUnmarked text) :
    StartsWithout isInlineBlank text := by
  apply starts.narrow
  intro character blank
  have isBlank : character = ' ' ∨ character = '\t' := by
    simpa [isInlineBlank] using blank
  rcases isBlank with rfl | rfl <;> rfl

theorem StartsUnmarked.withoutBlanks
    (starts : StartsUnmarked text) :
    Grammar.withoutBlanks text = text :=
  starts.withoutInlineBlank.dropWhile

end Texts

namespace Grammar

variable
    {α : Type}
    {depth : Nat}
    {kinds : List StoryKind}
    {text : List Char}

section Words

/-- A word is a keyword only as a whole. -/
theorem fails_keyword
    {word : String}
    (differs : text.takeWhile isIdentifierChar ≠ word.toList) :
    Fails (keyword word) (depth + 2) ⟨text, kinds⟩ := by
  have whole := List.takeWhile_append_dropWhile (p := isIdentifierChar) (l := text)
  have ends := startsWithout_dropWhile isIdentifierChar text
  apply Fails.parse_fails
  by_cases digits : (text.takeWhile isIdentifierChar).all isDigit = true
  · have noName :
        ComesTo name (depth + 1) ⟨text, kinds⟩ none ⟨text, kinds⟩ := by
      rw [← whole]
      exact comesTo_name_none _ digits ends
    exact noName.bind_none.fails
  · have isName : IsName (String.ofList (text.takeWhile isIdentifierChar)) := by
      refine ⟨?_, ?_⟩
      · rw [String.toList_ofList]
        exact List.all_takeWhile
      · rw [String.toList_ofList]
        exact Bool.eq_false_iff.mpr digits
    have found :
        ComesTo name (depth + 1) ⟨text, kinds⟩
          (some (String.ofList (text.takeWhile isIdentifierChar)))
          ⟨text.dropWhile isIdentifierChar, kinds⟩ := by
      have read := @comesTo_name depth kinds _ _ isName ends
      rwa [String.toList_ofList, whole] at read
    have isOther : (String.ofList (text.takeWhile isIdentifierChar) == word) = false := by
      rw [beq_eq_false_iff_ne]
      rintro rfl
      exact differs String.toList_ofList.symm
    refine found.bind_fails ?_
    rw [isOther]
    exact fails_require

theorem fails_declarationWord
    {word : String}
    (starts : StartsUnmarked text)
    (differs : text.takeWhile isIdentifierChar ≠ word.toList) :
    Fails (declarationWord word) (depth + 2) ⟨text, kinds⟩ :=
  (comesTo_skipBlanks starts.withoutBlanks).bind_fails (fails_keyword differs).bind

/-- A declaration begins with its word, which ends in front of a blank. -/
theorem comesTo_declarationWord
    {word : String}
    {rest : List Char}
    (isName : IsName word)
    (dark : withoutBlanks rest = rest) :
    ComesTo (declarationWord word) (depth + 2) ⟨word.toList ++ ' ' :: rest, kinds⟩
      (some ()) ⟨rest, kinds⟩ := by
  have ends : StartsWithout isIdentifierChar (' ' :: rest) :=
    startsWithout_cons.mpr (by decide)
  have isWord :
      ComesTo (keyword word) (depth + 2) ⟨word.toList ++ ' ' :: rest, kinds⟩ (some ())
        ⟨' ' :: rest, kinds⟩ := by
    apply ComesTo.parse
    apply (comesTo_name isName ends).bind
    rw [beq_self_eq_true]
    exact comesTo_require
  have behind : withoutBlanks (' ' :: rest) = rest := by
    rw [withoutBlanks_space, dark]
  apply (comesTo_skipBlanks isName.withoutBlanks).bind
  apply isWord.bind
  exact comesTo_skipBlanks behind

end Words

section Statements

theorem Fails.wholeLine
    [StandsFor α]
    {rule : GrammarRule α}
    (fails : Fails rule depth ⟨text, kinds⟩) :
    Fails (wholeLine rule) (depth + 1) ⟨text, kinds⟩ :=
  fails.parse_fails.bind

theorem fails_knot
    (starts : StartsUnmarked text) :
    Fails knot (depth + 1) ⟨text, kinds⟩ := by
  have noSign : text.takeWhile isEqualsSign = [] := by
    apply StartsWithout.takeWhile
    apply starts.narrow
    intro character sign
    rw [eq_of_beq sign]
    rfl
  apply Fails.bind
  apply Fails.parse_fails
  apply (comesTo_skipBlanks starts.withoutBlanks).bind_fails
  exact (comesTo_chars_none noSign).bind_none.fails.bind

theorem fails_stitch
    (starts : StartsUnmarked text) :
    Fails stitch (depth + 1) ⟨text, kinds⟩ := by
  apply Fails.bind
  apply Fails.parse_fails
  apply (comesTo_skipBlanks starts.withoutBlanks).bind_fails
  exact (fails_literal (starts.not_prefix rfl rfl)).bind

/-- Without a bullet the alternation comes to nothing. -/
theorem comesTo_bullets_none
    {bullet : String}
    (starts : StartsUnmarked text)
    (differs : ¬ bullet.toList <+: text) :
    ComesTo (bullets bullet) (depth + 4) ⟨text, kinds⟩ none ⟨text, kinds⟩ := by
  have noBlank : Fails blanks (depth + 1) ⟨text, kinds⟩ :=
    (comesTo_chars_none starts.withoutInlineBlank.takeWhile).bind_none.fails
  have skips :
      ComesTo (Rule.parse (Rule.optionallyDropped blanks)) (depth + 3) ⟨text, kinds⟩
        (some (.neutral : Step Unit)) ⟨text, kinds⟩ := by
    apply ComesTo.parse
    apply noBlank.tried.bind
    exact comesTo_pure
  have noBullet :
      Fails (Rule.single (Rule.literal bullet)) (depth + 2) ⟨text, kinds⟩ :=
    (fails_literal differs).parse_fails.bind
  have unstopped :
      ComesTo (Rule.peek (Rule.fail : GrammarRule Unit)) (depth + 3) ⟨text, kinds⟩
        (some false) ⟨text, kinds⟩ :=
    comesTo_fail.peek
  have repeats :
      ComesTo
        (.loop []
          (Rule.alternateRound (Rule.optionallyDropped blanks)
            (Rule.single (Rule.literal bullet)) (Rule.fail : GrammarRule Unit)))
        (depth + 3) ⟨text, kinds⟩ (some []) ⟨text, kinds⟩ := by
    apply Rounds.loop
    apply Rounds.last
    apply unstopped.bind
    apply noBullet.tried.bind
    exact comesTo_pure
  apply ComesTo.bind_none
  apply Fails.parse
  apply skips.bind_fails
  exact repeats.bind_fails fails_fail

theorem fails_choice
    (starts : StartsUnmarked text) :
    Fails choice (depth + 4) ⟨text, kinds⟩ := by
  apply Fails.bind
  apply Fails.bind
  apply (comesTo_bullets_none starts (starts.not_prefix rfl rfl)).attempt.bind_fails
  exact (comesTo_bullets_none starts (starts.not_prefix rfl rfl)).fails.bind

theorem comesTo_dash_none
    (starts : StartsUnmarked text) :
    ComesTo dash (depth + 2) ⟨text, kinds⟩ none ⟨text, kinds⟩ := by
  have noArrow :
      ComesTo (Rule.literal "->" : GrammarRule Unit) depth ⟨text, kinds⟩ none
        ⟨text, kinds⟩ :=
    comesTo_literal_none _ _ (starts.not_prefix rfl rfl)
  apply Fails.parse
  apply noArrow.peek.bind_fails
  cases text with
  | nil =>
      exact (comesTo_scan_none rfl).bind_none.fails
  | cons character rest =>
      have noDash : (character == '-') = false := by
        rw [beq_eq_false_iff_ne]
        rintro rfl
        cases startsWithout_cons.mp starts
      refine (comesTo_scan _ _ rfl).bind_fails ?_
      rw [noDash]
      exact fails_require

theorem fails_gather
    (starts : StartsUnmarked text) :
    Fails gather (depth + 3) ⟨text, kinds⟩ := by
  apply Fails.bind
  apply Fails.parse_fails
  apply (comesTo_skipBlanks starts.withoutBlanks).bind_fails
  refine
    (Rounds.last ?_ : Rounds _ _ _ _ (some 0) ⟨text, kinds⟩).loop.bind_fails
      fails_require.bind
  apply (comesTo_dash_none starts).attempt.bind
  exact comesTo_pure

theorem fails_inclusion
    (starts : StartsUnmarked text)
    (differs : ¬ "INCLUDE".toList <+: text) :
    Fails inclusion depth ⟨text, kinds⟩ := by
  apply (comesTo_skipBlanks starts.withoutBlanks).bind_fails
  exact (fails_literal differs).bind

theorem fails_logicLine
    (starts : StartsUnmarked text) :
    Fails logicLine depth ⟨text, kinds⟩ := by
  apply (comesTo_skipBlanks starts.withoutBlanks).bind_fails
  exact (fails_literal (starts.not_prefix rfl rfl)).bind

/-- The statements that begin with a mark, and the reminder among them. -/
def markedStatements : List (GrammarRule (List NodeId)) :=
  [wholeLine diverts, single knot, single (wholeLine choice), single (wholeLine reminder),
    single gather, single stitch]

/-- The rules of declarations and inclusions, which begin with a word. -/
def wordedStatements : List (GrammarRule NodeId) :=
  [listDeclaration, variableDeclaration, constantDeclaration, externalDeclaration, inclusion]

theorem fails_marked
    (starts : StartsUnmarked text)
    (noReminder : text.takeWhile isIdentifierChar ≠ "TODO".toList) :
    ∀ rule ∈ markedStatements, Fails rule (depth + 5) ⟨text, kinds⟩ := by
  have noWord : Fails (declarationWord "TODO") (depth + 4) ⟨text, kinds⟩ :=
    fails_declarationWord starts noReminder
  simp only [markedStatements, List.forall_mem_cons, List.not_mem_nil, false_implies, implies_true,
    and_true]
  refine ⟨?_, ?_, ?_, ?_, ?_, ?_⟩
  · have noDiverts : Fails diverts (depth + 4) ⟨text, kinds⟩ :=
      fails_diverts starts.withoutBlanks (starts.not_prefix rfl rfl)
        (starts.not_prefix rfl rfl)
    exact noDiverts.wholeLine
  · exact (fails_knot starts).bind
  · exact (fails_choice starts).wholeLine.bind
  · exact noWord.bind.wholeLine.bind
  · exact (fails_gather starts).bind
  · exact (fails_stitch starts).bind

theorem fails_worded
    (starts : StartsUnmarked text)
    (noWord : StartsWithout isIdentifierChar text) :
    ∀ rule ∈ wordedStatements, Fails rule (depth + 2) ⟨text, kinds⟩ := by
  have noKeyword
      (word : String)
      (nonempty : word.toList ≠ []) :
      Fails (declarationWord word) (depth + 2) ⟨text, kinds⟩ := by
    apply fails_declarationWord starts
    rw [noWord.takeWhile]
    exact nonempty.symm
  simp only [wordedStatements, List.forall_mem_cons, List.not_mem_nil, false_implies, implies_true,
    and_true]
  refine ⟨?_, ?_, ?_, ?_, ?_⟩
  · exact (noKeyword "LIST" nofun).bind
  · exact (noKeyword "VAR" nofun).bind
  · exact (noKeyword "CONST" nofun).bind
  · exact (noKeyword "EXTERNAL" nofun).bind
  · exact fails_inclusion starts (noWord.not_prefix rfl rfl)

end Statements

end Grammar

end InkSyntax
