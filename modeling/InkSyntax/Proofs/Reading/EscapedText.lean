import InkSyntax.Proofs.CommentFree
import InkSyntax.Proofs.Reading.SingleStatements
import InkSyntax.Proofs.Reading.StatementHeads

namespace InkSyntax

/-!
# Escaped text

A backslash takes the meaning of its own away from whatever character follows.  With
one before every character a text means itself: no comment is taken out of it, no
statement but prose begins, and nothing ends the prose before the text does.
-/

/-- A text with a backslash before every character. -/
def escape : List Char → List Char
  | [] => []
  | character :: rest => '\\' :: character :: escape rest

section Escaped

variable
    {accept : Char → Bool}
    {character : Char}
    {text rest : List Char}

theorem startsWithout_escape
    (rejects : accept '\\' = false)
    (text : List Char) :
    StartsWithout accept (escape text) := by
  cases text with
  | nil =>
      exact startsWithout_nil
  | cons character rest =>
      exact startsWithout_cons.mpr rejects

/-- Between two characters of a text there is a backslash, so nothing is a comment. -/
theorem isChain_escape
    (text : List Char) :
    (escape text).IsChain Comment.StandApart := by
  induction text with
  | nil =>
      exact .nil
  | cons character rest inductionHypothesis =>
      have shield : Comment.StandApart '\\' character :=
        ⟨fun slash => absurd slash (by decide), fun carriage => absurd carriage (by decide)⟩
      have behind : (character :: escape rest).IsChain Comment.StandApart := by
        cases rest with
        | nil =>
            exact .singleton character
        | cons next others =>
            exact .cons_cons ⟨fun _ => by decide, fun _ => by decide⟩ inductionHypothesis
      exact .cons_cons shield behind

end Escaped

/-- A change that leaves a kind alone leaves all of them alone. -/
theorem Draft.kinds_modify_same
    {draft : Draft}
    {id : NodeId}
    {kind : StoryKind}
    {change : StoryKind → StoryKind}
    (known : draft.kinds[id.index]? = some kind)
    (same : change kind = kind) :
    (draft.modify id change).kinds = draft.kinds := by
  simp only [kinds, modify, Array.toList_modify] at known ⊢
  apply List.ext_getElem?
  intro index
  simp only [List.getElem?_map, List.getElem?_modify] at known ⊢
  by_cases chosen : id.index = index
  · subst chosen
    obtain ⟨slot, isSlot, isKind⟩ := Option.map_eq_some_iff.mp known
    simp [isSlot, isKind, same]
  · simp [chosen]

namespace Grammar

open Reading (Site)

variable
    {α : Type}
    {depth : Nat}
    {held holds : Sheet → Prop}
    {told : Session → Prop}
    {kinds : List StoryKind}
    {text rest : List Char}
    {last : Page}
    {result : Option α}

section Queries

/-- What a rule sees of the innermost scope is the text behind the cursor, and more. -/
theorem ComesTo.here
    {next : Checkpoint → GrammarRule α}
    (comes :
      ∀ checkpoint : Checkpoint,
        checkpoint.cursor.rest = text →
          ComesTo (next checkpoint) depth ⟨text, kinds⟩ result last) :
    ComesTo (.here >>= next) depth ⟨text, kinds⟩ result last := by
  intro library maxDepth files levels machine ready
  have rest : machine.top.cursor.rest = text := (Page.mk.inj ready.at_).1
  exact comes machine.top rest library maxDepth files levels machine ready

/-- Whether a flag is set may make no difference. -/
theorem ComesTo.hasFlag
    {mask : UInt32}
    {next : Bool → GrammarRule α}
    (comes : ∀ isSet, ComesTo (next isSet) depth ⟨text, kinds⟩ result last) :
    ComesTo (Rule.hasFlag mask >>= next) depth ⟨text, kinds⟩ result last := by
  intro library maxDepth files levels machine ready
  exact comes (machine.top.hasFlag mask) library maxDepth files levels machine ready

/-- Whether a choice is being read may make no difference. -/
theorem ComesTo.isInChoice
    {next : Bool → GrammarRule α}
    (comes : ∀ inChoice, ComesTo (next inChoice) depth ⟨text, kinds⟩ result last) :
    ComesTo (.effect .isInChoice >>= next) depth ⟨text, kinds⟩ result last := by
  intro library maxDepth files levels machine ready
  exact comes machine.host.inChoice library maxDepth files levels machine ready

end Queries

section PlainText

/-- A character at which text ends everywhere. -/
theorem endsTextWithin_of_endsText
    {character : Char}
    (inString inChoice : Bool)
    (ends : endsText character = true) :
    endsTextWithin inString inChoice character = true := by
  rw [endsTextWithin, ends, Bool.true_or]

/-- There is no text in front of a character that ends it, wherever `stop` would match. -/
theorem comesTo_textUntil_none
    {stop : GrammarRule Unit}
    {pauses stops : Char → Bool}
    {seen : Option Unit}
    (looks : ComesTo stop depth ⟨text, kinds⟩ seen last)
    (goesOn : StartsWithout pauses text)
    (ends : StartsWithout (fun character => !stops character) text) :
    ComesTo (Rule.textUntil stop pauses stops) (depth + 2) ⟨text, kinds⟩ none
      ⟨text, kinds⟩ := by
  have noRun :
      text.takeWhile (fun character => !pauses character && !stops character) = [] := by
    apply StartsWithout.takeWhile
    apply ends.narrow
    intro character both
    exact (Bool.and_eq_true_iff.mp both).2
  apply Fails.parse
  refine (Rounds.last ?_ : Rounds _ _ _ _ (some []) ⟨text, kinds⟩).loop.bind_fails fails_fail
  apply (comesTo_chars_none noRun).attempt.bind
  apply looks.peek.bind
  cases seen with
  | some _ =>
      exact comesTo_pure
  | none =>
      apply ComesTo.here
      intro checkpoint behind
      rw [behind]
      cases text with
      | nil =>
          exact comesTo_pure
      | cons character rest =>
          simp only [startsWithout_cons.mp goesOn]
          exact comesTo_pure

/-- In front of a backslash and at the end of the text it shows whether text ends. -/
theorem exists_comesTo_textStop
    (depth : Nat)
    (kinds : List StoryKind)
    (shields : StartsWithout (· != '\\') text) :
    ∃ seen last, ComesTo textStop (depth + 4) ⟨text, kinds⟩ seen last := by
  have noArrow : ¬ "->".toList <+: text := shields.not_prefix rfl rfl
  have noThread : ¬ "<-".toList <+: text := shields.not_prefix rfl rfl
  have noGlue : ¬ "<>".toList <+: text := shields.not_prefix rfl rfl
  by_cases empty : text = []
  · subst empty
    have ends :
        ComesTo (Rule.oneOf.firstOf
            [Rule.literal "->", Rule.literal "<-", endOfLine, Rule.literal "<>"])
          (depth + 3) ⟨[], kinds⟩ (some ()) ⟨[], kinds⟩ := by
      refine
        ComesTo.firstOf [Rule.literal "->", Rule.literal "<-"] comesTo_endOfLine_nil ?_
      simp only [List.forall_mem_cons, List.not_mem_nil, false_implies, implies_true,
        and_true]
      exact ⟨fails_literal noArrow, fails_literal noThread⟩
    exact ⟨_, _, ends.parse⟩
  · have dark : StartsDark text := by
      apply shields.narrow
      intro character space
      rw [bne_iff_ne]
      rintro rfl
      exact absurd space (by decide)
    have none :
        Fails (Rule.oneOf.firstOf
            [Rule.literal "->", Rule.literal "<-", endOfLine, Rule.literal "<>"])
          (depth + 3) ⟨text, kinds⟩ := by
      apply (comesTo_firstOf_none _).fails
      simp only [List.forall_mem_cons, List.not_mem_nil, false_implies, implies_true,
        and_true]
      exact
        ⟨fails_literal noArrow, fails_literal noThread, fails_endOfLine dark empty,
          fails_literal noGlue⟩
    exact ⟨_, _, none.parse⟩

/-- There is no plain text in front of a backslash and at the end of the text. -/
theorem comesTo_plainText_none
    (shields : StartsWithout (· != '\\') text) :
    ComesTo plainText (depth + 6) ⟨text, kinds⟩ none ⟨text, kinds⟩ := by
  obtain ⟨seen, last, looks⟩ := exists_comesTo_textStop depth kinds shields
  have goesOn : StartsWithout pausesText text := by
    apply shields.narrow
    intro character pauses
    rw [bne_iff_ne]
    rintro rfl
    exact absurd pauses (by decide)
  apply ComesTo.hasFlag
  intro inString
  apply ComesTo.isInChoice
  intro inChoice
  apply comesTo_textUntil_none looks goesOn
  apply shields.narrow
  intro character within
  rw [bne_iff_ne]
  rintro rfl
  rw [endsTextWithin_of_endsText inString inChoice (by decide)] at within
  cases within

end PlainText

section Text

variable
    {character : Char}
    {characters : List Char}
    {found : Option String}

theorem keepsFlags_optionalLiteral
    (expected : String) :
    KeepsFlags (optionalLiteral expected) :=
  (keepsFlags_scan _).attempt.bind fun _ => keepsFlags_pure

/-- A round in which text goes on, or ends. -/
def textRound
    (found : Option String) :
    GrammarRule (Option String ⊕ Option String) := do
  let chunk ← Rule.attempt (Rule.parse plainText)
  let shields ← optionalLiteral "\\"
  if chunk.isNone && !shields then return .inr found
  let shielded ← if shields then Rule.attempt Rule.anyChar else pure none
  return .inl (some (found.getD "" ++ chunk.getD "" ++ String.ofList shielded.toList))

theorem comesTo_anyChar :
    ComesTo Rule.anyChar depth ⟨character :: rest, kinds⟩ (some character)
      ⟨rest, kinds⟩ := by
  have found : Scanner.anyChar (character :: rest) = some (character, 1) :=
    rfl
  exact comesTo_scan depth kinds found

theorem brings_noPlainText
    (shields : StartsWithout (· != '\\') text) :
    Brings (Rule.attempt (Rule.parse plainText)) (depth + 7)
      (Sheet.Untagged ⟨text, kinds⟩ told) (some none)
      (Sheet.Untagged ⟨text, kinds⟩ told) :=
  (comesTo_plainText_none shields).fails.brings_tried fun _ untagged => untagged.page_eq

/-- A backslash and the character behind it are taken together. -/
theorem brings_textRound :
    Brings (textRound found) (depth + 7)
      (Sheet.Untagged ⟨'\\' :: character :: rest, kinds⟩ told)
      (some (.inl (some (found.getD "" ++ String.ofList [character]))))
      (Sheet.Untagged ⟨rest, kinds⟩ told) := by
  have shields :
      Brings (optionalLiteral "\\") (depth + 7)
        (Sheet.Untagged ⟨'\\' :: character :: rest, kinds⟩ told) (some true)
        (Sheet.Untagged ⟨character :: rest, kinds⟩ told) :=
    (comesTo_optionalLiteral rfl).brings_untagged (keepsFlags_optionalLiteral _)
  have shielded :
      Brings (Rule.attempt Rule.anyChar) (depth + 7)
        (Sheet.Untagged ⟨character :: rest, kinds⟩ told) (some (some character))
        (Sheet.Untagged ⟨rest, kinds⟩ told) :=
    comesTo_anyChar.attempt.brings_untagged (keepsFlags_scan _).attempt
  apply (brings_noPlainText (startsWithout_cons.mpr rfl)).bind
  apply shields.bind
  simp only [Bool.not_true, Bool.and_false, Bool.false_eq_true, ↓reduceIte]
  apply shielded.bind
  simp only [Option.getD_none, String.append_empty]
  exact brings_pure

/-- At the end of the text there is no more to take. -/
theorem brings_textRound_nil :
    Brings (textRound found) (depth + 7) (Sheet.Untagged ⟨[], kinds⟩ told)
      (some (.inr found)) (Sheet.Untagged ⟨[], kinds⟩ told) := by
  have noShield :
      Brings (optionalLiteral "\\") (depth + 7) (Sheet.Untagged ⟨[], kinds⟩ told)
        (some false) (Sheet.Untagged ⟨[], kinds⟩ told) :=
    (comesTo_optionalLiteral_none (by decide)).brings_untagged
      (keepsFlags_optionalLiteral _)
  apply (brings_noPlainText startsWithout_nil).bind
  apply noShield.bind
  exact brings_pure

theorem comesTo_textRound_nil :
    ComesTo (textRound found) (depth + 7) ⟨[], kinds⟩ (some (.inr found)) ⟨[], kinds⟩ := by
  apply (comesTo_plainText_none startsWithout_nil).fails.tried.bind
  apply (comesTo_optionalLiteral_none (by decide)).bind
  exact comesTo_pure

/-- Every round takes one character of a text that was escaped. -/
theorem turns_escapedText
    (written : String)
    (characters : List Char) :
    Turns textRound (depth + 7) characters.length (some written)
      (Sheet.Untagged ⟨escape characters, kinds⟩ told)
      (some (written ++ String.ofList characters))
      (Sheet.Untagged ⟨[], kinds⟩ told) := by
  induction characters generalizing written with
  | nil =>
      rw [String.ofList_nil, String.append_empty]
      exact .last brings_textRound_nil
  | cons character others inductionHypothesis =>
      have goesOn := inductionHypothesis (written ++ String.ofList [character])
      rw [String.append_assoc, ← String.ofList_append] at goesOn
      exact .again brings_textRound goesOn

theorem length_le_escape
    (characters : List Char) :
    characters.length ≤ (escape characters).length := by
  induction characters with
  | nil =>
      exact Nat.le_refl _
  | cons character others inductionHypothesis =>
      simp only [escape, List.length_cons]
      omega

/-- Escaped text is read as it was before it was escaped. -/
theorem brings_text
    (nonempty : characters ≠ []) :
    Brings Grammar.text (depth + 7) (Sheet.Untagged ⟨escape characters, kinds⟩ told)
      (some ⟨kinds.length⟩)
      (Sheet.Untagged ⟨[], kinds ++ [.text (String.ofList characters)]⟩ told) := by
  obtain ⟨first, others, rfl⟩ := List.exists_cons_of_ne_nil nonempty
  have begins :
      Brings (textRound none) (depth + 7)
        (Sheet.Untagged ⟨escape (first :: others), kinds⟩ told)
        (some (.inl (some (String.ofList [first]))))
        (Sheet.Untagged ⟨escape others, kinds⟩ told) := by
    have written : (none : Option String).getD "" ++ String.ofList [first] =
        String.ofList [first] := by
      rw [Option.getD_none, String.empty_append]
    rw [← written]
    exact brings_textRound
  have goesOn :
      Turns textRound (depth + 7) others.length (some (String.ofList [first]))
        (Sheet.Untagged ⟨escape others, kinds⟩ told)
        (some (String.ofList (first :: others)))
        (Sheet.Untagged ⟨[], kinds⟩ told) := by
    have written :
        String.ofList [first] ++ String.ofList others = String.ofList (first :: others) :=
      String.ofList_append.symm
    rw [← written]
    exact turns_escapedText _ _
  have turns :
      Turns textRound (depth + 7) (first :: others).length none
        (Sheet.Untagged ⟨escape (first :: others), kinds⟩ told)
        (some (String.ofList (first :: others)))
        (Sheet.Untagged ⟨[], kinds⟩ told) :=
    .again begins goesOn
  have reads :
      Brings (.loop none textRound) (depth + 7)
        (Sheet.Untagged ⟨escape (first :: others), kinds⟩ told)
        (some (some (String.ofList (first :: others))))
        (Sheet.Untagged ⟨[], kinds⟩ told) := by
    apply turns.loop
    intro sheet untagged
    rw [untagged.page_eq]
    exact length_le_escape _
  apply reads.bind
  exact comesTo_make.brings_untagged (keepsFlags_make _)

theorem fails_text_nil :
    Fails Grammar.text (depth + 7) ⟨[], kinds⟩ :=
  (Rounds.last comesTo_textRound_nil).loop.bind_fails fails_fail

end Text

section Prose

variable {characters : List Char}

theorem keepsFlags_atEnd :
    KeepsFlags Rule.atEnd :=
  fun _ _ _ _ _ => rfl

/-- Nothing else stands between texts where the text is at its end. -/
theorem fails_otherItem_nil :
    Fails (Rule.oneOf [braces, glue, openTag]) (depth + 2) ⟨[], kinds⟩ := by
  have noHash : Fails openTag depth ⟨[], kinds⟩ := by
    apply (comesTo_skipBlanks rfl).bind_fails
    exact (fails_literal (by decide)).bind
  apply Fails.parse_fails
  apply (comesTo_firstOf_none _).fails
  simp only [List.forall_mem_cons, List.not_mem_nil, false_implies, implies_true, and_true]
  exact ⟨(fails_literal (by decide)).bind, (fails_literal (by decide)).bind, noHash⟩

/-- Escaped text is one item, and there are no others. -/
theorem brings_items
    (nonempty : characters ≠ []) :
    Brings
      (Rule.alternate (Rule.optionally Grammar.text)
        (Rule.optionally (Rule.oneOf [braces, glue, openTag])))
      (depth + 10) (Sheet.Untagged ⟨escape characters, kinds⟩ told)
      (some [⟨kinds.length⟩])
      (Sheet.Untagged ⟨[], kinds ++ [.text (String.ofList characters)]⟩ told) := by
  have first :
      Brings (Rule.optionally Grammar.text) (depth + 8)
        (Sheet.Untagged ⟨escape characters, kinds⟩ told)
        (some (.one ⟨kinds.length⟩))
        (Sheet.Untagged ⟨[], kinds ++ [.text (String.ofList characters)]⟩ told) := by
    apply (brings_text nonempty).tried.bind
    exact brings_pure
  have noMore
      {more : List StoryKind} :
      Brings (Rule.optionally Grammar.text) (depth + 8) (Sheet.Untagged ⟨[], more⟩ told)
        (some (.neutral : Step NodeId)) (Sheet.Untagged ⟨[], more⟩ told) := by
    apply (fails_text_nil.brings_tried fun _ untagged => untagged.page_eq).bind
    exact brings_pure
  have noOther
      {more : List StoryKind} :
      Brings (Rule.optionally (Rule.oneOf [braces, glue, openTag])) (depth + 8)
        (Sheet.Untagged ⟨[], more⟩ told) (some (.neutral : Step NodeId))
        (Sheet.Untagged ⟨[], more⟩ told) := by
    apply (fails_otherItem_nil.brings_tried fun _ untagged => untagged.page_eq).bind
    exact brings_pure
  have round
      {more : List StoryKind}
      {items : List NodeId} :
      Brings
        (Rule.alternateRound (Rule.optionally Grammar.text)
          (Rule.optionally (Rule.oneOf [braces, glue, openTag]))
          (Rule.fail : GrammarRule Unit) items)
        (depth + 9) (Sheet.Untagged ⟨[], more⟩ told) (some (.inr items))
        (Sheet.Untagged ⟨[], more⟩ told) := by
    apply (comesTo_fail.brings_peek fun _ untagged => untagged.page_eq).bind
    apply noOther.tried.bind
    apply noMore.tried.bind
    apply (comesTo_atEnd.brings_untagged keepsFlags_atEnd).bind
    simp only [Step.isNeutral, Bool.and_self, Bool.true_or, ↓reduceIte, Step.values,
      List.append_nil]
    exact brings_pure
  apply Brings.parse
  apply first.parse.bind
  apply Brings.bind ((Turns.last round).loop fun _ _ => Nat.zero_le _)
  exact brings_pure

/-- At the end of the text no divert ends prose. -/
theorem brings_proseEnding_nil :
    Brings proseEnding (depth + 4) (Sheet.Untagged ⟨[], kinds⟩ told) (some none)
      (Sheet.Untagged ⟨[], kinds⟩ told) := by
  apply Brings.isInChoice
  intro inChoice
  cases inChoice with
  | true =>
      exact brings_pure
  | false =>
      have noDiverts : Fails diverts (depth + 3) ⟨[], kinds⟩ :=
        fails_diverts rfl (by decide) (by decide)
      exact noDiverts.brings_tried fun _ untagged => untagged.page_eq

/-- Escaped text is prose, and all of it is one text. -/
theorem brings_prose
    (nonempty : characters ≠ []) :
    Brings prose (depth + 11) (Sheet.Untagged ⟨escape characters, kinds⟩ told)
      (some [⟨kinds.length⟩])
      (Sheet.Untagged ⟨[], kinds ++ [.text (String.ofList characters)]⟩ told) := by
  apply Brings.read
  apply (brings_items nonempty).attempt.bind
  apply brings_proseEnding_nil.bind
  exact brings_pure

end Prose

section Lines

variable
    {id : NodeId}
    {kind : StoryKind}
    {written : String}
    {characters : List Char}

/-- An amendment that changes nothing. -/
theorem comesTo_amend_same
    {amendment : Amendment}
    (known : kinds[id.index]? = some kind)
    (same : amendment.apply kind = kind) :
    ComesTo (amend id amendment) depth ⟨text, kinds⟩ (some ()) ⟨text, kinds⟩ := by
  intro library maxDepth files levels machine ready
  obtain ⟨rfl, rfl⟩ := Page.mk.inj ready.at_
  have unchanged := Draft.kinds_modify_same known same
  have complete : machine.host.draft.missingAmong? [id] = none := by
    rw [← Draft.kind?_eq_getElem?] at known
    simp [Draft.missingAmong?, known]
  refine
    ⟨{ machine with
        host :=
          { machine.host with
            draft := machine.host.draft.modify id amendment.apply } },
      ?_, ?_, ?_⟩
  · refine ⟨.work machine _, rfl, rfl, ?_⟩
    simp only [unchanged, List.prefix_rfl]
  · exact congrArg (Page.mk _) unchanged
  · simp only [amend, Site.outcome, Rule.run, Reading.performs, Workshop.handle,
      Workshop.unlessMissing, complete, Workshop.redraft, Outcome.ended]

theorem brings_kindOf
    (known : kinds[id.index]? = some kind) :
    Brings (kindOf id) depth (Sheet.Untagged ⟨text, kinds⟩ told) (some kind)
      (Sheet.Untagged ⟨text, kinds⟩ told) :=
  (comesTo_kindOf known).brings_untagged (keepsFlags_kindOf id)

/-- A line that begins like the end of a function is warned of, and no more. -/
theorem brings_warnOfReturn
    (known : kinds[id.index]? = some (.text written))
    (tells :
      ∀ (session : Session) (message : String) (line : Nat) (file : Option String),
        told session → told (session.deliver ⟨message, .warning, line, file⟩)) :
    Brings (warnOfReturn id) depth (Sheet.Untagged ⟨text, kinds⟩ told) (some ())
      (Sheet.Untagged ⟨text, kinds⟩ told) := by
  have asks :
      Brings (isTextThat ("return".toList.isPrefixOf ·.toList) id) depth
        (Sheet.Untagged ⟨text, kinds⟩ told)
        (some ("return".toList.isPrefixOf written.toList))
        (Sheet.Untagged ⟨text, kinds⟩ told) := by
    apply (brings_kindOf known).bind
    exact brings_pure
  apply asks.bind
  split
  · exact brings_warning _ fun session line file => tells session _ line file
  · exact brings_pure

/-- Text that does not end in a blank is not trimmed. -/
theorem brings_trimContentEnd
    (known : kinds[id.index]? = some (.text written))
    (nonempty : written.isEmpty = false)
    (ends : dropEndWhile written isInlineBlank = written) :
    Brings (trimContentEnd [id]) depth (Sheet.Untagged ⟨text, kinds⟩ told) (some [id])
      (Sheet.Untagged ⟨text, kinds⟩ told) := by
  have trims :
      Brings (trimLast [id]) depth (Sheet.Untagged ⟨text, kinds⟩ told) (some [id])
        (Sheet.Untagged ⟨text, kinds⟩ told) := by
    apply (brings_kindOf known).bind
    simp only [ends]
    apply ((comesTo_amend_same known rfl).brings_untagged (keepsFlags_amend _ _)).bind
    rw [nonempty]
    exact brings_pure
  exact trims.bind brings_pure

/-- A line that is one text gets its line feed. -/
theorem brings_withLineFeed
    (known : kinds[id.index]? = some (.text written)) :
    Brings (withLineFeed [id]) depth (Sheet.Untagged ⟨text, kinds⟩ told)
      (some [id, ⟨kinds.length⟩])
      (Sheet.Untagged ⟨text, kinds ++ [.text "\n"]⟩ told) := by
  have noTag :
      Brings (beginsWithTag [id]) depth (Sheet.Untagged ⟨text, kinds⟩ told) (some false)
        (Sheet.Untagged ⟨text, kinds⟩ told) := by
    apply (brings_kindOf known).bind
    exact brings_pure
  have feeds :
      Brings (makeText "\n") depth (Sheet.Untagged ⟨text, kinds⟩ told)
        (some ⟨kinds.length⟩) (Sheet.Untagged ⟨text, kinds ++ [.text "\n"]⟩ told) :=
    comesTo_make.brings_untagged (keepsFlags_make _)
  apply noTag.bind
  exact feeds.bind brings_pure

theorem dropEndWhile_of_startsWithout
    (ends : StartsWithout isInlineBlank characters.reverse) :
    dropEndWhile (String.ofList characters) isInlineBlank = String.ofList characters := by
  rw [dropEndWhile, String.toList_ofList, ends.dropWhile, List.reverse_reverse]

/-- Escaped text is a line of prose that is one text, and its line feed. -/
theorem brings_proseLine
    (nonempty : characters ≠ [])
    (ends : StartsWithout isInlineBlank characters.reverse)
    (tells :
      ∀ (session : Session) (message : String) (line : Nat) (file : Option String),
        told session → told (session.deliver ⟨message, .warning, line, file⟩)) :
    Brings proseLine (depth + 12) (Sheet.Untagged ⟨escape characters, kinds⟩ told)
      (some [⟨kinds.length⟩, ⟨kinds.length + 1⟩])
      (Sheet.On ⟨[], kinds ++ [.text (String.ofList characters), .text "\n"]⟩ told) := by
  let written := String.ofList characters
  let more := kinds ++ [NodeKind.text written]
  have known : more[(⟨kinds.length⟩ : NodeId).index]? = some (.text written) := by
    simp [more]
  have isText : written.isEmpty = false := by
    simpa [written, String.isEmpty_iff] using nonempty
  have same : dropEndWhile written isInlineBlank = written :=
    dropEndWhile_of_startsWithout ends
  have noBlanks :
      Brings (Rule.attempt (Rule.parse blanks)) (depth + 12)
        (Sheet.Untagged ⟨escape characters, kinds⟩ told) (some none)
        (Sheet.Untagged ⟨escape characters, kinds⟩ told) := by
    have noBlank : StartsWithout isInlineBlank (escape characters) :=
      startsWithout_escape rfl characters
    exact
      (comesTo_chars_none noBlank.takeWhile).bind_none.fails.brings_tried
        fun _ untagged => untagged.page_eq
  have noDivert :
      Brings (endsInDivert [⟨kinds.length⟩]) (depth + 12) (Sheet.Untagged ⟨[], more⟩ told)
        (some false) (Sheet.Untagged ⟨[], more⟩ told) := by
    apply (brings_kindOf known).bind
    exact brings_pure
  have feeds :
      Brings (withLineFeed [⟨kinds.length⟩]) (depth + 12) (Sheet.Untagged ⟨[], more⟩ told)
        (some [⟨kinds.length⟩, ⟨kinds.length + 1⟩])
        (Sheet.Untagged ⟨[], kinds ++ [.text (String.ofList characters), .text "\n"]⟩
          told) := by
    have fed := @brings_withLineFeed (depth + 12) told more [] _ _ known
    rwa [List.append_assoc, List.length_append] at fed
  have atEnd :
      Brings (Rule.attempt (Rule.expectOr endOfLine "end of line" skipLine)) (depth + 12)
        (Sheet.Untagged
          ⟨[], kinds ++ [.text (String.ofList characters), .text "\n"]⟩ told)
        (some (some ()))
        (Sheet.On
          ⟨[], kinds ++ [.text (String.ofList characters), .text "\n"]⟩ told) :=
    comesTo_endOfLine_nil.expectOr.attempt.brings_flagged
  apply noBlanks.bind
  apply (brings_prose nonempty).parse.bind
  apply (brings_warnOfReturn known tells).bind
  apply noDivert.bind
  apply (brings_trimContentEnd known isText same).bind
  apply brings_closeTag.bind
  apply feeds.bind
  apply atEnd.bind
  exact brings_pure

/-- No statement but prose begins with a backslash, so escaped text is a line of prose. -/
theorem brings_statement_escape
    (nonempty : characters ≠ [])
    (ends : StartsWithout isInlineBlank characters.reverse)
    (tells :
      ∀ (session : Session) (message : String) (line : Nat) (file : Option String),
        told session → told (session.deliver ⟨message, .warning, line, file⟩)) :
    Brings (statement .top) (depth + 14) (Sheet.Untagged ⟨escape characters, []⟩ told)
      (some [⟨0⟩, ⟨1⟩])
      (Sheet.On ⟨[], [.text (String.ofList characters), .text "\n"]⟩ told) := by
  have unmarked : StartsUnmarked (escape characters) :=
    startsWithout_escape rfl characters
  have noWord : StartsWithout isIdentifierChar (escape characters) :=
    startsWithout_escape (by decide) characters
  refine
    brings_statement
      (markedStatements ++ wordedStatements.map (fun rule => single (wholeLine rule)) ++
        [logicLine])
      rfl ?_ (fun _ untagged => untagged.page_eq) (brings_proseLine nonempty ends tells) ?_
  · intro other member
    rcases List.mem_append.mp member with before | isLogic
    · rcases List.mem_append.mp before with isMarked | isDeclaration
      · refine (fails_marked unmarked ?_) other isMarked
        rw [noWord.takeWhile]
        nofun
      · obtain ⟨rule, isRule, rfl⟩ := List.mem_map.mp isDeclaration
        exact (fails_worded unmarked noWord rule isRule).wholeLine.bind
    · rw [List.mem_singleton.mp isLogic]
      exact fails_logicLine unmarked
  · simp

end Lines

end Grammar

/-- A session that counts warnings as the options say and has no error unless they are
counted as such. -/
structure Session.IsFreeOfErrors
    (options : Options)
    (session : Session) : Prop where
  counts : session.warningsAsErrors = options.warningsAsErrors
  noError :
    options.warningsAsErrors = false →
      ∀ diagnostic ∈ session.delivered, diagnostic.severity ≠ .error

theorem Session.IsFreeOfErrors.warned
    {options : Options}
    {session : Session}
    (free : session.IsFreeOfErrors options)
    (message : String)
    (line : Nat)
    (file : Option String) :
    (session.deliver ⟨message, .warning, line, file⟩).IsFreeOfErrors options where
  counts := free.counts
  noError lenient diagnostic member := by
    rcases List.mem_append.mp member with earlier | isNew
    · exact free.noError lenient diagnostic earlier
    · rw [List.mem_singleton.mp isNew, free.counts, lenient]
      simp

/-- Text with a backslash before every character is read as a line of this text, without
an error, whatever else it would have meant. -/
theorem readScript_escape
    (library : Library)
    (options : Options)
    (file : Option String)
    (written : String)
    (nonempty : written ≠ "")
    (ends :
      ∀ last, written.toList.getLast? = some last → last ≠ ' ' ∧ last ≠ '\t')
    (room : 18 ≤ options.maxStackDepth) :
    ∃ reading weave text lineFeed,
      readScript library options (String.ofList (escape written.toList)) file =
          .ok reading ∧
        (options.warningsAsErrors = false →
          ∀ diagnostic ∈ reading.diagnostics, diagnostic.severity ≠ .error) ∧
        reading.story.content = [weave] ∧
        reading.story.kind? weave = some (.weave [text, lineFeed] 0) ∧
        reading.story.kind? text = some (.text written) ∧
        reading.story.kind? lineFeed = some (.text "\n") ∧
        text ≠ lineFeed := by
  let told := Session.IsFreeOfErrors options
  have unblank : StartsWithout isInlineBlank written.toList.reverse := by
    intro last isLast
    rw [List.head?_reverse] at isLast
    simpa [isInlineBlank] using ends last isLast
  let script := String.ofList (escape written.toList)
  have characters : script.toList = escape written.toList := String.toList_ofList
  have stripped : Comment.strip script = .ok script := by
    apply Comment.strip_of_isChain
    rw [characters]
    exact isChain_escape _
  have dark : StartsDark script.toList := by
    rw [characters]
    exact startsWithout_escape rfl _
  have reads :
      Grammar.Brings (Grammar.statement .top) 14
        (Sheet.Untagged ⟨script.toList, []⟩ told) (some [⟨0⟩, ⟨1⟩])
        (Sheet.On ⟨[], [.text written, .text "\n"]⟩ told) := by
    have statement :
        Grammar.Brings (Grammar.statement .top) 14
          (Sheet.Untagged ⟨script.toList, []⟩ told) (some [⟨0⟩, ⟨1⟩])
          (Sheet.On ⟨[], [.text (String.ofList written.toList), .text "\n"]⟩ told) := by
      rw [characters]
      exact
        Grammar.brings_statement_escape (by simpa using nonempty) unblank
          fun _ message line file free => free.warned message line file
    rwa [String.ofList_toList] at statement
  obtain ⟨reading, session, place, reached, weave, isRead, delivered, isTold, content,
      isWeave, atNodes, copies⟩ :=
    Reading.exists_reading_of_statement stripped dark reads (List.cons_ne_nil _ _)
      (by simp [Draft.IsPlain, NodeKind.weavePointDepth?, NodeKind.isFlow])
      (fun _ => ⟨rfl, fun _ _ member => absurd member List.not_mem_nil⟩) (Nat.lt_of_succ_le room)
  have atText : reached ⟨0⟩ :=
    atNodes _ List.mem_cons_self
  have atFeed : reached ⟨1⟩ :=
    atNodes _ (List.mem_cons_of_mem _ List.mem_cons_self)
  refine
    ⟨reading, weave, place ⟨0⟩, place ⟨1⟩, isRead, ?_, content, isWeave,
      copies.kind? atText rfl rfl, copies.kind? atFeed rfl rfl, ?_⟩
  · rw [delivered]
    exact isTold.noError
  · intro same
    cases copies.apart atText atFeed same

/-- Comments, a declaration, logic, line ends and a backslash mean nothing of their own. -/
theorem readScript_escape_everything :
    "/*\r\nVAR\\->\x7b|#".toList.getLast? = some '#' ∧
      ∃ reading weave text lineFeed,
        readScript (.ofFiles []) {}
              (String.ofList (escape "/*\r\nVAR\\->\x7b|#".toList)) none =
            .ok reading ∧
          (({} : Options).warningsAsErrors = false →
            ∀ diagnostic ∈ reading.diagnostics, diagnostic.severity ≠ .error) ∧
          reading.story.content = [weave] ∧
          reading.story.kind? weave = some (.weave [text, lineFeed] 0) ∧
          reading.story.kind? text = some (.text "/*\r\nVAR\\->\x7b|#") ∧
          reading.story.kind? lineFeed = some (.text "\n") ∧
          text ≠ lineFeed := by
  refine ⟨by decide, readScript_escape _ _ _ _ (by decide) ?_ (by decide)⟩
  intro last isLast
  have same : some '#' = some last := isLast
  cases same
  exact ⟨by decide, by decide⟩

end InkSyntax
