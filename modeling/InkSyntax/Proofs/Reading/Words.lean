import InkSyntax.Proofs.Grammar.HeaderText
import InkSyntax.Proofs.Machine.Cursors
import InkSyntax.Proofs.Machine.Separation
import InkSyntax.Proofs.Reading.Pages

namespace InkSyntax

/-!
# Words and lists on a page

Names, blanks and lists with separators, followed on a page.  A name ends where a
character follows that cannot stand in one, so what follows a word matters as much
as the word does.
-/

/-- A text is empty or begins with a line break. -/
def EndsLine (text : List Char) : Prop :=
  ∀ character, text.head? = some character → character = '\n' ∨ character = '\r'

/-- A comma or a closing parenthesis stands at the start of a text. -/
def EndsItem (text : List Char) : Prop :=
  text.head? = some ',' ∨ text.head? = some ')'

/-- Words behind the first one of some, each behind a separator, and what follows them. -/
def furtherWords
    (separator rest : List Char) :
    List String → List Char
  | [] => rest
  | word :: others =>
      separator ++ (word.toList ++ furtherWords separator rest others)

/-- Words with a separator between them, and what follows them. -/
def separatedWords
    (separator rest : List Char) :
    List String → List Char
  | [] => rest
  | first :: others => first.toList ++ furtherWords separator rest others

section Texts

variable
    {accept : Char → Bool}
    {character : Char}
    {run text rest : List Char}

theorem EndsLine.startsWithout
    (ends : EndsLine text)
    (feed : accept '\n' = false)
    (carriage : accept '\r' = false) :
    StartsWithout accept text := by
  intro character first
  rcases ends character first with rfl | rfl
  · exact feed
  · exact carriage

theorem EndsLine.head?_ne
    (ends : EndsLine text)
    (noFeed : character ≠ '\n')
    (noCarriage : character ≠ '\r') :
    text.head? ≠ some character := by
  intro first
  rcases ends character first with isFeed | isCarriage
  · exact noFeed isFeed
  · exact noCarriage isCarriage

theorem isIdentifierChar_of_isDigit
    (digit : isDigit character = true) :
    isIdentifierChar character = true := by
  simp [isIdentifierChar, isAsciiWordChar, digit]

theorem not_isInlineBlank_of_isIdentifierChar
    (identifier : isIdentifierChar character = true) :
    isInlineBlank character = false := by
  apply Bool.eq_false_iff.mpr
  intro blank
  have isBlank : character = ' ' ∨ character = '\t' := by
    simpa [isInlineBlank] using blank
  rcases isBlank with rfl | rfl
  · exact absurd identifier (by decide)
  · exact absurd identifier (by decide)

/-- A text does not begin with another one that has a different first character. -/
theorem not_prefix_of_head?
    {expected : List Char}
    (starts : expected.head? = some character)
    (differs : text.head? ≠ some character) :
    ¬ expected <+: text := by
  rintro ⟨rest, rfl⟩
  apply differs
  rw [List.head?_append, starts, Option.some_or]

namespace EndsItem

theorem startsWithout
    {accept : Char → Bool}
    (ends : EndsItem text)
    (comma : accept ',' = false)
    (closing : accept ')' = false) :
    StartsWithout accept text := by
  intro character first
  rcases ends with isComma | isClosing
  · rw [isComma] at first
    cases first
    exact comma
  · rw [isClosing] at first
    cases first
    exact closing

theorem not_prefix
    {expected : List Char}
    {character : Char}
    (ends : EndsItem text)
    (starts : expected.head? = some character)
    (noComma : character ≠ ',')
    (noClosing : character ≠ ')') :
    ¬ expected <+: text := by
  apply not_prefix_of_head? starts
  rcases ends with isComma | isClosing
  · rw [isComma]
    exact fun same => noComma (Option.some.inj same).symm
  · rw [isClosing]
    exact fun same => noClosing (Option.some.inj same).symm

end EndsItem

theorem endsItem_furtherWords
    (rest : List Char)
    (words : List String) :
    EndsItem (furtherWords [',', ' '] (')' :: rest) words) := by
  cases words with
  | nil =>
      exact .inr rfl
  | cons word others =>
      exact .inl rfl

theorem toList_intercalate
    (rest : List Char)
    (separator : String)
    (words : List String) :
    (String.intercalate separator words).toList ++ rest =
      separatedWords separator.toList rest words := by
  cases words with
  | nil =>
      rfl
  | cons first others =>
      induction others generalizing first with
      | nil =>
          simp [separatedWords, furtherWords]
      | cons second others inductionHypothesis =>
          rw [String.intercalate_cons_cons, String.toList_append,
            String.toList_append, List.append_assoc, List.append_assoc,
            inductionHypothesis second]
          rfl

theorem toList_inParentheses
    (rest : List Char)
    (words : List String) :
    ("(" ++ String.intercalate ", " words ++ ")").toList ++ rest =
      '(' :: separatedWords [',', ' '] (')' :: rest) words := by
  have separated := toList_intercalate (')' :: rest) ", " words
  simpa using separated

end Texts

namespace Grammar

@[simp] theorem withoutBlanks_space
    {rest : List Char} :
    withoutBlanks (' ' :: rest) = withoutBlanks rest :=
  rfl

theorem withoutBlanks_of_endsItem
    {text : List Char}
    (ends : EndsItem text) :
    withoutBlanks text = text :=
  (ends.startsWithout (by decide) (by decide)).dropWhile

/-- A run of identifier characters that are not all digits. -/
def IsName (word : String) : Prop :=
  word.toList.all isIdentifierChar = true ∧ word.toList.all isDigit = false

instance (word : String) : Decidable (IsName word) :=
  inferInstanceAs (Decidable (_ ∧ _))

namespace IsName

variable
    {character : Char}
    {rest : List Char}
    {word : String}

/-- A name begins with an identifier character. -/
theorem exists_cons
    (isName : IsName word) :
    ∃ first others,
      word.toList = first :: others ∧ isIdentifierChar first = true := by
  obtain ⟨spelled, notDigits⟩ := isName
  cases letters : word.toList with
  | nil =>
      rw [letters] at notDigits
      cases notDigits
  | cons first others =>
      rw [letters] at spelled
      exact ⟨first, others, rfl, (Bool.and_eq_true_iff.mp spelled).1⟩

theorem ne_nil
    (isName : IsName word) :
    word.toList ≠ [] := by
  obtain ⟨first, others, letters, -⟩ := isName.exists_cons
  rw [letters]
  exact List.cons_ne_nil first others

/-- A text that begins with a name begins with no other character. -/
theorem head?_ne
    (isName : IsName word)
    (other : isIdentifierChar character = false) :
    (word.toList ++ rest).head? ≠ some character := by
  obtain ⟨first, others, letters, identifier⟩ := isName.exists_cons
  rw [letters]
  rintro ⟨⟩
  rw [other] at identifier
  cases identifier

theorem startsWithout
    {accept : Char → Bool}
    (isName : IsName word)
    (rejects :
      ∀ character,
        isIdentifierChar character = true → accept character = false) :
    StartsWithout accept (word.toList ++ rest) := by
  obtain ⟨first, others, letters, identifier⟩ := isName.exists_cons
  rw [letters]
  exact startsWithout_cons.mpr (rejects first identifier)

/-- No blank stands before a name. -/
@[simp] theorem withoutBlanks
    (isName : IsName word) :
    withoutBlanks (word.toList ++ rest) = word.toList ++ rest :=
  (isName.startsWithout fun _ => not_isInlineBlank_of_isIdentifierChar).dropWhile

theorem withoutBlanks_space
    (isName : IsName word) :
    Grammar.withoutBlanks (' ' :: (word.toList ++ rest)) =
      word.toList ++ rest :=
  isName.withoutBlanks

end IsName

variable
    {α β : Type}
    {depth : Nat}
    {kinds : List StoryKind}
    {text rest : List Char}
    {word : String}

section Words

theorem comesTo_blanks
    (nonempty : text.takeWhile isInlineBlank ≠ []) :
    ComesTo blanks depth ⟨text, kinds⟩ (some ()) ⟨withoutBlanks text, kinds⟩ :=
  (comesTo_chars _ _ nonempty).bind comesTo_pure

theorem comesTo_skipBlanks
    (left : withoutBlanks text = rest) :
    ComesTo skipBlanks depth ⟨text, kinds⟩ (some ()) ⟨rest, kinds⟩ := by
  subst left
  by_cases dark : text.takeWhile isInlineBlank = []
  · have same : withoutBlanks text = text := by
      have whole := List.takeWhile_append_dropWhile (p := isInlineBlank) (l := text)
      rw [dark] at whole
      exact whole
    have none : ComesTo blanks depth ⟨text, kinds⟩ none ⟨text, kinds⟩ :=
      (comesTo_chars_none dark).bind_none
    rw [same]
    exact none.attempt.bind comesTo_pure
  · exact (comesTo_blanks dark).attempt.bind comesTo_pure

theorem comesTo_optionalLiteral
    {expected : String}
    (stands : text = expected.toList ++ rest) :
    ComesTo (optionalLiteral expected) depth ⟨text, kinds⟩ (some true)
      ⟨rest, kinds⟩ :=
  (comesTo_literal stands).attempt.bind comesTo_pure

theorem comesTo_optionalLiteral_none
    {expected : String}
    (differs : ¬ expected.toList <+: text) :
    ComesTo (optionalLiteral expected) depth ⟨text, kinds⟩ (some false)
      ⟨text, kinds⟩ :=
  (comesTo_literal_none _ _ differs).attempt.bind comesTo_pure

theorem comesTo_name
    (isName : IsName word)
    (ends : StartsWithout isIdentifierChar rest) :
    ComesTo name (depth + 1) ⟨word.toList ++ rest, kinds⟩ (some word)
      ⟨rest, kinds⟩ := by
  have run := takeWhile_run _ isName.1 ends
  have letters :
      ComesTo (Rule.chars isIdentifierChar) depth
        ⟨word.toList ++ rest, kinds⟩ (some word) ⟨rest, kinds⟩ := by
    have taken :=
      comesTo_chars depth kinds
        (by rw [run]; exact isName.ne_nil)
    rwa [run, dropWhile_run _ isName.1 ends, String.ofList_toList] at taken
  have notDigits :
      ComesTo (Rule.require (!word.toList.all isDigit)) depth ⟨rest, kinds⟩
        (some ()) ⟨rest, kinds⟩ := by
    rw [isName.2]
    exact comesTo_require
  apply ComesTo.parse
  apply letters.bind
  apply notDigits.bind
  exact comesTo_pure

/-- Digits alone are no name, and neither is nothing at all. -/
theorem comesTo_name_none
    (digits : List Char)
    (areDigits : digits.all isDigit = true)
    (ends : StartsWithout isIdentifierChar rest) :
    ComesTo name (depth + 1) ⟨digits ++ rest, kinds⟩ none
      ⟨digits ++ rest, kinds⟩ := by
  have identifiers : digits.all isIdentifierChar = true := by
    apply List.all_eq_true.mpr
    intro character member
    exact
      isIdentifierChar_of_isDigit (List.all_eq_true.mp areDigits character member)
  have run := takeWhile_run _ identifiers ends
  apply Fails.parse
  by_cases empty : digits = []
  · exact ⟨_, (comesTo_chars_none (by rw [run, empty])).bind_none⟩
  · have taken :=
      comesTo_chars depth kinds (by rw [run]; exact empty)
    refine taken.bind_fails ?_
    rw [run, String.toList_ofList, areDigits]
    exact fails_require.bind

theorem comesTo_identifier
    (depth : Nat)
    (kinds : List StoryKind)
    (isName : IsName word)
    (ends : StartsWithout isIdentifierChar rest) :
    ComesTo identifier (depth + 2) ⟨word.toList ++ rest, kinds⟩
      (some ⟨kinds.length⟩) ⟨rest, kinds ++ [.identifier word]⟩ :=
  ((comesTo_name isName ends).bind comesTo_make).parse

theorem comesTo_identifier_none
    (depth : Nat)
    (kinds : List StoryKind)
    {digits : List Char}
    (areDigits : digits.all isDigit = true)
    (ends : StartsWithout isIdentifierChar rest) :
    ComesTo identifier (depth + 2) ⟨digits ++ rest, kinds⟩ none
      ⟨digits ++ rest, kinds⟩ :=
  Fails.parse ⟨_, (comesTo_name_none _ areDigits ends).bind_none⟩

/-- A rule with blanks on either side. -/
theorem ComesTo.spaced
    [StandsFor α]
    {rule : GrammarRule α}
    {value : α}
    {inner after : List Char}
    {more : List StoryKind}
    (before : withoutBlanks text = inner)
    (comes :
      ComesTo rule depth ⟨inner, kinds⟩ (some value) ⟨after, more⟩)
    (behind : withoutBlanks after = rest) :
    ComesTo (spaced rule) (depth + 1) ⟨text, kinds⟩ (some value)
      ⟨rest, more⟩ :=
  (comesTo_skipBlanks before).bind
    (comes.parse.bind ((comesTo_skipBlanks behind).bind comesTo_pure))

theorem Fails.spaced
    [StandsFor α]
    {rule : GrammarRule α}
    {inner : List Char}
    (before : withoutBlanks text = inner)
    (fails : Fails rule depth ⟨inner, kinds⟩) :
    Fails (spaced rule) (depth + 1) ⟨text, kinds⟩ :=
  (comesTo_skipBlanks before).bind_fails fails.parse_fails.bind

end Words

section Lists

variable
    {item : GrammarRule α}
    {separator : GrammarRule β}
    {page middle last : Page}
    {value : α}
    {values : List α}

/-- Further items of a list, each behind a separator. -/
inductive Listed
    (item : GrammarRule α)
    (separator : GrammarRule β)
    (depth : Nat) :
    Page → List α → Page → Prop where
  | done
      {page : Page}
      (ends : Fails separator depth page) :
      Listed item separator depth page [] page
  | more
      {page between middle last : Page}
      {mark : β}
      {value : α}
      {values : List α}
      (separated : ComesTo separator depth page (some mark) between)
      (goesOn : ComesTo item depth between (some value) middle)
      (shorter : middle.text.length < page.text.length)
      (others : Listed item separator depth middle values last) :
      Listed item separator depth page (value :: values) last

/-- At the end of the text there are no further items. -/
theorem Listed.of_isEmpty
    (listed : Listed item separator depth page values last)
    (empty : page.text = []) :
    values = [] ∧ page = last := by
  cases listed with
  | done ends =>
      exact ⟨rfl, rfl⟩
  | more separated goesOn shorter others =>
      rw [empty] at shorter
      exact absurd shorter (Nat.not_lt_zero _)

theorem rounds_alternate
    [StandsFor α]
    [StandsFor β]
    [StandsFor (Step α)]
    (listed : Listed item separator depth page values last)
    (found : List α) :
    Rounds
      (Rule.alternateRound (Rule.single item) (Rule.dropped separator)
        (Rule.fail : GrammarRule Unit))
      (depth + 2) found page (some (found ++ values)) last := by
  have unstopped
      (page : Page) :
      ComesTo (Rule.peek (Rule.fail : GrammarRule Unit)) (depth + 2) page
        (some false) page :=
    comesTo_fail.peek
  induction listed generalizing found with
  | done ends =>
      apply Rounds.last
      apply (unstopped _).bind
      apply (ends.parse_fails.bind.tried).bind
      rw [List.append_nil]
      exact comesTo_pure
  | @more page between middle last mark value values separated goesOn shorter
      others inductionHypothesis =>
      have drops :
          ComesTo (Rule.dropped separator) (depth + 1) page
            (some (.neutral : Step α)) between :=
        separated.parse.bind comesTo_pure
      have singles :
          ComesTo (Rule.single item) (depth + 1) between
            (some (.one value)) middle :=
        goesOn.parse.bind comesTo_pure
      have ends :
          ComesTo Rule.atEnd (depth + 2) middle (some middle.text.isEmpty)
            middle :=
        comesTo_atEnd
      by_cases empty : middle.text.isEmpty = true
      · obtain ⟨rfl, rfl⟩ := others.of_isEmpty (List.isEmpty_iff.mp empty)
        apply Rounds.last
        apply (unstopped _).bind
        apply drops.tried.bind
        apply singles.tried.bind
        apply ends.bind
        simp only [empty, Bool.or_true, ↓reduceIte, Step.values,
          List.append_nil]
        exact comesTo_pure
      · have rounds := inductionHypothesis (found ++ [value])
        rw [List.append_assoc] at rounds
        apply Rounds.again _ shorter rounds
        apply (unstopped _).bind
        apply drops.tried.bind
        apply singles.tried.bind
        apply ends.bind
        simp only [empty, Step.isNeutral, Step.values, Bool.and_false,
          Bool.or_self, Bool.false_eq_true, ↓reduceIte, List.append_nil]
        exact comesTo_pure

/-- Items between separators are read in order. -/
theorem comesTo_alternate
    [StandsFor α]
    [StandsFor β]
    [StandsFor (Step α)]
    [StandsFor (List α)]
    (first : ComesTo item depth page (some value) middle)
    (listed : Listed item separator depth middle values last) :
    ComesTo
      (Rule.alternate (Rule.single item) (Rule.dropped separator))
      (depth + 3) page (some (value :: values)) last := by
  have single :
      ComesTo (Rule.single item) (depth + 1) page (some (.one value)) middle :=
    first.parse.bind comesTo_pure
  apply ComesTo.parse
  apply single.parse.bind
  apply (rounds_alternate listed [value]).loop.bind
  exact comesTo_pure

theorem comesTo_alternate_none
    [StandsFor α]
    [StandsFor β]
    [StandsFor (Step α)]
    [StandsFor (List α)]
    (fails : Fails item depth page) :
    ComesTo
      (Rule.alternate (Rule.single item) (Rule.dropped separator))
      (depth + 3) page none page :=
  Fails.parse (Fails.bind (Fails.parse_fails fails.parse_fails.bind))

theorem rounds_separated
    [StandsFor α]
    [StandsFor β]
    (listed : Listed item separator depth page values last)
    (found : List α) :
    Rounds (Rule.itemRound item separator) (depth + 2) found page
      (some (found.reverse ++ values)) last := by
  induction listed generalizing found with
  | done ends =>
      apply Rounds.last
      apply (Fails.scope ends.parse_fails.bind).attempt.bind
      rw [List.append_nil]
      exact comesTo_pure
  | @more page between middle last mark value values separated goesOn shorter
      others inductionHypothesis =>
      have rounds := inductionHypothesis (value :: found)
      rw [List.reverse_cons, List.append_assoc] at rounds
      apply Rounds.again _ shorter rounds
      have round :
          ComesTo
            (do
              let _ ← Rule.parse separator
              Rule.parse item)
            (depth + 1) page (some value) middle :=
        separated.parse.bind goesOn.parse
      apply (ComesTo.scope_keep round rfl).attempt.bind
      exact comesTo_pure

/-- Items between separators, where a separator without an item after it is left. -/
theorem comesTo_separated
    [StandsFor α]
    [StandsFor β]
    (separator : GrammarRule β)
    (first : ComesTo item depth page (some value) middle)
    (listed : Listed item separator depth middle values last) :
    ComesTo (Rule.separated item separator) (depth + 2) page
      (some (value :: values)) last :=
  (first.mono (Nat.le_succ depth)).parse.bind
    (rounds_separated listed [value]).loop

theorem comesTo_separated_none
    [StandsFor α]
    [StandsFor β]
    (separator : GrammarRule β)
    (fails : Fails item depth page) :
    ComesTo (Rule.separated item separator) (depth + 2) page none page :=
  (fails.mono (Nat.le_succ depth)).parse.bind_none

end Lists

end Grammar

end InkSyntax
