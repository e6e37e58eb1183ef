import InkSyntax.Proofs.Machine.Numerals
import InkSyntax.Proofs.Reading.Operators

namespace InkSyntax.Grammar

/-!
# Operands on a page

An operand is tried as a divert, then its signs are read, and then a list, a term in
parentheses, a call, a reference and a literal value are tried in this order.  Each of
them is read where it stands, and the ones tried before it fail without a trace.
-/

/-- What an operand is without its signs and the step after it. -/
def bareTerm : GrammarRule NodeId :=
  Rule.oneOf [listLiteral, parenthesised, functionCall, reference, literalValue]

/-- What may follow an operand: nothing that would make it longer. -/
structure EndsOperand (rest : List Char) : Prop where
  word : StartsWithout isIdentifierChar rest
  point : ¬ ".".toList <+: withoutBlanks rest
  opening : ¬ "(".toList <+: withoutBlanks rest
  increment : ¬ "++".toList <+: withoutBlanks rest
  decrement : ¬ "--".toList <+: withoutBlanks rest

/--
A text that begins neither with a sign nor with a part of an arrow, nor with the word
`not`.
-/
structure BeginsBare (text : List Char) : Prop where
  dark : StartsWithout isInlineBlank text
  noMinus : text.head? ≠ some '-'
  noMark : text.head? ≠ some '!'
  noThread : text.head? ≠ some '<'
  noPoint : text.head? ≠ some '>'
  notWord : ∀ depth kinds, Fails notWord (depth + 1) ⟨text, kinds⟩

variable
    {depth : Nat}
    {kinds : List StoryKind}
    {text rest : List Char}
    {word : String}
    {term : Term}

section Followers

theorem endsOperand_of_dark
    (word : StartsWithout isIdentifierChar rest)
    (dark : StartsWithout isInlineBlank rest)
    (others : ∀ character ∈ ['.', '(', '+', '-'], rest.head? ≠ some character) :
    EndsOperand rest where
  word := word
  point := by
    rw [withoutBlanks, dark.dropWhile]
    exact not_prefix_of_head? rfl (others '.' (by decide))
  opening := by
    rw [withoutBlanks, dark.dropWhile]
    exact not_prefix_of_head? rfl (others '(' (by decide))
  increment := by
    rw [withoutBlanks, dark.dropWhile]
    exact not_prefix_of_head? rfl (others '+' (by decide))
  decrement := by
    rw [withoutBlanks, dark.dropWhile]
    exact not_prefix_of_head? rfl (others '-' (by decide))

theorem endsOperand_of_endsLine
    (ends : EndsLine rest) :
    EndsOperand rest := by
  apply endsOperand_of_dark
  · exact ends.startsWithout (by decide) (by decide)
  · exact ends.startsWithout (by decide) (by decide)
  · intro character member
    simp only [List.mem_cons, List.not_mem_nil, or_false] at member
    rcases member with rfl | rfl | rfl | rfl
    all_goals exact ends.head?_ne (by decide) (by decide)

theorem spelling_startsDark :
    ∀ candidate ∈ infixes,
      ∃ first others,
        candidate.spelling.toList = first :: others ∧
          isInlineBlank first = false := by
  intro candidate member
  have dark :
      ∀ candidate ∈ infixes,
        candidate.spelling.toList.head?.any (!isInlineBlank ·) = true := by
    decide
  have isDark := dark candidate member
  cases letters : candidate.spelling.toList with
  | nil =>
      rw [letters] at isDark
      cases isDark
  | cons first others =>
      rw [letters] at isDark
      exact ⟨first, others, rfl, by simpa using isDark⟩

theorem endsAbove_of_endsLine
    (weakerThan : Nat)
    (ends : EndsLine rest) :
    EndsAbove weakerThan rest := by
  apply endsAbove_of_noPrefix
  intro candidate member begins
  have others :
      ∀ candidate ∈ infixes,
        candidate.spelling.toList.head?.all (fun c => c != '\n' && c != '\r') =
          true := by
    decide
  obtain ⟨first, letters, spelled, -⟩ := spelling_startsDark candidate member
  have isOther := others candidate member
  rw [spelled] at begins isOther
  obtain ⟨behind, rfl⟩ := begins
  rcases ends first rfl with rfl | rfl
  · cases isOther
  · cases isOther

theorem withoutBlanks_spelling
    {candidate : Infix}
    (member : candidate ∈ infixes) :
    withoutBlanks (candidate.spelling.toList ++ rest) =
      candidate.spelling.toList ++ rest := by
  obtain ⟨first, others, letters, dark⟩ := spelling_startsDark candidate member
  rw [letters]
  exact (startsWithout_cons.mpr dark).dropWhile

/-- Behind a blank an operator stands, and nothing that begins none. -/
theorem not_prefix_of_infix
    {candidate : Infix}
    {expected : String}
    (member : candidate ∈ infixes)
    (solid : ' ' ∉ expected.toList)
    (differs :
      ∀ candidate ∈ infixes, ¬ expected.toList <+: candidate.spelling.toList) :
    ¬ expected.toList <+:
      withoutBlanks (' ' :: (candidate.spelling.toList ++ ' ' :: rest)) := by
  rw [withoutBlanks_space, withoutBlanks_spelling member]
  intro begins
  exact differs candidate member (prefix_of_prefix_append_space solid begins)

/-- An operator behind a blank ends an operand. -/
theorem endsOperand_of_infix
    (rest : List Char)
    {candidate : Infix}
    (member : candidate ∈ infixes) :
    EndsOperand (' ' :: (candidate.spelling.toList ++ ' ' :: rest)) where
  word := startsWithout_cons.mpr (by decide)
  point := not_prefix_of_infix member (by decide) (by decide)
  opening := not_prefix_of_infix member (by decide) (by decide)
  increment := not_prefix_of_infix member (by decide) (by decide)
  decrement := not_prefix_of_infix member (by decide) (by decide)

end Followers

section Parts

/-- Where no arrow stands, there are no diverts. -/
theorem fails_diverts
    (noBlank : withoutBlanks text = text)
    (noArrow : ¬ "->".toList <+: text)
    (noThread : ¬ "<-".toList <+: text) :
    Fails diverts (depth + 2) ⟨text, kinds⟩ := by
  have threadFails : Fails thread (depth + 1) ⟨text, kinds⟩ :=
    (comesTo_skipBlanks noBlank).bind_fails (fails_literal noThread).bind
  have none :
      ComesTo
        (Rule.loop 0 fun count => do
          if ← optionalLiteral "->" then return .inl (count + 1)
          else return .inr count)
        depth ⟨text, kinds⟩ (some 0) ⟨text, kinds⟩ := by
    apply Rounds.loop
    apply Rounds.last
    apply (comesTo_optionalLiteral_none noArrow).bind
    exact comesTo_pure
  have arrowFails : Fails arrow depth ⟨text, kinds⟩ :=
    none.bind_fails fails_fail
  apply (comesTo_skipBlanks noBlank).bind_fails
  apply threadFails.tried.bind_fails
  apply Fails.bind
  apply Fails.parse_fails
  apply Fails.bind
  apply Fails.parse_fails
  exact arrowFails.bind

/-- Where no arrow stands, there is no divert to be read as a value. -/
theorem fails_divertValue
    (dark : StartsWithout isInlineBlank text)
    (noArrow : ¬ "->".toList <+: text)
    (noThread : text.head? ≠ some '<') :
    Fails divertValue (depth + 4) ⟨text, kinds⟩ := by
  have noBlank : withoutBlanks text = text := dark.dropWhile
  have divertsFail : Fails diverts (depth + 2) ⟨text, kinds⟩ :=
    fails_diverts noBlank noArrow (not_prefix_of_head? rfl noThread)
  apply (comesTo_skipBlanks noBlank).bind_fails
  apply Fails.bind
  apply Fails.parse_fails
  apply Fails.bind
  exact divertsFail.parse_fails

theorem comesTo_stepAfter
    (noIncrement : ¬ "++".toList <+: rest)
    (noDecrement : ¬ "--".toList <+: rest)
    (value : NodeId) :
    ComesTo (stepAfter value) (depth + 2) ⟨rest, kinds⟩ (some value)
      ⟨rest, kinds⟩ := by
  have none :
      ComesTo
        (Rule.attempt <| Rule.oneOf
          [do
            Rule.literal "++"
            return true,
          do
            Rule.literal "--"
            return false])
        (depth + 2) ⟨rest, kinds⟩ (some none) ⟨rest, kinds⟩ := by
    apply ComesTo.attempt
    apply Fails.parse
    refine ⟨_, comesTo_firstOf_none ?_⟩
    intro rule member
    simp only [List.mem_cons, List.not_mem_nil, or_false] at member
    rcases member with rfl | rfl
    · exact (fails_literal noIncrement).bind
    · exact (fails_literal noDecrement).bind
  exact none.bind comesTo_pure

theorem comesTo_sign
    {op : UnaryOp} :
    ComesTo sign (depth + 2) ⟨op.symbol.toList ++ rest, kinds⟩
      (some (some op)) ⟨rest, kinds⟩ := by
  have minus :
      ComesTo
        (do
          Rule.literal "-"
          return UnaryOp.negate : GrammarRule UnaryOp)
        depth ⟨"-".toList ++ rest, kinds⟩ (some .negate) ⟨rest, kinds⟩ :=
    (comesTo_literal rfl).bind comesTo_pure
  have mark :
      ComesTo
        (do
          Rule.literal "!"
          return UnaryOp.not : GrammarRule UnaryOp)
        depth ⟨"!".toList ++ rest, kinds⟩ (some .not) ⟨rest, kinds⟩ :=
    (comesTo_literal rfl).bind comesTo_pure
  have noMinus :
      Fails
        (do
          Rule.literal "-"
          return UnaryOp.negate : GrammarRule UnaryOp)
        depth ⟨"!".toList ++ rest, kinds⟩ :=
    (fails_literal (by simp)).bind
  cases op with
  | negate =>
      apply ((minus.firstOf [] nofun).parse.attempt).bind
      exact comesTo_pure
  | not =>
      apply ((mark.firstOf [_] ?_).parse.attempt).bind
      · exact comesTo_pure
      · intro other member
        rw [List.mem_singleton.mp member]
        exact noMinus

theorem comesTo_sign_none
    (begins : BeginsBare text) :
    ComesTo sign (depth + 2) ⟨text, kinds⟩ (some none) ⟨text, kinds⟩ := by
  have none :
      ComesTo
        (Rule.attempt <| Rule.oneOf
          [do
            Rule.literal "-"
            return UnaryOp.negate,
          do
            Rule.literal "!"
            return UnaryOp.not])
        (depth + 2) ⟨text, kinds⟩ (some none) ⟨text, kinds⟩ := by
    apply ComesTo.attempt
    apply Fails.parse
    refine ⟨_, comesTo_firstOf_none ?_⟩
    intro rule member
    simp only [List.mem_cons, List.not_mem_nil, or_false] at member
    rcases member with rfl | rfl
    · exact (fails_literal (not_prefix_of_head? rfl begins.noMinus)).bind
    · exact (fails_literal (not_prefix_of_head? rfl begins.noMark)).bind
  apply none.bind
  exact (begins.notWord depth kinds).tried

end Parts

section Literals

variable {digits : List Char}

/-- A text that begins with digits begins with no other character. -/
theorem head?_ne_of_digits
    {character : Char}
    (nonempty : digits ≠ [])
    (areDigits : digits.all isDigit = true)
    (noDigit : isDigit character = false) :
    (digits ++ rest).head? ≠ some character := by
  obtain ⟨first, others, rfl⟩ := List.exists_cons_of_ne_nil nonempty
  rintro ⟨⟩
  have isFirst := (Bool.and_eq_true_iff.mp areDigits).1
  rw [noDigit] at isFirst
  cases isFirst

/-- No blank stands before digits. -/
theorem dark_digits
    (rest : List Char)
    (nonempty : digits ≠ [])
    (areDigits : digits.all isDigit = true) :
    StartsWithout isInlineBlank (digits ++ rest) := by
  let numeral : Numeral := ⟨false, [], digits, rfl, nonempty, areDigits⟩
  exact numeral.startsWithout_digits rest

/-- Digits are read as they stand, without a sign. -/
theorem signedDigits_digits
    (nonempty : digits ≠ [])
    (areDigits : digits.all isDigit = true)
    (ends : StartsWithout isDigit rest) :
    Scanner.signedDigits (digits ++ rest) =
      some ((false, String.ofList digits), digits.length) := by
  let numeral : Numeral := ⟨false, [], digits, rfl, nonempty, areDigits⟩
  exact numeral.signedDigits_written ends

/-- The value of a number written in decimal is the number. -/
theorem digitsValue_toDigits
    (number : Nat) :
    Rule.digitsValue (String.ofList (Nat.toDigits 10 number)) = number := by
  have value := Nat.ofDigitChars_toDigits (b := 10) (n := number) (by decide) (by decide)
  rw [Nat.ofDigitChars] at value
  rw [Rule.digitsValue, String.toList_ofList]
  simpa only [Nat.mul_comm] using value

theorem all_isDigit_toDigits
    (number : Nat) :
    (Nat.toDigits 10 number).all isDigit = true := by
  apply List.all_eq_true.mpr
  intro character member
  exact Nat.isDigit_of_mem_toDigits (by decide) (by decide) member

/-- Digits behind a minus sign are read with it. -/
theorem signedDigits_minus_digits
    (nonempty : digits ≠ [])
    (areDigits : digits.all isDigit = true)
    (ends : StartsWithout isDigit rest) :
    Scanner.signedDigits ('-' :: (digits ++ rest)) =
      some ((true, String.ofList digits), digits.length + 1) := by
  let numeral : Numeral := ⟨true, [], digits, rfl, nonempty, areDigits⟩
  exact numeral.signedDigits_written ends

/-- Without a point behind them, digits are no number with one. -/
theorem decimalDigits_none
    {scanned : Bool × String}
    {length : Nat}
    (found : Scanner.signedDigits text = some (scanned, length))
    (left : text.drop length = rest)
    (noPoint : rest.head? ≠ some '.') :
    Scanner.decimalDigits text = none := by
  obtain ⟨negative, whole⟩ := scanned
  simp only [Scanner.decimalDigits, found, left]
  cases rest with
  | nil =>
      rfl
  | cons first others =>
      have isOther : first ≠ '.' := by
        rintro rfl
        exact noPoint rfl
      simp [isOther]

theorem EndsOperand.noPoint
    (ends : EndsOperand rest) :
    rest.head? ≠ some '.' := by
  intro first
  apply ends.point
  cases rest with
  | nil =>
      cases first
  | cons character others =>
      cases first
      exact List.prefix_append ['.'] others

theorem EndsOperand.noDigit
    (ends : EndsOperand rest) :
    StartsWithout isDigit rest := by
  intro character first
  apply Bool.eq_false_iff.mpr
  intro digit
  have identifier := isIdentifierChar_of_isDigit digit
  rw [ends.word character first] at identifier
  cases identifier

/-- Digits are a number, with the sign before them, if it is not too large. -/
theorem comesTo_literalValue_digits
    (depth : Nat)
    (kinds : List StoryKind)
    {negative : Bool}
    {whole : String}
    {length : Nat}
    (found : Scanner.signedDigits text = some ((negative, whole), length))
    (left : text.drop length = rest)
    (noPoint : rest.head? ≠ some '.')
    (small : Rule.digitsValue whole ≤ 2147483647) :
    ComesTo literalValue (depth + 2) ⟨text, kinds⟩ (some ⟨kinds.length⟩)
      ⟨rest,
        kinds ++
          [.number
            (.int
              (if negative then -(Rule.digitsValue whole : Int)
              else Rule.digitsValue whole))]⟩ := by
  have noFloat : Fails floatLiteral depth ⟨text, kinds⟩ := by
    apply Fails.bind
    exact ⟨_, comesTo_scan_none (decimalDigits_none found left noPoint)⟩
  have integer :
      ComesTo Rule.integer depth ⟨text, kinds⟩
        (some
          (if negative then -(Rule.digitsValue whole : Int)
          else Rule.digitsValue whole))
        ⟨rest, kinds⟩ := by
    have within : (Rule.digitsValue whole : Int) ≤ Rule.integerBounds.2 :=
      Int.ofNat_le.mpr small
    have scanned := comesTo_scan depth kinds found
    rw [left] at scanned
    apply scanned.bind
    simp only [within, ↓reduceIte]
    exact comesTo_pure
  apply ComesTo.parse
  apply ComesTo.firstOf [_] (integer.bind comesTo_make)
  intro other member
  rw [List.mem_singleton.mp member]
  exact noFloat

/-- Where no digits stand, even behind a minus sign, there is no number. -/
theorem fails_numbers
    (noDigits : Scanner.signedDigits text = none) :
    Fails floatLiteral depth ⟨text, kinds⟩ ∧
      Fails intLiteral depth ⟨text, kinds⟩ := by
  constructor
  · apply Fails.bind
    refine ⟨_, comesTo_scan_none ?_⟩
    simp only [Scanner.decimalDigits, noDigits]
  · apply Fails.bind
    apply Fails.bind
    exact ⟨_, comesTo_scan_none noDigits⟩

theorem signedDigits_none
    (noMinus : text.head? ≠ some '-')
    (noDigit : StartsWithout isDigit (withoutBlanks text)) :
    Scanner.signedDigits text = none := by
  have noSign : (text.head? == some '-') = false := by
    simpa using noMinus
  have empty :
      (text.drop (text.takeWhile isInlineBlank).length).takeWhile isDigit = [] := by
    rw [drop_length_takeWhile]
    exact noDigit.takeWhile
  simp [Scanner.signedDigits, noSign, empty]

theorem signedDigits_minus_none
    (noDigit : StartsWithout isDigit (withoutBlanks text)) :
    Scanner.signedDigits ('-' :: text) = none := by
  have empty :
      (text.drop (text.takeWhile isInlineBlank).length).takeWhile isDigit = [] := by
    rw [drop_length_takeWhile]
    exact noDigit.takeWhile
  simp [Scanner.signedDigits, empty]

theorem comesTo_literalValue_bool
    {value : Bool}
    (ends : EndsOperand rest) :
    ComesTo literalValue (depth + 3)
      ⟨((NumberValue.bool value).display).toList ++ rest, kinds⟩
      (some ⟨kinds.length⟩)
      ⟨rest, kinds ++ [.number (.bool value)]⟩ := by
  have noNumber :
      Scanner.signedDigits (((NumberValue.bool value).display).toList ++ rest) =
        none := by
    cases value with
    | false =>
        apply signedDigits_none (by simp [NumberValue.display])
        exact startsWithout_cons.mpr (by decide)
    | true =>
        apply signedDigits_none (by simp [NumberValue.display])
        exact startsWithout_cons.mpr (by decide)
  obtain ⟨noFloat, noInt⟩ :=
    fails_numbers noNumber
  have literal :
      ComesTo boolLiteral (depth + 1)
        ⟨((NumberValue.bool value).display).toList ++ rest, kinds⟩
        (some ⟨kinds.length⟩)
        ⟨rest, kinds ++ [.number (.bool value)]⟩ := by
    cases value with
    | false =>
        apply (comesTo_name (by decide) ends.word).bind
        exact comesTo_make
    | true =>
        apply (comesTo_name (by decide) ends.word).bind
        exact comesTo_make
  apply ComesTo.parse
  apply literal.firstOf [_, _]
  intro other member
  simp only [List.mem_cons, List.not_mem_nil, or_false] at member
  rcases member with rfl | rfl
  · exact noFloat
  · exact noInt

end Literals

section Bare

/-! The kinds of terms without signs, each with the failures of those tried before it. -/

theorem fails_listLiteral
    (dark : StartsWithout isInlineBlank text)
    (noOpening : text.head? ≠ some '(') :
    Fails listLiteral depth ⟨text, kinds⟩ := by
  apply (comesTo_skipBlanks dark.dropWhile).bind_fails
  apply Fails.bind
  apply fails_literal
  exact not_prefix_of_head? rfl noOpening

theorem fails_parenthesised
    (noOpening : text.head? ≠ some '(') :
    Fails parenthesised depth ⟨text, kinds⟩ := by
  apply Fails.bind
  apply fails_literal
  exact not_prefix_of_head? rfl noOpening

/-- A name without an opening parenthesis behind it is no call. -/
theorem fails_functionCall
    (isName : IsName word)
    (ends : StartsWithout isIdentifierChar rest)
    (noOpening : ¬ "(".toList <+: withoutBlanks rest) :
    Fails functionCall (depth + 2) ⟨word.toList ++ rest, kinds⟩ := by
  apply (comesTo_identifier _ _ isName ends).bind_fails
  apply (comesTo_skipBlanks rfl).bind_fails
  apply Fails.bind
  apply Fails.parse_fails
  exact (fails_literal noOpening).bind

/-- Without a name there is neither a call nor a reference. -/
theorem fails_names
    (digits : List Char)
    (areDigits : digits.all isDigit = true)
    (ends : StartsWithout isIdentifierChar rest) :
    Fails functionCall (depth + 5) ⟨digits ++ rest, kinds⟩ ∧
      Fails reference (depth + 5) ⟨digits ++ rest, kinds⟩ := by
  have noName := comesTo_identifier_none depth kinds areDigits ends
  constructor
  · apply Fails.bind
    exact noName.fails.mono (Nat.le_add_right _ 3)
  · apply Fails.bind
    exact (comesTo_alternate_none noName.fails).fails

/-- Nodes for the further words of a list are made in order, one for each. -/
theorem exists_listed
    {α β : Type}
    (item : GrammarRule NodeId)
    {separator : GrammarRule β}
    (between : List Char)
    (written : α → String)
    (stands : (NodeId → Option StoryKind) → α → NodeId → Prop)
    (values : List α)
    (nonempty : between ≠ [])
    (ends : ∀ kinds, Fails separator depth ⟨rest, kinds⟩)
    (grows :
      ∀ kinds more value id,
        stands (kindAmong kinds) value id →
          stands (kindAmong (kinds ++ more)) value id)
    (reads :
      ∀ value ∈ values, ∀ others : List α, ∀ kinds,
        ∃ mark middle id more,
          ComesTo separator depth
              ⟨furtherWords between rest ((value :: others).map written), kinds⟩
              (some mark) middle ∧
            ComesTo item depth middle (some id)
              ⟨furtherWords between rest (others.map written), kinds ++ more⟩ ∧
            stands (kindAmong (kinds ++ more)) value id)
    (kinds : List StoryKind) :
    ∃ ids more,
      Listed item separator depth
          ⟨furtherWords between rest (values.map written), kinds⟩ ids
          ⟨rest, kinds ++ more⟩ ∧
        List.Forall₂ (stands (kindAmong (kinds ++ more))) values ids := by
  induction values generalizing kinds with
  | nil =>
      refine ⟨[], [], ?_, List.Forall₂.nil⟩
      rw [List.append_nil]
      exact .done (ends kinds)
  | cons value others inductionHypothesis =>
      obtain ⟨mark, middle, id, first, separates, comes, isFirst⟩ :=
        reads value List.mem_cons_self others kinds
      obtain ⟨ids, more, listed, areOthers⟩ :=
        inductionHypothesis
          (fun other member => reads other (List.mem_cons_of_mem value member))
          (kinds ++ first)
      refine ⟨id :: ids, first ++ more, ?_, ?_⟩
      · rw [← List.append_assoc]
        apply Listed.more separates comes _ listed
        have := List.length_pos_of_ne_nil nonempty
        simp only [List.map_cons, furtherWords, List.length_append]
        omega
      · rw [← List.append_assoc]
        exact .cons (grows _ more value id isFirst) areOthers

theorem startsWithout_furtherNames
    (ends : StartsWithout isIdentifierChar rest)
    (names : List String) :
    StartsWithout isIdentifierChar (furtherWords ['.'] rest names) := by
  cases names with
  | nil =>
      exact ends
  | cons name others =>
      exact startsWithout_cons.mpr (by decide)

theorem toList_intercalate_names
    (rest : List Char)
    (first : String)
    (others : List String) :
    (String.intercalate "." (first :: others)).toList ++ rest =
      first.toList ++ furtherWords ['.'] rest others :=
  toList_intercalate _ _ (first :: others)

/-- An identifier is read as a node that names it. -/
theorem exists_comesTo_identifier
    (isName : IsName word)
    (ends : StartsWithout isIdentifierChar rest)
    (kinds : List StoryKind) :
    ∃ id more,
      ComesTo identifier (depth + 2) ⟨word.toList ++ rest, kinds⟩ (some id)
          ⟨rest, kinds ++ more⟩ ∧
        Term.Names (kindAmong (kinds ++ more)) word id :=
  ⟨_, _, comesTo_identifier _ _ isName ends, kindAmong_last _ _⟩

/-- The names of a path are read in order, each as a node of its own. -/
theorem exists_listed_names
    (depth : Nat)
    {names : List String}
    (areNames : ∀ name ∈ names, IsName name)
    (ends : EndsOperand rest)
    (kinds : List StoryKind) :
    ∃ ids more,
      Listed identifier (spaced (Rule.literal ".")) (depth + 2)
          ⟨furtherWords ['.'] rest names, kinds⟩ ids ⟨rest, kinds ++ more⟩ ∧
        List.Forall₂ (Term.Names (kindAmong (kinds ++ more))) names ids := by
  have noPoint
      (kinds : List StoryKind) :
      Fails (spaced (Rule.literal ".")) (depth + 2) ⟨rest, kinds⟩ :=
    Fails.spaced rfl (fails_literal ends.point)
  have listed :=
    exists_listed identifier ['.'] id Term.Names names (List.cons_ne_nil _ _)
      noPoint (fun _ more _ _ => Term.Names.mono (kindAmong_append more))
  rw [List.map_id] at listed
  apply listed
  intro name member others kinds
  have isName := areNames name member
  rw [List.map_id, List.map_id]
  have separates :
      ComesTo (spaced (Rule.literal ".")) (depth + 2)
        ⟨furtherWords ['.'] rest (name :: others), kinds⟩ (some ())
        ⟨name.toList ++ furtherWords ['.'] rest others, kinds⟩ :=
    ComesTo.spaced rfl (comesTo_literal rfl) isName.withoutBlanks
  obtain ⟨id, more, comes, names⟩ :=
    exists_comesTo_identifier isName
      (startsWithout_furtherNames ends.word others) kinds
  exact ⟨(), _, id, more, separates, comes, names⟩

/-- Names with points between them are a reference, unless the first is reserved. -/
theorem readsTerm_reference
    {first : String}
    {others : List String}
    (areNames : ∀ name ∈ first :: others, IsName name)
    (notReserved : first ∉ reservedWords)
    (ends : EndsOperand rest) :
    ReadsTerm reference (depth + 5)
      ((String.intercalate "." (first :: others)).toList ++ rest)
      (.reference (first :: others)) rest := by
  intro kinds
  obtain ⟨id, firstKinds, firstComes, names⟩ :=
    exists_comesTo_identifier
      (areNames first List.mem_cons_self)
      (startsWithout_furtherNames ends.word others) kinds
  obtain ⟨ids, more, listed, areNamed⟩ :=
    exists_listed_names depth
      (fun other member => areNames other (List.mem_cons_of_mem first member))
      ends (kinds ++ firstKinds)
  have path := comesTo_alternate firstComes listed
  have isFirst := names.mono (kindAmong_append more)
  have allowed :
      ComesTo (Rule.require (!reservedWords.contains first)) (depth + 5)
        ⟨rest, kinds ++ firstKinds ++ more⟩ (some ())
        ⟨rest, kinds ++ firstKinds ++ more⟩ := by
    have unreserved : reservedWords.contains first = false := by
      simpa using notReserved
    rw [unreserved]
    exact comesTo_require
  refine
    ⟨⟨(kinds ++ firstKinds ++ more).length⟩,
      firstKinds ++ more ++ [.reference (id :: ids)], ?_, id :: ids, ?_, ?_⟩
  · rw [toList_intercalate_names _, ← List.append_assoc, ← List.append_assoc]
    apply path.bind
    apply (comesTo_identifierName _ isFirst).bind
    apply allowed.bind
    exact comesTo_make
  · rw [← List.append_assoc, ← List.append_assoc]
    exact kindAmong_last _ _
  · rw [← List.append_assoc, ← List.append_assoc]
    apply List.Forall₂.imp _ (List.Forall₂.cons isFirst areNamed)
    intro name id
    exact Term.Names.mono (kindAmong_append _)

/-- A term is one of those without signs if all that are tried before it fail. -/
theorem ReadsTerm.among_bare
    {rule : GrammarRule NodeId}
    (earlier : List (GrammarRule NodeId))
    {later : List (GrammarRule NodeId)}
    (reads : ReadsTerm rule depth text term rest)
    (order :
      [listLiteral, parenthesised, functionCall, reference, literalValue] =
        earlier ++ rule :: later)
    (fail : ∀ kinds, ∀ other ∈ earlier, Fails other depth ⟨text, kinds⟩) :
    ReadsTerm bareTerm (depth + 2) text term rest := by
  intro kinds
  obtain ⟨id, more, comes, represents⟩ := reads kinds
  refine ⟨id, more, ?_, represents⟩
  rw [bareTerm, Rule.oneOf, order]
  exact (comes.firstOf earlier (fail kinds)).parse

/-- A text that begins neither with a word, a number, a parenthesis nor a quote is no term. -/
theorem comesTo_bareTerm_none
    (text : List Char)
    (noWord : StartsWithout isIdentifierChar text)
    (dark : StartsWithout isInlineBlank text)
    (noOpening : text.head? ≠ some '(')
    (noQuote : text.head? ≠ some '"')
    (noNumber : Scanner.signedDigits text = none) :
    ComesTo bareTerm (depth + 7) ⟨text, kinds⟩ none ⟨text, kinds⟩ := by
  obtain ⟨noCall, noReference⟩ :=
    fails_names [] rfl noWord
  obtain ⟨noFloat, noInt⟩ :=
    fails_numbers noNumber
  have noBool : Fails boolLiteral (depth + 3) ⟨text, kinds⟩ :=
    (comesTo_name_none [] rfl noWord).bind_none.fails
  have noString : Fails stringLiteral (depth + 3) ⟨text, kinds⟩ :=
    (fails_literal (not_prefix_of_head? rfl noQuote)).bind
  have noValue : Fails literalValue (depth + 5) ⟨text, kinds⟩ := by
    apply Fails.parse_fails
    apply ComesTo.fails
    apply comesTo_firstOf_none
    intro rule member
    simp only [List.mem_cons, List.not_mem_nil, or_false] at member
    rcases member with rfl | rfl | rfl | rfl
    · exact noFloat
    · exact noInt
    · exact noBool
    · exact noString
  apply Fails.parse
  apply ComesTo.fails
  apply comesTo_firstOf_none
  intro rule member
  simp only [List.mem_cons, List.not_mem_nil, or_false] at member
  rcases member with rfl | rfl | rfl | rfl | rfl
  · exact fails_listLiteral dark noOpening
  · exact fails_parenthesised noOpening
  · exact noCall
  · exact noReference
  · exact noValue

/-- A text that begins with a name does not begin with a parenthesis. -/
theorem IsName.noOpening
    (isName : IsName word) :
    (word.toList ++ rest).head? ≠ some '(' :=
  isName.head?_ne (by decide)

theorem IsName.dark
    (isName : IsName word) :
    StartsWithout isInlineBlank (word.toList ++ rest) :=
  isName.startsWithout fun _ => not_isInlineBlank_of_isIdentifierChar

theorem readsTerm_bare_reference
    (first : String)
    (others : List String)
    (areNames : ∀ name ∈ first :: others, IsName name)
    (notReserved : first ∉ reservedWords)
    (ends : EndsOperand rest) :
    ReadsTerm bareTerm (depth + 7)
      ((String.intercalate "." (first :: others)).toList ++ rest)
      (.reference (first :: others)) rest := by
  have isFirst := areNames first List.mem_cons_self
  have noOpening :
      ¬ "(".toList <+: withoutBlanks (furtherWords ['.'] rest others) := by
    cases others with
    | nil =>
        exact ends.opening
    | cons second others =>
        simp [furtherWords, withoutBlanks, isInlineBlank]
  apply
    ReadsTerm.among_bare [_, _, _]
      (readsTerm_reference areNames notReserved ends) rfl
  intro kinds other member
  rw [toList_intercalate_names _]
  simp only [List.mem_cons, List.not_mem_nil, or_false] at member
  rcases member with rfl | rfl | rfl
  · exact fails_listLiteral isFirst.dark isFirst.noOpening
  · exact fails_parenthesised isFirst.noOpening
  · exact
      fails_functionCall isFirst (startsWithout_furtherNames ends.word others)
        noOpening

theorem readsTerm_bare_digits
    (depth : Nat)
    {digits : List Char}
    (nonempty : digits ≠ [])
    (areDigits : digits.all isDigit = true)
    (small : Rule.digitsValue (String.ofList digits) ≤ 2147483647)
    (ends : EndsOperand rest) :
    ReadsTerm bareTerm (depth + 7) (digits ++ rest)
      (.int (Rule.digitsValue (String.ofList digits))) rest := by
  have literal :
      ReadsTerm literalValue (depth + 5) (digits ++ rest)
        (.int (Rule.digitsValue (String.ofList digits))) rest := by
    intro kinds
    have comes :=
      comesTo_literalValue_digits (depth + 3) kinds
        (signedDigits_digits nonempty areDigits ends.noDigit) List.drop_left
        ends.noPoint small
    exact ⟨_, _, comes, kindAmong_last _ _⟩
  apply ReadsTerm.among_bare [_, _, _, _] literal rfl
  intro kinds other member
  obtain ⟨noCall, noReference⟩ :=
    fails_names _ areDigits ends.word
  simp only [List.mem_cons, List.not_mem_nil, or_false] at member
  rcases member with rfl | rfl | rfl | rfl
  · exact
      fails_listLiteral (dark_digits _ nonempty areDigits)
        (head?_ne_of_digits nonempty areDigits (by decide))
  · exact
      fails_parenthesised (head?_ne_of_digits nonempty areDigits (by decide))
  · exact noCall
  · exact noReference

theorem beginsBare_name
    (isName : IsName word)
    (notNot : word ≠ "not")
    (ends : StartsWithout isIdentifierChar rest) :
    BeginsBare (word.toList ++ rest) where
  dark := isName.dark
  noMinus := isName.head?_ne (by decide)
  noMark := isName.head?_ne (by decide)
  noThread := isName.head?_ne (by decide)
  noPoint := isName.head?_ne (by decide)
  notWord := by
    intro depth kinds
    apply (comesTo_name isName ends).bind_fails
    have other : (word == "not") = false := by
      simpa using notNot
    rw [other]
    exact fails_require.bind

theorem beginsBare_digits
    {digits : List Char}
    (nonempty : digits ≠ [])
    (areDigits : digits.all isDigit = true)
    (ends : StartsWithout isIdentifierChar rest) :
    BeginsBare (digits ++ rest) where
  dark := dark_digits _ nonempty areDigits
  noMinus := head?_ne_of_digits nonempty areDigits (by decide)
  noMark := head?_ne_of_digits nonempty areDigits (by decide)
  noThread := head?_ne_of_digits nonempty areDigits (by decide)
  noPoint := head?_ne_of_digits nonempty areDigits (by decide)
  notWord := fun _ _ => (comesTo_name_none _ areDigits ends).bind_none.fails

theorem beginsBare_of_noWord
    (noWord : StartsWithout isIdentifierChar text)
    (dark : StartsWithout isInlineBlank text)
    (others : ∀ character ∈ ['-', '!', '<', '>'], text.head? ≠ some character) :
    BeginsBare text where
  dark := dark
  noMinus := others '-' (by decide)
  noMark := others '!' (by decide)
  noThread := others '<' (by decide)
  noPoint := others '>' (by decide)
  notWord := fun _ _ =>
    (comesTo_name_none [] rfl noWord).bind_none.fails

theorem beginsBare_opening :
    BeginsBare ('(' :: rest) := by
  apply beginsBare_of_noWord
  · exact startsWithout_cons.mpr (by decide)
  · exact startsWithout_cons.mpr (by decide)
  · simp

end Bare

/-- A term without signs is an operand, with the blanks behind it. -/
theorem ReadsTerm.as_operand
    (reads : ReadsTerm bareTerm (depth + 5) text term rest)
    (begins : BeginsBare text)
    (ends : EndsOperand rest) :
    ReadsTerm operand (depth + 5) text term (withoutBlanks rest) := by
  intro kinds
  obtain ⟨id, more, comes, represents⟩ := reads kinds
  refine ⟨id, more, ?_, represents⟩
  have noArrow : ¬ "->".toList <+: text :=
    not_prefix_of_head? rfl begins.noMinus
  have bare :
      ComesTo (bareOperand none) (depth + 5) ⟨text, kinds⟩ (some id)
        ⟨rest, kinds ++ more⟩ :=
    comes.attempt.bind comesTo_pure
  apply (fails_divertValue begins.dark noArrow begins.noThread).tried.bind
  apply (comesTo_sign_none begins).bind
  apply (comesTo_skipBlanks begins.dark.dropWhile).bind
  apply bare.bind
  apply ComesTo.bind comesTo_pure
  apply (comesTo_skipBlanks rfl).bind
  exact comesTo_stepAfter ends.increment ends.decrement id

/-- Where no term begins, there is no operand without signs. -/
theorem fails_operand
    (noTerm :
      ComesTo bareTerm (depth + 5) ⟨text, kinds⟩ none ⟨text, kinds⟩)
    (begins : BeginsBare text) :
    Fails operand (depth + 5) ⟨text, kinds⟩ := by
  have noArrow : ¬ "->".toList <+: text :=
    not_prefix_of_head? rfl begins.noMinus
  have noBare : Fails (bareOperand none) (depth + 5) ⟨text, kinds⟩ :=
    noTerm.attempt.bind_fails fails_fail
  apply (fails_divertValue begins.dark noArrow begins.noThread).tried.bind_fails
  apply (comesTo_sign_none begins).bind_fails
  apply (comesTo_skipBlanks begins.dark.dropWhile).bind_fails
  exact noBare.bind

end InkSyntax.Grammar
