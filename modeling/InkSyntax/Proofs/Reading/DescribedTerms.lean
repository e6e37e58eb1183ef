import InkSyntax.Proofs.Reading.Parentheses

namespace InkSyntax

/-!
# Descriptions read back

Describing an expression writes it with parentheses around every operator, so that
reading gives the expression back.  One kind of expression is lost: a sign before the
negative of a name that begins with a digit, since the minus and the digit are read as
a number before the name can be.
-/

namespace Term

mutual

/-- A property holds of a term and of every term in it. -/
def Throughout (holds : Term → Prop) : Term → Prop
  | int value => holds (int value)
  | bool value => holds (bool value)
  | reference path => holds (reference path)
  | list items => holds (list items)
  | call name arguments =>
      holds (call name arguments) ∧ ThroughoutAll holds arguments
  | unary op operand => holds (unary op operand) ∧ operand.Throughout holds
  | binary left op right =>
      holds (binary left op right) ∧
        left.Throughout holds ∧
        right.Throughout holds

/-- A property holds of some terms and of every term in them. -/
def ThroughoutAll (holds : Term → Prop) : List Term → Prop
  | [] => True
  | term :: others => term.Throughout holds ∧ ThroughoutAll holds others

end

/-- What a sign may stand before; with a number it would make up another one. -/
def TakesSign (op : UnaryOp) : Term → Prop
  | int _ => False
  | bool _ => op = .negate
  | _ => True

/-- A term whose own names and numbers are written as such. -/
def IsWritable : Term → Prop
  | int value => -2147483648 < value ∧ value ≤ 2147483647
  | bool _ => True
  | reference [] => False
  | reference (first :: others) =>
      first ∉ Grammar.reservedWords ∧
        ∀ name ∈ first :: others, Grammar.IsName name
  | list items => ∀ item ∈ items, item.IsNamed
  | call name _ => Grammar.IsName name ∧ name ≠ "not"
  | unary op operand => operand.TakesSign op
  | binary _ _ _ => True

/-- A sign before a minus and a digit, which look like a number together. -/
def LooksNumeric : Term → Prop
  | unary _ (unary .negate operand) =>
      operand.written.toList.head?.any isDigit = true
  | _ => False

/-- What a sign makes of a number. -/
def ofSign : UnaryOp → Int → Term
  | .negate, value => int (-value)
  | .not, value => bool (value == 0)

/-- A term that begins without a sign. -/
def IsBare : Term → Prop
  | int value => 0 ≤ value
  | unary _ _ => False
  | _ => True

variable
    {holds : Term → Prop}
    {term : Term}
    {terms : List Term}

theorem throughoutAll_iff :
    ThroughoutAll holds terms ↔ ∀ term ∈ terms, term.Throughout holds := by
  induction terms with
  | nil =>
      simp [ThroughoutAll]
  | cons first others inductionHypothesis =>
      rw [ThroughoutAll, inductionHypothesis, List.forall_mem_cons]

theorem Throughout.self
    (throughout : term.Throughout holds) :
    holds term := by
  cases term with
  | int value => exact throughout
  | bool value => exact throughout
  | reference path => exact throughout
  | list items => exact throughout
  | call name arguments => exact throughout.1
  | unary op operand => exact throughout.1
  | binary left op right => exact throughout.1

section Texts

variable {rest : List Char}

theorem toList_written_nat
    (number : Nat) :
    (int number).written.toList = Nat.toDigits 10 number := by
  have written : (int number).written = toString number :=
    rfl
  rw [written, Nat.toString_eq_ofList_toDigits, String.toList_ofList]

theorem toList_written_negSucc
    (number : Nat) :
    (int (.negSucc number)).written.toList =
      '-' :: Nat.toDigits 10 (number + 1) := by
  have written : (int (.negSucc number)).written = "-" ++ toString (number + 1) :=
    rfl
  rw [written, Nat.toString_eq_ofList_toDigits, String.toList_append,
    String.toList_ofList]
  simp

theorem toList_written_list
    (items : List ListItem) :
    (list items).written.toList ++ rest =
      '(' ::
        separatedWords [',', ' '] (')' :: rest) (items.map ListItem.written) := by
  rw [written, toList_inParentheses _]

theorem toList_written_call
    (rest : List Char)
    (name : String)
    (arguments : List Term) :
    (call name arguments).written.toList ++ rest =
      name.toList ++
        '(' :: separatedWords [',', ' '] (')' :: rest) (arguments.map written) := by
  rw [← toList_inParentheses _, written, writtenAll_eq_map]
  simp

theorem toList_written_unary
    (op : UnaryOp)
    (operand : Term) :
    (unary op operand).written.toList ++ rest =
      op.symbol.toList ++ (operand.written.toList ++ rest) := by
  rw [written, String.toList_append, List.append_assoc]

theorem toList_written_binary
    (left : Term)
    (op : BinaryOp)
    (right : Term) :
    (binary left op right).written.toList ++ rest =
      '(' ::
        (left.written.toList ++
          ' ' ::
            (op.symbol.toList ++
              ' ' :: (right.written.toList ++ ')' :: rest))) := by
  simp [written]

end Texts

end Term

namespace Grammar

open Term (Throughout)

variable
    {depth : Nat}
    {kinds : List StoryKind}
    {text rest : List Char}
    {word : String}
    {term left right operand : Term}

section Beginnings

/-- How a term begins that has no sign. -/
theorem beginsBare_written
    (writable : term.IsWritable)
    (bare : term.IsBare)
    (ends : StartsWithout isIdentifierChar rest) :
    BeginsBare (term.written.toList ++ rest) := by
  cases term with
  | int value =>
      obtain ⟨number, rfl⟩ := Int.eq_ofNat_of_zero_le bare
      rw [Term.toList_written_nat]
      exact
        beginsBare_digits Nat.toDigits_ne_nil (all_isDigit_toDigits number) ends
  | bool value =>
      cases value with
      | false =>
          exact beginsBare_name (by decide) (by decide) ends
      | true =>
          exact beginsBare_name (by decide) (by decide) ends
  | reference path =>
      cases path with
      | nil =>
          cases writable
      | cons first others =>
          obtain ⟨notReserved, areNames⟩ := writable
          rw [Term.written, toList_intercalate_names _]
          apply beginsBare_name (areNames first List.mem_cons_self)
          · rintro rfl
            exact notReserved (by decide)
          · exact startsWithout_furtherNames ends others
  | list items =>
      rw [Term.toList_written_list]
      exact beginsBare_opening
  | call name arguments =>
      rw [Term.toList_written_call _]
      exact
        beginsBare_name writable.1 writable.2 (startsWithout_cons.mpr (by decide))
  | unary op operand =>
      cases bare
  | binary left op right =>
      rw [Term.toList_written_binary]
      exact beginsBare_opening

theorem written_ne_nil
    (writable : term.IsWritable) :
    term.written.toList ≠ [] := by
  cases term with
  | int value =>
      cases value with
      | ofNat number =>
          rw [show Int.ofNat number = number from rfl, Term.toList_written_nat]
          exact Nat.toDigits_ne_nil
      | negSucc number =>
          rw [Term.toList_written_negSucc]
          exact List.cons_ne_nil _ _
  | bool value =>
      cases value <;> simp [Term.written, NumberValue.display]
  | reference path =>
      cases path with
      | nil =>
          cases writable
      | cons first others =>
          have written := toList_intercalate_names [] first others
          rw [List.append_nil] at written
          rw [Term.written, written]
          simp [(writable.2 first List.mem_cons_self).ne_nil]
  | list items =>
      simp [Term.written]
  | call name arguments =>
      simp [Term.written]
  | unary op operand =>
      cases op <;> simp [Term.written, UnaryOp.symbol]
  | binary left op right =>
      simp [Term.written]

/-- A mark that begins neither a word nor a list element ends a list literal at once. -/
theorem fails_listLiteral_mark
    {mark : Char}
    (noWord : isIdentifierChar mark = false)
    (dark : isInlineBlank mark = false)
    (noClosing : mark ≠ ')') :
    Fails listLiteral (depth + 4) ⟨'(' :: mark :: rest, kinds⟩ := by
  have isDark : StartsWithout isInlineBlank (mark :: rest) :=
    startsWithout_cons.mpr dark
  apply fails_listLiteral_without_item isDark
  · exact fails_listMember [] rfl (startsWithout_cons.mpr noWord) isDark
  · simpa using noClosing

/-- Behind an element and an operator a list literal does not close. -/
theorem fails_listLiteral_item_before_infix
    {candidate : Infix}
    {item : ListItem}
    (isNamed : item.IsNamed)
    (isInfix : candidate ∈ infixes) :
    Fails listLiteral (depth + 4)
      ⟨'(' ::
          (item.written.toList ++
            ' ' :: (candidate.spelling.toList ++ ' ' :: rest)),
        kinds⟩ := by
  have ends := endsOperand_of_infix rest isInfix
  have noPoint :
      ¬ ".".toList <+: ' ' :: (candidate.spelling.toList ++ ' ' :: rest) := by
    simp
  apply fails_listLiteral_behind_item isNamed ends.word (fun _ => noPoint)
  · exact not_prefix_of_infix isInfix (by decide) (by decide)
  · exact not_prefix_of_infix isInfix (by decide) (by decide)

/-- Two names with a point between them are an element, so a third one is too much. -/
theorem fails_listLiteral_names_before_infix
    {candidate : Infix}
    {first : String}
    {others : List String}
    (areNames : ∀ name ∈ first :: others, IsName name)
    (isInfix : candidate ∈ infixes) :
    Fails listLiteral (depth + 4)
      ⟨'(' ::
          ((Term.reference (first :: others)).written.toList ++
            ' ' :: (candidate.spelling.toList ++ ' ' :: rest)),
        kinds⟩ := by
  match others, areNames with
  | [], areNames =>
      have isNamed := ListItem.isNamed_single (areNames first List.mem_cons_self)
      have written : ListItem.written ⟨first, none⟩ = first :=
        String.append_empty
      rw [show (Term.reference [first]).written = first from rfl, ← written]
      exact fails_listLiteral_item_before_infix isNamed isInfix
  | second :: others, areNames =>
      have isNamed : ListItem.IsNamed ⟨first, some second⟩ := by
        refine ⟨areNames first List.mem_cons_self, ?_⟩
        rintro element ⟨⟩
        exact areNames second (by simp)
      have written (rest : List Char) :
          first.toList ++ furtherWords ['.'] rest (second :: others) =
            (ListItem.written ⟨first, some second⟩).toList ++
              furtherWords ['.'] rest others := by
        simp [ListItem.written, furtherWords]
      rw [Term.written, toList_intercalate_names _, written]
      cases others with
      | nil =>
          exact fails_listLiteral_item_before_infix isNamed isInfix
      | cons third others =>
          apply fails_listLiteral_behind_item isNamed
          · exact startsWithout_cons.mpr (by decide)
          · intro noElement
            cases noElement
          · simp [furtherWords, withoutBlanks, isInlineBlank]
          · simp [furtherWords, withoutBlanks, isInlineBlank]

/-- A term before an operator is no element of a list literal. -/
theorem fails_listLiteral_before_infix
    {candidate : Infix}
    (writable : term.IsWritable)
    (isInfix : candidate ∈ infixes) :
    Fails listLiteral (depth + 4)
      ⟨'(' ::
          (term.written.toList ++
            ' ' :: (candidate.spelling.toList ++ ' ' :: rest)),
        kinds⟩ := by
  have ends := endsOperand_of_infix rest isInfix
  cases term with
  | int value =>
      cases value with
      | ofNat number =>
          have areDigits := all_isDigit_toDigits number
          have dark :=
            dark_digits (' ' :: (candidate.spelling.toList ++ ' ' :: rest))
              Nat.toDigits_ne_nil areDigits
          rw [show Int.ofNat number = number from rfl, Term.toList_written_nat]
          apply fails_listLiteral_without_item dark
          · exact fails_listMember _ areDigits ends.word dark
          · exact head?_ne_of_digits Nat.toDigits_ne_nil areDigits (by decide)
      | negSucc number =>
          rw [Term.toList_written_negSucc]
          exact fails_listLiteral_mark (by decide) (by decide) (by decide)
  | bool value =>
      cases value with
      | false =>
          have isNamed : ListItem.IsNamed ⟨"false", none⟩ := by decide
          exact fails_listLiteral_item_before_infix isNamed isInfix
      | true =>
          have isNamed : ListItem.IsNamed ⟨"true", none⟩ := by decide
          exact fails_listLiteral_item_before_infix isNamed isInfix
  | reference path =>
      match path, writable with
      | first :: others, ⟨_, areNames⟩ =>
          exact fails_listLiteral_names_before_infix areNames isInfix
  | list items =>
      rw [Term.toList_written_list]
      exact fails_listLiteral_mark (by decide) (by decide) (by decide)
  | call name arguments =>
      have isNamed := ListItem.isNamed_single writable.1
      have written : ListItem.written ⟨name, none⟩ = name :=
        String.append_empty
      rw [Term.toList_written_call _, ← written]
      apply fails_listLiteral_behind_item isNamed
      · exact startsWithout_cons.mpr (by decide)
      · simp
      · simp [withoutBlanks, isInlineBlank]
      · simp [withoutBlanks, isInlineBlank]
  | unary op operand =>
      rw [Term.toList_written_unary]
      cases op with
      | negate =>
          exact
            fails_listLiteral_mark (by decide) (by decide) (by decide)
      | not =>
          exact
            fails_listLiteral_mark (by decide) (by decide) (by decide)
  | binary left op right =>
      rw [Term.toList_written_binary]
      exact fails_listLiteral_mark (by decide) (by decide) (by decide)

end Beginnings

section Bare

/-- A reserved word is no reference. -/
theorem fails_reference
    (isName : IsName word)
    (reserved : word ∈ reservedWords)
    (ends : EndsOperand rest) :
    Fails reference (depth + 5) ⟨word.toList ++ rest, kinds⟩ := by
  have first := comesTo_identifier depth kinds isName ends.word
  have path :=
    comesTo_alternate first
      (.done (Fails.spaced rfl (fails_literal ends.point)))
  have refused :
      Fails (Rule.require (!reservedWords.contains word)) (depth + 5)
        ⟨rest, kinds ++ [.identifier word]⟩ := by
    have isReserved : reservedWords.contains word = true := by
      simpa using reserved
    rw [isReserved]
    exact fails_require
  apply path.bind_fails
  apply (comesTo_identifierName _ (kindAmong_last _ _)).bind_fails
  exact refused.bind

/-- A term without a sign is read wherever an operand ends behind it. -/
def IsBareRead
    (term : Term)
    (depth : Nat) : Prop :=
  ∀ rest,
    EndsOperand rest →
      ReadsTerm bareTerm depth (term.written.toList ++ rest) term rest

theorem isBareRead_int
    (number : Nat)
    (small : (number : Int) ≤ 2147483647) :
    IsBareRead (.int number) 7 := by
  intro rest ends
  have value := digitsValue_toDigits number
  have reads :=
    readsTerm_bare_digits 0 Nat.toDigits_ne_nil
      (all_isDigit_toDigits number) (by rw [value]; omega) ends
  rwa [value, ← Term.toList_written_nat] at reads

theorem isBareRead_bool
    (value : Bool) :
    IsBareRead (.bool value) 7 := by
  intro rest ends
  have literal :
      ReadsTerm literalValue 5 ((Term.bool value).written.toList ++ rest)
        (.bool value) rest := by
    intro kinds
    exact
      ⟨_, _, comesTo_literalValue_bool ends, kindAmong_last _ _⟩
  obtain ⟨word, isWord, isName, reserved⟩ :
      ∃ word,
        (Term.bool value).written = word ∧ IsName word ∧ word ∈ reservedWords := by
    cases value with
    | false =>
        exact ⟨"false", rfl, by decide, by decide⟩
    | true =>
        exact ⟨"true", rfl, by decide, by decide⟩
  rw [isWord] at literal ⊢
  apply ReadsTerm.among_bare [_, _, _, _] literal rfl
  intro kinds other member
  simp only [List.mem_cons, List.not_mem_nil, or_false] at member
  rcases member with rfl | rfl | rfl | rfl
  · exact fails_listLiteral isName.dark isName.noOpening
  · exact fails_parenthesised isName.noOpening
  · exact fails_functionCall isName ends.word ends.opening
  · exact fails_reference isName reserved ends

theorem isBareRead_reference
    {path : List String}
    (writable : (Term.reference path).IsWritable) :
    IsBareRead (.reference path) 7 := by
  intro rest ends
  cases path with
  | nil =>
      cases writable
  | cons first others =>
      exact readsTerm_bare_reference _ _ writable.2 writable.1 ends

theorem isBareRead_list
    {items : List ListItem}
    (areNamed : ∀ item ∈ items, item.IsNamed) :
    IsBareRead (.list items) 6 := by
  intro rest _
  rw [Term.toList_written_list]
  exact
    ReadsTerm.among_bare [] (readsTerm_listLiteral areNamed)
      rfl nofun

theorem isBareRead_call
    {arguments : List Term}
    (isName : IsName word)
    (areRead : ∀ argument ∈ arguments, IsRead argument (depth + 7)) :
    IsBareRead (.call word arguments) (depth + 16) := by
  intro rest _
  rw [Term.toList_written_call _]
  apply
    ReadsTerm.among_bare [_, _]
      (readsTerm_functionCall isName areRead) rfl
  intro kinds other member
  simp only [List.mem_cons, List.not_mem_nil, or_false] at member
  rcases member with rfl | rfl
  · exact fails_listLiteral isName.dark isName.noOpening
  · exact fails_parenthesised isName.noOpening

theorem isBareRead_binary
    (op : BinaryOp)
    (writable : left.IsWritable)
    (leftRead : IsRead left depth)
    (rightRead : IsRead right depth) :
    IsBareRead (.binary left op right) (depth + 10) := by
  intro rest _
  rw [Term.toList_written_binary]
  apply
    ReadsTerm.among_bare [_]
      (readsTerm_parenthesised leftRead op rightRead) rfl
  intro kinds other member
  obtain ⟨candidate, isInfix, -, spelled⟩ := exists_infix_of_symbol op
  rw [List.mem_singleton.mp member, ← spelled]
  exact fails_listLiteral_before_infix writable isInfix

theorem IsBareRead.mono
    {deeper : Nat}
    (isRead : IsBareRead term depth)
    (depth_le : depth ≤ deeper) :
    IsBareRead term deeper := by
  intro rest ends
  exact (isRead rest ends).mono depth_le

theorem IsBareRead.isRead
    (reads : IsBareRead term depth)
    (writable : term.IsWritable)
    (bare : term.IsBare) :
    IsRead term (depth + 5) where
  dark ends := (beginsBare_written writable bare ends.word).dark.dropWhile
  operand ends :=
    ReadsTerm.as_operand
      (reads.mono (Nat.le_add_right depth 5) _ ends)
      (beginsBare_written writable bare ends.word) ends

end Bare

section Signs

variable {op : UnaryOp}

/-- A sign before what it may stand before gives a term of its own. -/
theorem comesTo_signed
    {id : NodeId}
    (takes : operand.TakesSign op)
    (represents : operand.Represents (kindAmong kinds) id) :
    ComesTo (signed op id) depth ⟨text, kinds⟩ (some ⟨kinds.length⟩)
      ⟨text, kinds ++ [.unary op id]⟩ := by
  cases operand with
  | int value =>
      cases takes
  | bool value =>
      cases takes
      exact (comesTo_kindOf represents).bind comesTo_make
  | reference path =>
      obtain ⟨ids, known, -⟩ := represents
      cases op <;> exact (comesTo_kindOf known).bind comesTo_make
  | list items =>
      obtain ⟨ids, known, -⟩ := represents
      cases op <;> exact (comesTo_kindOf known).bind comesTo_make
  | call name arguments =>
      obtain ⟨function, ids, known, -⟩ := represents
      cases op <;> exact (comesTo_kindOf known).bind comesTo_make
  | unary inner operand =>
      obtain ⟨inner, known, -⟩ := represents
      cases op <;> exact (comesTo_kindOf known).bind comesTo_make
  | binary left inner right =>
      obtain ⟨leftId, rightId, known, -⟩ := represents
      cases op <;> exact (comesTo_kindOf known).bind comesTo_make

/-- The first character of a sign is one of two marks. -/
theorem symbol_eq
    (op : UnaryOp) :
    op.symbol.toList = ['-'] ∨ op.symbol.toList = ['!'] := by
  cases op with
  | negate =>
      exact .inl rfl
  | not =>
      exact .inr rfl

theorem dark_symbol :
    StartsWithout isInlineBlank (op.symbol.toList ++ text) := by
  rcases symbol_eq op with symbol | symbol
  all_goals
    rw [symbol]
    exact startsWithout_cons.mpr (by decide)

/-- No blank stands before a term. -/
theorem dark_written
    (writable : term.IsWritable)
    (ends : EndsOperand rest) :
    StartsWithout isInlineBlank (term.written.toList ++ rest) := by
  by_cases bare : term.IsBare
  · exact (beginsBare_written writable bare ends.word).dark
  · cases term with
    | int value =>
        cases value with
        | ofNat number =>
            exact absurd (Int.natCast_nonneg number) bare
        | negSucc number =>
            rw [Term.toList_written_negSucc]
            exact startsWithout_cons.mpr (by decide)
    | unary op operand =>
        rw [Term.toList_written_unary]
        exact dark_symbol
    | bool _ | reference _ | list _ | call _ _ | binary _ _ _ =>
        exact absurd trivial bare

/-- An operand behind a sign is read with the sign. -/
theorem comesTo_operand_of_sign
    {inner id : NodeId}
    {middle : List Char}
    {between more : List StoryKind}
    (dark : StartsWithout isInlineBlank text)
    (noArrow : text.head? ≠ some '>')
    (bare :
      ComesTo (bareOperand (some op)) (depth + 5) ⟨text, kinds⟩ (some inner)
        ⟨middle, between⟩)
    (made :
      ComesTo (signed op inner) (depth + 5) ⟨middle, between⟩ (some id)
        ⟨middle, more⟩)
    (same : withoutBlanks middle = withoutBlanks rest)
    (noIncrement : ¬ "++".toList <+: withoutBlanks rest)
    (noDecrement : ¬ "--".toList <+: withoutBlanks rest) :
    ComesTo Grammar.operand (depth + 5) ⟨op.symbol.toList ++ text, kinds⟩
      (some id) ⟨withoutBlanks rest, more⟩ := by
  have noDivert :
      Fails divertValue (depth + 4) ⟨op.symbol.toList ++ text, kinds⟩ := by
    apply fails_divertValue dark_symbol
    · rcases symbol_eq op with symbol | symbol
      · rw [symbol]
        cases text with
        | nil =>
            simp
        | cons first others =>
            simpa [eq_comm] using noArrow
      · rw [symbol]
        simp
    · rcases symbol_eq op with symbol | symbol
      all_goals
        rw [symbol]
        simp
  apply noDivert.tried.bind
  apply comesTo_sign.bind
  apply (comesTo_skipBlanks dark.dropWhile).bind
  apply bare.bind
  apply made.bind
  apply (comesTo_skipBlanks same).bind
  exact comesTo_stepAfter noIncrement noDecrement id

/-- A sign before a number becomes part of it. -/
theorem ReadsTerm.of_sign
    (op : UnaryOp)
    {value : Int}
    (bare : ReadsTerm bareTerm (depth + 5) text (.int value) rest)
    (dark : StartsWithout isInlineBlank text)
    (noArrow : text.head? ≠ some '>')
    (noIncrement : ¬ "++".toList <+: withoutBlanks rest)
    (noDecrement : ¬ "--".toList <+: withoutBlanks rest) :
    ReadsTerm Grammar.operand (depth + 5) (op.symbol.toList ++ text)
      (.ofSign op value) (withoutBlanks rest) := by
  intro kinds
  obtain ⟨id, more, comes, represents⟩ := bare kinds
  have known : kindAmong (kinds ++ more) id = some (.number (.int value)) :=
    represents
  have read
      {made : StoryKind}
      (makes :
        ComesTo (signed op id) (depth + 5) ⟨rest, kinds ++ more⟩
          (some ⟨(kinds ++ more).length⟩) ⟨rest, kinds ++ more ++ [made]⟩) :=
    comesTo_operand_of_sign dark noArrow (comes.attempt.bind comesTo_pure) makes
      rfl noIncrement noDecrement
  cases op with
  | negate =>
      refine
        ⟨⟨(kinds ++ more).length⟩, more ++ [.number (.int (-value))], ?_, ?_⟩
      · rw [← List.append_assoc kinds]
        exact read ((comesTo_kindOf known).bind comesTo_make)
      · rw [← List.append_assoc kinds]
        exact kindAmong_last _ _
  | not =>
      refine
        ⟨⟨(kinds ++ more).length⟩, more ++ [.number (.bool (value == 0))], ?_, ?_⟩
      · rw [← List.append_assoc kinds]
        exact read ((comesTo_kindOf known).bind comesTo_make)
      · rw [← List.append_assoc kinds]
        exact kindAmong_last _ _

theorem isRead_negative
    (number : Nat)
    (small : (number : Int) + 1 ≤ 2147483647) :
    IsRead (.int (.negSucc number)) 7 where
  dark _ := by
    rw [Term.toList_written_negSucc]
    rfl
  operand {rest} ends := by
    have nonempty : Nat.toDigits 10 (number + 1) ≠ [] :=
      Nat.toDigits_ne_nil
    have areDigits := all_isDigit_toDigits (number + 1)
    have value := digitsValue_toDigits (number + 1)
    have bare :=
      readsTerm_bare_digits 0 nonempty areDigits
        (by rw [value]; omega) ends
    rw [value] at bare
    rw [Term.toList_written_negSucc]
    exact
      ReadsTerm.of_sign .negate bare
        (dark_digits _ nonempty areDigits)
        (head?_ne_of_digits nonempty areDigits (by decide)) ends.increment
        ends.decrement

/-- A sign is read with its operand, wherever the operand is read behind a sign. -/
theorem isRead_unary
    (begins :
      ∀ {rest : List Char},
        EndsOperand rest →
          StartsWithout isInlineBlank (operand.written.toList ++ rest) ∧
            (operand.written.toList ++ rest).head? ≠ some '>')
    (reads :
      ∀ {rest : List Char},
        EndsOperand rest →
          ∃ middle,
            withoutBlanks middle = withoutBlanks rest ∧
              ReadsTerm (bareOperand (some op)) (depth + 5)
                (operand.written.toList ++ rest) operand middle)
    (takes : operand.TakesSign op) :
    IsRead (.unary op operand) (depth + 5) where
  dark _ := by
    rw [Term.toList_written_unary]
    exact dark_symbol.dropWhile
  operand {rest} ends := by
    intro kinds
    obtain ⟨dark, noPoint⟩ := begins ends
    obtain ⟨middle, same, readsOperand⟩ := reads ends
    obtain ⟨id, more, comes, represents⟩ := readsOperand kinds
    refine
      ⟨⟨(kinds ++ more).length⟩, more ++ [.unary op id], ?_, id, ?_, ?_⟩
    · rw [Term.toList_written_unary, ← List.append_assoc kinds]
      exact
        comesTo_operand_of_sign dark noPoint comes
          (comesTo_signed takes represents) same ends.increment ends.decrement
    · rw [← List.append_assoc]
      exact kindAmong_last _ _
    · rw [← List.append_assoc]
      exact represents.mono (kindAmong_append _)

/-- A sign before a term without one. -/
theorem isRead_unary_bare
    (isRead : IsBareRead operand (depth + 5))
    (writable : operand.IsWritable)
    (bare : operand.IsBare)
    (takes : operand.TakesSign op) :
    IsRead (.unary op operand) (depth + 5) := by
  apply isRead_unary _ _ takes
  · intro rest ends
    have begins := beginsBare_written writable bare ends.word
    exact ⟨begins.dark, begins.noPoint⟩
  · intro rest ends
    refine ⟨rest, rfl, ?_⟩
    intro kinds
    obtain ⟨id, more, comes, represents⟩ := isRead rest ends kinds
    exact ⟨id, more, comes.attempt.bind comesTo_pure, represents⟩

/-- A text with a sign is no term, unless the sign belongs to a number. -/
theorem comesTo_bareTerm_sign
    (noNumber :
      op = .negate → StartsWithout isDigit (withoutBlanks text)) :
    ComesTo bareTerm (depth + 7) ⟨op.symbol.toList ++ text, kinds⟩ none
      ⟨op.symbol.toList ++ text, kinds⟩ := by
  cases op with
  | negate =>
      apply comesTo_bareTerm_none ('-' :: text)
      · exact startsWithout_cons.mpr (by decide)
      · exact startsWithout_cons.mpr (by decide)
      · simp
      · simp
      · exact signedDigits_minus_none (noNumber rfl)
  | not =>
      apply comesTo_bareTerm_none ('!' :: text)
      · exact startsWithout_cons.mpr (by decide)
      · exact startsWithout_cons.mpr (by decide)
      · simp
      · simp
      · exact signedDigits_none (by simp) (startsWithout_cons.mpr (by decide))

/-- A sign before a term with another one. -/
theorem isRead_unary_unary
    {inner : UnaryOp}
    (isRead : IsRead (.unary inner operand) (depth + 7))
    (writable : operand.IsWritable)
    (clear : ¬ (Term.unary op (.unary inner operand)).LooksNumeric) :
    IsRead (.unary op (.unary inner operand)) (depth + 9) := by
  apply isRead_unary
  · intro rest _
    rw [Term.toList_written_unary]
    refine ⟨dark_symbol, ?_⟩
    rcases symbol_eq inner with symbol | symbol
    all_goals
      rw [symbol]
      simp
  · intro rest ends
    refine ⟨withoutBlanks rest, withoutBlanks_withoutBlanks rest, ?_⟩
    intro kinds
    have noTerm :
        ComesTo bareTerm (depth + 9)
          ⟨(Term.unary inner operand).written.toList ++ rest, kinds⟩ none
          ⟨(Term.unary inner operand).written.toList ++ rest, kinds⟩ := by
      rw [Term.toList_written_unary]
      apply comesTo_bareTerm_sign
      rintro rfl
      obtain ⟨first, others, letters⟩ :=
        List.exists_cons_of_ne_nil (written_ne_nil writable)
      rw [withoutBlanks, (dark_written writable ends).dropWhile, letters]
      rw [Term.LooksNumeric, letters] at clear
      exact startsWithout_cons.mpr (by simpa using clear)
    obtain ⟨id, more, comes, represents⟩ := isRead.operand ends kinds
    refine ⟨id, more, ?_, represents⟩
    apply noTerm.attempt.bind
    exact (ComesTo.read .operand comes).parse
  · trivial

end Signs

section Descriptions

/-- A term without a sign is read, with blanks behind it or without. -/
theorem IsBareRead.exists_isRead
    (reads : IsBareRead term depth)
    (writable : term.IsWritable)
    (bare : term.IsBare) :
    ∃ depth, IsRead term depth ∧ (term.IsBare → IsBareRead term depth) :=
  ⟨depth + 5, reads.isRead writable bare,
    fun _ => reads.mono (Nat.le_add_right depth 5)⟩

/-- There is a depth that is enough for each of some terms. -/
theorem exists_depth_of_forall
    {terms : List Term}
    (each : ∀ term ∈ terms, ∃ depth, IsRead term depth) :
    ∃ depth, ∀ term ∈ terms, IsRead term depth := by
  induction terms with
  | nil =>
      exact ⟨0, nofun⟩
  | cons first others inductionHypothesis =>
      obtain ⟨depth, isFirst⟩ := each first List.mem_cons_self
      obtain ⟨otherDepth, areOthers⟩ :=
        inductionHypothesis fun term member =>
          each term (List.mem_cons_of_mem first member)
      refine ⟨max depth otherDepth, ?_⟩
      intro term member
      rcases List.mem_cons.mp member with rfl | isOther
      · exact isFirst.mono (Nat.le_max_left _ _)
      · exact (areOthers term isOther).mono (Nat.le_max_right _ _)

/-- A term is read as it is written, if no sign in it stands before what looks like a number. -/
theorem exists_isRead
    (writable : term.Throughout Term.IsWritable)
    (clear : term.Throughout fun part => ¬ part.LooksNumeric) :
    ∃ depth, IsRead term depth ∧ (term.IsBare → IsBareRead term depth) := by
  induction term with
  | int value =>
      obtain ⟨smallest, largest⟩ := writable.self
      cases value with
      | ofNat number =>
          exact
            (isBareRead_int number largest).exists_isRead writable
              (Int.natCast_nonneg number)
      | negSucc number =>
          refine ⟨7, isRead_negative number (by omega), ?_⟩
          intro bare
          exact absurd bare (by simp [Term.IsBare])
  | bool value =>
      exact (isBareRead_bool value).exists_isRead writable trivial
  | reference path =>
      exact (isBareRead_reference writable).exists_isRead writable trivial
  | list items =>
      exact (isBareRead_list writable).exists_isRead writable trivial
  | call name arguments inductionHypothesis =>
      have areWritable := Term.throughoutAll_iff.mp writable.2
      have areClear := Term.throughoutAll_iff.mp clear.2
      obtain ⟨depth, areRead⟩ :=
        exists_depth_of_forall fun argument member => by
          obtain ⟨depth, isRead, -⟩ :=
            inductionHypothesis argument member (areWritable argument member)
              (areClear argument member)
          exact ⟨depth, isRead⟩
      have reads : IsBareRead (.call name arguments) (depth + 16) := by
        apply isBareRead_call writable.1.1
        intro argument member
        exact (areRead argument member).mono (Nat.le_add_right depth 7)
      exact reads.exists_isRead writable.1 trivial
  | unary op operand inductionHypothesis =>
      obtain ⟨depth, isRead, isBareRead⟩ := inductionHypothesis writable.2 clear.2
      have takes : operand.TakesSign op := writable.1
      have noBare : ¬ (Term.unary op operand).IsBare :=
        id
      by_cases bare : operand.IsBare
      · have reads :=
          isRead_unary_bare
            ((isBareRead bare).mono (Nat.le_add_right depth 5)) writable.2.self
            bare takes
        exact ⟨depth + 5, reads, fun isBare => absurd isBare noBare⟩
      · cases operand with
        | int value =>
            cases takes
        | unary inner operand =>
            have reads :=
              isRead_unary_unary
                (isRead.mono (Nat.le_add_right depth 7)) writable.2.2.self clear.1
            exact ⟨depth + 9, reads, fun isBare => absurd isBare noBare⟩
        | bool _ | reference _ | list _ | call _ _ | binary _ _ _ =>
            exact absurd trivial bare
  | binary left op right leftHypothesis rightHypothesis =>
      obtain ⟨leftDepth, leftRead, -⟩ := leftHypothesis writable.2.1 clear.2.1
      obtain ⟨rightDepth, rightRead, -⟩ := rightHypothesis writable.2.2 clear.2.2
      have reads :=
        isBareRead_binary op writable.2.1.self
          (leftRead.mono (Nat.le_max_left leftDepth rightDepth))
          (rightRead.mono (Nat.le_max_right leftDepth rightDepth))
      exact reads.exists_isRead writable.1 trivial

end Descriptions

end Grammar

end InkSyntax
