import InkSyntax.Proofs.Reading.Operands

namespace InkSyntax

/-!
# Parentheses on a page

An opening parenthesis may begin a list literal, the arguments of a call or a term
with an operator.  A list literal is tried first: where one word and then an operator
follow, it fails behind the word.
-/

/-- An element of a list literal whose parts are names. -/
def ListItem.IsNamed (item : ListItem) : Prop :=
  Grammar.IsName item.first ∧ ∀ element ∈ item.element, Grammar.IsName element

instance ListItem.decidableIsNamed (item : ListItem) :
    Decidable item.IsNamed :=
  inferInstanceAs (Decidable (_ ∧ _))

theorem ListItem.isNamed_single
    {name : String}
    (isName : Grammar.IsName name) :
    ListItem.IsNamed ⟨name, none⟩ :=
  ⟨isName, by simp⟩

namespace Grammar

variable
    {depth : Nat}
    {kinds : List StoryKind}
    {text rest : List Char}
    {word : String}
    {term left right : Term}

section Closing

theorem endsOperand_of_endsItem
    (ends : EndsItem rest) :
    EndsOperand rest := by
  apply endsOperand_of_dark
  · exact ends.startsWithout (by decide) (by decide)
  · exact ends.startsWithout (by decide) (by decide)
  · intro character member
    simp only [List.mem_cons, List.not_mem_nil, or_false] at member
    rcases ends with first | first
    all_goals
      rw [first]
      rcases member with rfl | rfl | rfl | rfl
      all_goals decide

/-- Neither a comma nor a closing parenthesis begins an operator. -/
theorem endsAbove_of_endsItem
    {weakerThan : Nat}
    (ends : EndsItem rest) :
    EndsAbove weakerThan rest := by
  have others :
      ∀ candidate ∈ infixes,
        candidate.spelling.toList.head?.all (fun c => c != ',' && c != ')') =
          true := by
    decide
  apply endsAbove_of_noPrefix
  intro candidate member
  obtain ⟨first, letters, spelled, -⟩ := spelling_startsDark candidate member
  have isOther := others candidate member
  rw [spelled] at isOther ⊢
  apply ends.not_prefix rfl
  · rintro rfl
    cases isOther
  · rintro rfl
    cases isOther

theorem comesTo_closing
    {description : String} :
    ComesTo (Rule.attempt (Rule.expect (Rule.literal ")") description))
      (depth + 1) ⟨')' :: rest, kinds⟩ (some (some ())) ⟨rest, kinds⟩ :=
  (comesTo_literal rfl).expect.attempt

end Closing

section Lists

/-- An element of a list literal is read with the blanks behind it. -/
theorem comesTo_listMember
    (depth : Nat)
    (kinds : List StoryKind)
    {item : ListItem}
    (isNamed : item.IsNamed)
    (ends : StartsWithout isIdentifierChar rest)
    (noPoint : item.element = none → ¬ ".".toList <+: rest) :
    ComesTo listMember (depth + 2) ⟨item.written.toList ++ rest, kinds⟩
      (some ⟨kinds.length⟩)
      ⟨withoutBlanks rest, kinds ++ [.identifier item.written]⟩ := by
  obtain ⟨first, element⟩ := item
  obtain ⟨isFirst, isElement⟩ := isNamed
  cases element with
  | none =>
      have written : ListItem.written ⟨first, none⟩ = first :=
        String.append_empty
      rw [written]
      apply (comesTo_skipBlanks isFirst.withoutBlanks).bind
      apply (comesTo_name isFirst ends).bind
      apply (comesTo_optionalLiteral_none (noPoint rfl)).bind
      apply ComesTo.bind comesTo_pure
      apply (comesTo_skipBlanks rfl).bind
      exact comesTo_make
  | some element =>
      have written :
          ListItem.written ⟨first, some element⟩ = first ++ "." ++ element :=
        String.append_assoc.symm
      have spelled :
          (first ++ "." ++ element).toList ++ rest =
            first.toList ++ '.' :: (element.toList ++ rest) := by
        simp
      have named :
          ComesTo
            (Rule.attempt
              (Rule.expect name
                "element name within list definition (i.e. after the '.')"))
            (depth + 2) ⟨element.toList ++ rest, kinds⟩ (some (some element))
            ⟨rest, kinds⟩ :=
        (comesTo_name (isElement element rfl) ends).expect.attempt
      rw [written, spelled]
      apply (comesTo_skipBlanks isFirst.withoutBlanks).bind
      apply (comesTo_name isFirst (startsWithout_cons.mpr (by decide))).bind
      apply (comesTo_optionalLiteral rfl).bind
      apply named.bind
      apply ComesTo.bind comesTo_pure
      apply (comesTo_skipBlanks rfl).bind
      exact comesTo_make

theorem fails_listMember
    (digits : List Char)
    (areDigits : digits.all isDigit = true)
    (ends : StartsWithout isIdentifierChar rest)
    (dark : StartsWithout isInlineBlank (digits ++ rest)) :
    Fails listMember (depth + 1) ⟨digits ++ rest, kinds⟩ := by
  apply (comesTo_skipBlanks dark.dropWhile).bind_fails
  exact (comesTo_name_none _ areDigits ends).bind_none.fails

/-- Behind one element a list literal needs a comma or its end. -/
theorem fails_listLiteral_behind_item
    {item : ListItem}
    (isNamed : item.IsNamed)
    (ends : StartsWithout isIdentifierChar rest)
    (noPoint : item.element = none → ¬ ".".toList <+: rest)
    (noComma : ¬ ",".toList <+: withoutBlanks rest)
    (noClosing : ¬ ")".toList <+: withoutBlanks rest) :
    Fails listLiteral (depth + 4)
      ⟨'(' :: (item.written.toList ++ rest), kinds⟩ := by
  have dark :
      withoutBlanks (item.written.toList ++ rest) =
        item.written.toList ++ rest := by
    rw [ListItem.written, String.toList_append, List.append_assoc]
    exact isNamed.1.withoutBlanks
  have member := comesTo_listMember depth kinds isNamed ends noPoint
  have alone :=
    comesTo_separated (spaced (Rule.literal ",")) member
      (.done (Fails.spaced rfl
        (fails_literal (by rwa [withoutBlanks_withoutBlanks]))))
  apply (comesTo_skipBlanks rfl).bind_fails
  apply (comesTo_literal rfl).bind_fails
  apply (comesTo_skipBlanks dark).bind_fails
  apply alone.attempt.bind_fails
  apply (comesTo_skipBlanks (withoutBlanks_withoutBlanks rest)).bind_fails
  exact (fails_literal noClosing).bind

/-- Without an element a list literal needs its end. -/
theorem fails_listLiteral_without_item
    (dark : StartsWithout isInlineBlank text)
    (noMember : Fails listMember (depth + 1) ⟨text, kinds⟩)
    (noClosing : text.head? ≠ some ')') :
    Fails listLiteral (depth + 3) ⟨'(' :: text, kinds⟩ := by
  have none := comesTo_separated_none (spaced (Rule.literal ",")) noMember
  apply (comesTo_skipBlanks rfl).bind_fails
  apply (comesTo_literal rfl).bind_fails
  apply (comesTo_skipBlanks dark.dropWhile).bind_fails
  apply none.attempt.bind_fails
  apply (comesTo_skipBlanks dark.dropWhile).bind_fails
  apply Fails.bind
  exact fails_literal (not_prefix_of_head? rfl noClosing)

/-- The elements of a list literal are read in order, each as an identifier. -/
theorem exists_listed_items
    {items : List ListItem}
    (areNamed : ∀ item ∈ items, item.IsNamed)
    (kinds : List StoryKind) :
    ∃ ids more,
      Listed listMember (spaced (Rule.literal ",")) (depth + 2)
          ⟨furtherWords [',', ' '] (')' :: rest) (items.map ListItem.written),
            kinds⟩
          ids ⟨')' :: rest, kinds ++ more⟩ ∧
        List.Forall₂ (Term.Names (kindAmong (kinds ++ more)))
          (items.map ListItem.written) ids := by
  have noComma
      (kinds : List StoryKind) :
      Fails (spaced (Rule.literal ",")) (depth + 2) ⟨')' :: rest, kinds⟩ :=
    have differs : ¬ ",".toList <+: ')' :: rest := by simp
    Fails.spaced rfl (fails_literal differs)
  have listed :=
    exists_listed listMember [',', ' '] ListItem.written
      (fun kind? item => Term.Names kind? item.written) items
      (List.cons_ne_nil _ _) noComma
      (fun _ more _ _ => Term.Names.mono (kindAmong_append more))
  simp only [List.forall₂_map_left_iff]
  apply listed
  intro item member others kinds
  have isNamed := areNamed item member
  have ends := endsItem_furtherWords rest (others.map ListItem.written)
  have comes :=
    comesTo_listMember depth kinds isNamed
      (ends.startsWithout (by decide) (by decide))
      (fun _ => ends.not_prefix rfl (by decide) (by decide))
  rw [withoutBlanks_of_endsItem ends] at comes
  have dark :
      withoutBlanks
          (' ' ::
            (item.written.toList ++
              furtherWords [',', ' '] (')' :: rest)
                (others.map ListItem.written))) =
        item.written.toList ++
          furtherWords [',', ' '] (')' :: rest) (others.map ListItem.written) := by
    rw [withoutBlanks_space, ListItem.written, String.toList_append,
      List.append_assoc]
    exact isNamed.1.withoutBlanks
  exact
    ⟨(), _, _, _, ComesTo.spaced rfl (comesTo_literal rfl) dark, comes,
      kindAmong_last _ _⟩

theorem readsTerm_listLiteral_nil :
    ReadsTerm listLiteral (depth + 4) ('(' :: ')' :: rest) (.list []) rest := by
  intro kinds
  have noMember : Fails listMember (depth + 1) ⟨')' :: rest, kinds⟩ :=
    fails_listMember [] rfl (startsWithout_cons.mpr (by decide))
      (startsWithout_cons.mpr (by decide))
  have none := comesTo_separated_none (spaced (Rule.literal ",")) noMember
  refine ⟨⟨kinds.length⟩, [.listLiteral []], ?_, [], kindAmong_last _ _, .nil⟩
  apply (comesTo_skipBlanks rfl).bind
  apply (comesTo_literal rfl).bind
  apply (comesTo_skipBlanks rfl).bind
  apply (none.mono (Nat.le_succ _)).attempt.bind
  apply (comesTo_skipBlanks rfl).bind
  apply (comesTo_literal rfl).bind
  exact comesTo_make

/-- A list literal is read as it is written. -/
theorem readsTerm_listLiteral
    {items : List ListItem}
    (areNamed : ∀ item ∈ items, item.IsNamed) :
    ReadsTerm listLiteral (depth + 4)
      ('(' ::
        separatedWords [',', ' '] (')' :: rest) (items.map ListItem.written))
      (.list items) rest := by
  cases items with
  | nil =>
      exact readsTerm_listLiteral_nil
  | cons first others =>
      intro kinds
      have isFirst := areNamed first List.mem_cons_self
      have ends := endsItem_furtherWords rest (others.map ListItem.written)
      have firstComes :=
        comesTo_listMember depth kinds isFirst
          (ends.startsWithout (by decide) (by decide))
          (fun _ => ends.not_prefix rfl (by decide) (by decide))
      rw [withoutBlanks_of_endsItem ends] at firstComes
      obtain ⟨ids, more, listed, areIds⟩ :=
        exists_listed_items
          (fun item member => areNamed item (List.mem_cons_of_mem first member))
          (kinds ++ [.identifier first.written])
      have elements := comesTo_separated _ firstComes listed
      have dark :
          withoutBlanks
              (separatedWords [',', ' '] (')' :: rest)
                ((first :: others).map ListItem.written)) =
            first.written.toList ++
              furtherWords [',', ' '] (')' :: rest)
                (others.map ListItem.written) := by
        rw [List.map_cons, separatedWords, ListItem.written, String.toList_append,
          List.append_assoc]
        exact isFirst.1.withoutBlanks
      have isIdentifier :
          Term.Names (kindAmong (kinds ++ [.identifier first.written] ++ more))
            first.written ⟨kinds.length⟩ :=
        Term.Names.mono (kindAmong_append more) (kindAmong_last _ _)
      refine
        ⟨⟨(kinds ++ [NodeKind.identifier first.written] ++ more).length⟩,
          [NodeKind.identifier first.written] ++ more ++
            [.listLiteral (⟨kinds.length⟩ :: ids)],
          ?_, ⟨kinds.length⟩ :: ids, ?_, ?_⟩
      · rw [← List.append_assoc, ← List.append_assoc]
        apply (comesTo_skipBlanks rfl).bind
        apply (comesTo_literal rfl).bind
        apply (comesTo_skipBlanks dark).bind
        apply elements.attempt.bind
        apply (comesTo_skipBlanks rfl).bind
        apply (comesTo_literal rfl).bind
        exact comesTo_make
      · rw [← List.append_assoc, ← List.append_assoc]
        exact kindAmong_last _ _
      · rw [← List.append_assoc, ← List.append_assoc]
        apply List.Forall₂.imp _ (List.Forall₂.cons isIdentifier areIds)
        intro written id
        exact Term.Names.mono (kindAmong_append _)

end Lists

/-- A term as it is written is read wherever an operand ends behind it. -/
structure IsRead
    (term : Term)
    (depth : Nat) : Prop where
  dark {rest : List Char} (ends : EndsOperand rest) :
    withoutBlanks (term.written.toList ++ rest) = term.written.toList ++ rest
  operand {rest : List Char} (ends : EndsOperand rest) :
    ReadsTerm operand depth (term.written.toList ++ rest) term
      (withoutBlanks rest)

theorem IsRead.mono
    {deeper : Nat}
    (isRead : IsRead term depth)
    (depth_le : depth ≤ deeper) :
    IsRead term deeper where
  dark := isRead.dark
  operand ends := (isRead.operand ends).mono depth_le

/-- A term before a comma or a closing parenthesis is an expression. -/
theorem IsRead.as_expression
    {weakerThan : Nat}
    (isRead : IsRead term depth)
    (ends : EndsItem rest)
    (behind : withoutBlanks text = term.written.toList ++ rest) :
    ReadsTerm (expressionAbove weakerThan) (depth + 2) text term rest := by
  have same := withoutBlanks_of_endsItem ends
  have reads := isRead.operand (endsOperand_of_endsItem ends)
  rw [same] at reads
  have above : EndsAbove weakerThan (withoutBlanks rest) := by
    rw [same]
    exact endsAbove_of_endsItem ends
  have whole := reads.as_expression behind above
  rwa [same] at whole

section Calls

/-- An argument is read up to the comma or the parenthesis behind it. -/
theorem IsRead.argument
    (isRead : IsRead term depth)
    (ends : EndsItem rest)
    (behind : withoutBlanks text = term.written.toList ++ rest) :
    ReadsTerm expression (depth + 3) text term rest := by
  intro kinds
  obtain ⟨id, more, comes, represents⟩ :=
    isRead.as_expression ends behind kinds
  exact ⟨id, more, ComesTo.read _ comes, represents⟩

theorem exists_listed_arguments
    {terms : List Term}
    (areRead : ∀ term ∈ terms, IsRead term depth)
    (kinds : List StoryKind) :
    ∃ ids more,
      Listed expression (Rule.literal ",") (depth + 3)
          ⟨furtherWords [',', ' '] (')' :: rest) (terms.map Term.written), kinds⟩
          ids ⟨')' :: rest, kinds ++ more⟩ ∧
        List.Forall₂ (Term.Represents (kindAmong (kinds ++ more))) terms ids := by
  have noComma
      (kinds : List StoryKind) :
      Fails (Rule.literal ",") (depth + 3) ⟨')' :: rest, kinds⟩ :=
    fails_literal (by simp)
  have listed :=
    exists_listed expression [',', ' '] Term.written Term.Represents terms
      (List.cons_ne_nil _ _) noComma
      (fun _ more _ _ => Term.Represents.mono (kindAmong_append more))
  apply listed
  intro term member others kinds
  have isRead := areRead term member
  have ends := endsItem_furtherWords rest (others.map Term.written)
  have reads :=
    isRead.argument ends
      (withoutBlanks_space.trans (isRead.dark (endsOperand_of_endsItem ends)))
  obtain ⟨id, more, comes, represents⟩ := reads kinds
  exact ⟨(), _, id, more, comesTo_literal rfl, comes, represents⟩

/-- A closing parenthesis begins no expression. -/
theorem fails_expression_closing :
    Fails expression (depth + 10) ⟨')' :: rest, kinds⟩ := by
  have dark : StartsWithout isInlineBlank (')' :: rest) :=
    startsWithout_cons.mpr (by decide)
  have noWord : StartsWithout isIdentifierChar (')' :: rest) :=
    startsWithout_cons.mpr (by decide)
  have begins : BeginsBare (')' :: rest) :=
    beginsBare_of_noWord noWord dark (by simp)
  have noTerm :
      ComesTo bareTerm (depth + 7) ⟨')' :: rest, kinds⟩ none
        ⟨')' :: rest, kinds⟩ := by
    apply comesTo_bareTerm_none _ noWord dark (by simp) (by simp)
    exact signedDigits_none (by simp) (startsWithout_cons.mpr (by decide))
  obtain ⟨last, comes⟩ := fails_operand noTerm begins
  have noOperand :
      Fails (Rule.effect (.read .operand) : GrammarRule NodeId) (depth + 8)
        ⟨')' :: rest, kinds⟩ :=
    ⟨last, ComesTo.read _ comes⟩
  have noExpression :
      Fails (expressionAbove 0) (depth + 9) ⟨')' :: rest, kinds⟩ :=
    (comesTo_skipBlanks rfl).bind_fails
      noOperand.parse_fails.bind
  obtain ⟨last, comes⟩ := noExpression
  exact ⟨last, ComesTo.read _ comes⟩

/-- The terms between parentheses are read as the arguments of a call. -/
theorem exists_comesTo_callArguments
    {terms : List Term}
    (areRead : ∀ term ∈ terms, IsRead term (depth + 7))
    (kinds : List StoryKind) :
    ∃ ids more,
      ComesTo callArguments (depth + 13)
          ⟨'(' :: separatedWords [',', ' '] (')' :: rest) (terms.map Term.written),
            kinds⟩
          (some ids) ⟨rest, kinds ++ more⟩ ∧
        List.Forall₂ (Term.Represents (kindAmong (kinds ++ more))) terms ids := by
  cases terms with
  | nil =>
      have none :
          ComesTo
            (Rule.alternate (Rule.single expression)
              (Rule.dropped (Rule.literal ",")))
            (depth + 13) ⟨')' :: rest, kinds⟩ none ⟨')' :: rest, kinds⟩ :=
        comesTo_alternate_none fails_expression_closing
      refine ⟨[], [], ?_, .nil⟩
      rw [List.append_nil]
      apply (comesTo_literal rfl).bind
      apply none.attempt.bind
      apply (comesTo_skipBlanks rfl).bind
      apply comesTo_closing.bind
      exact comesTo_pure
  | cons first others =>
      have isFirst := areRead first List.mem_cons_self
      have ends := endsItem_furtherWords rest (others.map Term.written)
      have reads :=
        isFirst.argument ends (isFirst.dark (endsOperand_of_endsItem ends))
      obtain ⟨id, firstKinds, firstComes, represents⟩ := reads kinds
      obtain ⟨ids, more, listed, areOthers⟩ :=
        exists_listed_arguments
          (fun term member => areRead term (List.mem_cons_of_mem first member))
          (kinds ++ firstKinds)
      have arguments := comesTo_alternate firstComes listed
      refine ⟨id :: ids, firstKinds ++ more, ?_, ?_⟩
      · rw [← List.append_assoc]
        apply (comesTo_literal rfl).bind
        apply arguments.attempt.bind
        apply (comesTo_skipBlanks rfl).bind
        apply comesTo_closing.bind
        exact comesTo_pure
      · rw [← List.append_assoc]
        exact .cons (represents.mono (kindAmong_append more)) areOthers

/-- A name with terms in parentheses is read as a call. -/
theorem readsTerm_functionCall
    {terms : List Term}
    (isName : IsName word)
    (areRead : ∀ term ∈ terms, IsRead term (depth + 7)) :
    ReadsTerm functionCall (depth + 14)
      (word.toList ++
        '(' :: separatedWords [',', ' '] (')' :: rest) (terms.map Term.written))
      (.call word terms) rest := by
  intro kinds
  obtain ⟨ids, more, arguments, areArguments⟩ :=
    exists_comesTo_callArguments areRead
      (kinds ++ [.identifier word])
  have names :
      Term.Names (kindAmong (kinds ++ [.identifier word] ++ more)) word
        ⟨kinds.length⟩ :=
    Term.Names.mono (kindAmong_append more) (kindAmong_last _ _)
  refine
    ⟨⟨(kinds ++ [NodeKind.identifier word] ++ more).length⟩,
      [NodeKind.identifier word] ++ more ++
        [.functionCall ⟨kinds.length⟩ ids false],
      ?_, ⟨kinds.length⟩, ids, ?_, ?_, ?_⟩
  · rw [← List.append_assoc, ← List.append_assoc]
    apply (comesTo_identifier _ _ isName (startsWithout_cons.mpr (by decide))).bind
    apply (comesTo_skipBlanks rfl).bind
    apply arguments.parse.bind
    exact comesTo_make
  · rw [← List.append_assoc, ← List.append_assoc]
    exact kindAmong_last _ _
  · rw [← List.append_assoc, ← List.append_assoc]
    exact names.mono (kindAmong_append _)
  · rw [← List.append_assoc, ← List.append_assoc]
    apply Term.representsAll_iff.mpr
    apply areArguments.imp
    intro term id
    exact Term.Represents.mono (kindAmong_append _)

end Calls

section Joined

theorem exists_infix_of_symbol :
    ∀ op : BinaryOp,
      ∃ candidate ∈ infixes, candidate.op = op ∧ candidate.spelling = op.symbol := by
  intro op
  cases op <;> decide

/-- Two terms with an operator between them are read inside parentheses. -/
theorem readsTerm_parenthesised
    (leftRead : IsRead left depth)
    (op : BinaryOp)
    (rightRead : IsRead right depth) :
    ReadsTerm parenthesised (depth + 8)
      ('(' ::
        (left.written.toList ++
          ' ' ::
            (op.symbol.toList ++ ' ' :: (right.written.toList ++ ')' :: rest))))
      (.binary left op right) rest := by
  obtain ⟨candidate, isInfix, rfl, spelled⟩ := exists_infix_of_symbol op
  have closing : EndsItem (')' :: rest) :=
    .inr rfl
  have leftEnds :=
    endsOperand_of_infix (right.written.toList ++ ')' :: rest) isInfix
  have rightDark := rightRead.dark (endsOperand_of_endsItem closing)
  rw [← spelled]
  intro kinds
  obtain ⟨leftId, leftKinds, leftComes, isLeft⟩ := leftRead.operand leftEnds kinds
  obtain ⟨rightId, rightKinds, rightComes, isRight⟩ :=
    rightRead.as_expression closing rightDark (kinds ++ leftKinds)
  have grown :=
    comesTo_extend leftId isInfix (strength_pos candidate isInfix)
      rightDark rightComes
  have goesOn :
      ComesTo (growth 0 leftId) _ _ (some (.inl _)) _ :=
    grown.bind comesTo_pure
  have rounds :=
    Rounds.again goesOn (by simp; omega)
      ((endsAbove_of_endsItem closing).rounds _ _ _)
  have start :
      withoutBlanks
          (withoutBlanks
            (' ' ::
              (candidate.spelling.toList ++
                ' ' :: (right.written.toList ++ ')' :: rest)))) =
        candidate.spelling.toList ++
          ' ' :: (right.written.toList ++ ')' :: rest) := by
    rw [withoutBlanks_withoutBlanks, withoutBlanks_space,
      withoutBlanks_spelling isInfix]
  rw [← start] at rounds
  have whole :=
    comesTo_expressionAbove (')' :: rest)
      (leftComes.mono (Nat.le_add_right _ 4)) (leftRead.dark leftEnds) rounds
  have inner := ComesTo.read (.expression 0) whole
  refine
    ⟨⟨(kinds ++ leftKinds ++ rightKinds).length⟩,
      leftKinds ++ rightKinds ++ [.binary leftId candidate.op rightId],
      ?_, ?_⟩
  · rw [← List.append_assoc, ← List.append_assoc]
    apply (comesTo_literal rfl).bind
    apply inner.parse.bind
    apply (comesTo_skipBlanks rfl).bind
    apply comesTo_closing.bind
    exact comesTo_pure
  · rw [← List.append_assoc, ← List.append_assoc]
    exact represents_joint candidate.op isLeft isRight

end Joined

end Grammar

end InkSyntax
