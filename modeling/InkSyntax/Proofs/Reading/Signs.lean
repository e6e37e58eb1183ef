import InkSyntax.Proofs.Reading.Barriers

namespace InkSyntax

/-!
# Signs upon signs

An operand behind a sign may have a sign too, and each of them is read in a scope of
its own.  An exclamation mark begins no other operand, so the only way on is past the
next sign: where more signs follow than there is room for scopes, the reading breaks
off.
-/

namespace Grammar

/-- An exclamation mark follows. -/
def IsNegated (text : List Char) : Prop :=
  ∃ rest, text = '!' :: rest

variable
    {α : Type}

section Negated

theorem IsNegated.withoutBlanks_eq
    {text : List Char}
    (negated : IsNegated text) :
    withoutBlanks text = text := by
  obtain ⟨rest, rfl⟩ := negated
  rfl

theorem negated_literal
    {word : String}
    (differs : word.toList.head?.any (· != '!') = true) :
    Barred IsNegated (Rule.literal word) := by
  rintro library maxDepth files levels machine ⟨rest, negated⟩
  refine ensures_literal ?_ fun _ => trivial
  intro after _ follows _
  rw [negated, following?] at follows
  cases same : word.toList with
  | nil =>
      rw [same] at differs
      cases differs
  | cons first others =>
      simp_all [List.isPrefixOf]

theorem negated_chars
    {accept : Char → Bool}
    (refused : accept '!' = false) :
    Barred IsNegated (Rule.chars accept) := by
  rintro library maxDepth files levels machine ⟨rest, negated⟩
  refine ensures_chars ?_ fun _ => trivial
  intro after nonempty _
  simp [negated, refused] at nonempty

/-- There are no blanks in front of the mark. -/
theorem negated_behind_blanks
    {rule : GrammarRule α}
    (barred : Barred IsNegated rule) :
    Barred IsNegated (skipBlanks >>= fun _ => rule) := by
  intro library maxDepth files levels machine negated
  refine ensures_bind (ensures_skipBlanks fun after read => ?_)
  refine barred library maxDepth files levels after ?_
  rw [read.rest, negated.withoutBlanks_eq]
  exact negated

theorem negated_name : Barred IsNegated name :=
  .parse (.bind (negated_chars (by decide)))

theorem negated_identifier : Barred IsNegated identifier :=
  .parse (.bind negated_name)

theorem negated_signedDigits :
    Barred IsNegated (Rule.scan .signedDigits) := by
  rintro library maxDepth files levels machine ⟨rest, negated⟩
  refine ensures_scan ?_ fun _ => trivial
  intro value length after found _
  rw [negated] at found
  cases found

theorem negated_decimalDigits :
    Barred IsNegated (Rule.scan .decimalDigits) := by
  rintro library maxDepth files levels machine ⟨rest, negated⟩
  refine ensures_scan ?_ fun _ => trivial
  intro value length after found _
  rw [negated] at found
  cases found

end Negated

section Operands

theorem negated_arrow : Barred IsNegated arrow := by
  intro library maxDepth files levels machine negated
  refine
    ensures_bind
      (ensures_loop
        (fun count machine => count = 0 ∧ IsNegated machine.cursor.rest)
        ⟨rfl, negated⟩ ?_)
  rintro _ machine ⟨rfl, rest, negated⟩
  have notArrow : following? "->" machine.cursor.rest = none := by
    rw [negated]
    rfl
  refine ensures_bind (ensures_optionalLiteral fun after _ => ?_)
  rw [notArrow]
  trivial

theorem negated_diverts : Barred IsNegated diverts := by
  refine negated_behind_blanks (.orElse ?_ (.bind (.alternate (.bind ?_))))
  · exact negated_behind_blanks (.bind (negated_literal (by decide)))
  · exact negated_arrow

theorem negated_divertValue : Barred IsNegated divertValue :=
  negated_behind_blanks (.bind (.parse (.bind (.parse negated_diverts))))

theorem negated_listLiteral : Barred IsNegated listLiteral :=
  negated_behind_blanks (.bind (negated_literal (by decide)))

theorem negated_parenthesised : Barred IsNegated parenthesised :=
  .bind (negated_literal (by decide))

theorem negated_functionCall : Barred IsNegated functionCall :=
  .bind negated_identifier

theorem negated_reference : Barred IsNegated reference :=
  .bind (.alternate (.bind (.parse negated_identifier)))

theorem negated_literalValue : Barred IsNegated literalValue := by
  refine .parse (barred_firstOf ?_)
  simp only [List.forall_mem_cons]
  exact
    ⟨.bind negated_decimalDigits, .bind (.bind negated_signedDigits),
      .bind negated_name, .bind (negated_literal (by decide)), nofun⟩

/-- Nothing but a sign begins an operand with an exclamation mark. -/
theorem negated_operands
    {rule : GrammarRule NodeId}
    (isOperand :
      rule ∈ [listLiteral, parenthesised, functionCall, reference, literalValue]) :
    Barred IsNegated rule := by
  simp only [List.mem_cons, List.not_mem_nil, or_false] at isOperand
  rcases isOperand with rfl | rfl | rfl | rfl | rfl
  · exact negated_listLiteral
  · exact negated_parenthesised
  · exact negated_functionCall
  · exact negated_reference
  · exact negated_literalValue

end Operands

section Signs

variable
    {library : Library}
    {maxDepth files levels room signs : Nat}
    {rest : List Char}
    {machine after : Machine Workshop}

/-- So many exclamation marks follow, and there is room for so many scopes at most. -/
structure HasSigns
    (room signs : Nat)
    (machine : Machine Workshop) : Prop where
  full : machine.stack.maxDepth ≤ machine.stack.height + room
  follow :
    ∃ rest, machine.cursor.rest = List.replicate signs '!' ++ rest

theorem HasSigns.isNegated
    (hasSigns : HasSigns room (signs + 1) machine) :
    IsNegated machine.cursor.rest := by
  obtain ⟨rest, follow⟩ := hasSigns.follow
  exact ⟨_, follow⟩

theorem HasSigns.of_proceeds
    (hasSigns : HasSigns room signs machine)
    (proceeds : machine.Proceeds after)
    (same : after.cursor.rest = machine.cursor.rest) :
    HasSigns room signs after where
  full := by
    rw [proceeds.height, proceeds.maxDepth]
    exact hasSigns.full
  follow := by
    rw [same]
    exact hasSigns.follow

theorem HasSigns.opened
    (hasSigns : HasSigns (room + 1) signs machine) :
    HasSigns room signs machine.opened where
  full := by
    have full := hasSigns.full
    rw [Machine.height_opened]
    change machine.stack.maxDepth ≤ machine.stack.height + 1 + room
    omega
  follow := hasSigns.follow

theorem rest_of_closes_keep
    {closed : Machine Workshop}
    {nodes : List NodeId}
    {number : RuleId}
    (closes : Rule.Closes (.keep nodes) number after closed) :
    closed.cursor.rest = after.cursor.rest := by
  obtain ⟨parent, deeper, _, _, rfl⟩ :=
    Machine.commitScope_eq_ok_iff.mp closes
  rfl

/-- An exclamation mark is read as a sign. -/
theorem ensures_sign
    (follows : machine.cursor.rest = '!' :: rest) :
    Ensures library maxDepth files levels sign machine
      (fun mark after => mark = some .not ∧ after.cursor.rest = rest)
      fun _ => False := by
  have isMinus : Barred IsNegated (Rule.literal "-") :=
    negated_literal (by decide)
  refine ensures_bind (ensures_attempt (ensures_parse ?_))
  refine ensures_bind (Barred.ensures_attempt (.bind isMinus) ⟨rest, follows⟩ ?_)
  intro behindMinus _ same
  have isNot :
      following? "!" behindMinus.cursor.rest = some rest := by
    rw [same, Machine.cursor_opened, follows]
    rfl
  refine ensures_bind (ensures_attempt (ensures_parse (ensures_bind ?_)))
  refine ensures_literal ?_ ?_
  · intro left after follows read
    refine ensures_pure fun inner closesInner => ensures_pure fun outer closesOuter => ?_
    refine ensures_pure ⟨rfl, ?_⟩
    cases isNot.symm.trans follows
    rw [rest_of_closes_keep closesOuter, rest_of_closes_keep closesInner]
    exact read.rest
  · intro missing
    cases isNot.symm.trans missing

theorem ensures_skipBlanks_before_signs
    (hasSigns : HasSigns room (signs + 1) machine) :
    Ensures library maxDepth files levels skipBlanks machine
      (fun _ => HasSigns room (signs + 1)) fun _ => False := by
  have reads :
      Ensures library maxDepth files levels skipBlanks machine
        (fun _ after => after.cursor.rest = machine.cursor.rest)
        fun _ => False := by
    refine ensures_skipBlanks fun after read => ?_
    rw [read.rest, hasSigns.isNegated.withoutBlanks_eq]
  refine reads.proceeds.mono ?_ fun _ => And.left
  rintro - after ⟨same, proceeds⟩
  exact hasSigns.of_proceeds proceeds same

/-- Where more signs follow than there is room for scopes, no operand is read. -/
theorem ensures_operand_behind_signs
    (hasSigns : HasSigns room (room + 1) machine) :
    Ensures library maxDepth files levels operand machine
      (fun _ _ => False) fun _ => False := by
  induction room generalizing levels machine with
  | zero =>
      refine ensures_bind (ensures_attempt (Rule.ensures_scope fun fits => ?_))
      exact absurd hasSigns.full (Nat.not_le.mpr fits)
  | succ room inductionHypothesis =>
      refine
        ensures_bind (negated_divertValue.ensures_attempt hasSigns.isNegated ?_)
      intro behindDivert proceeds same
      have hasSigns :=
        hasSigns.of_proceeds proceeds (congrArg Cursor.rest same)
      obtain ⟨rest, follow⟩ := hasSigns.follow
      refine ensures_bind ((ensures_sign follow).proceeds.mono ?_ fun _ => And.left)
      rintro _ behindSign ⟨⟨rfl, read⟩, proceeds⟩
      have hasSigns : HasSigns (room + 1) (room + 1) behindSign :=
        { full := by
            rw [proceeds.height, proceeds.maxDepth]
            exact hasSigns.full
          follow := ⟨rest, read⟩ }
      have blanks :
          Ensures library maxDepth files levels skipBlanks behindSign
            (fun _ => HasSigns (room + 1) (room + 1)) fun _ => False :=
        ensures_skipBlanks_before_signs hasSigns
      refine ensures_bind (blanks.mono ?_ fun _ => id)
      intro _ behindBlanks hasSigns
      refine ensures_bind (ensures_bind ?_)
      refine
        (barred_firstOf fun _ => negated_operands).ensures_attempt
          hasSigns.isNegated ?_
      intro behindOperands proceeds same
      have hasSigns :=
        hasSigns.of_proceeds proceeds (congrArg Cursor.rest same)
      refine ensures_parse ?_
      cases levels with
      | zero =>
          trivial
      | succ levels =>
          exact
            (inductionHypothesis hasSigns.opened).mono
              (fun _ _ => False.elim) fun _ => False.elim

end Signs

end Grammar

end InkSyntax
