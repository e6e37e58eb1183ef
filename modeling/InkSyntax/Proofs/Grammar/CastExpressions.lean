import InkSyntax.Proofs.Grammar.CastTrees
import InkSyntax.Proofs.Grammar.ExpressionTrees

namespace InkSyntax.Grammar

/-!
# The roles in expressions and logic in braces

A reference begins with a word that is not reserved because its rule looks at the
name and gives up otherwise; the type of a sequence is one of a few because other
combinations are replaced; and a sequence has alternatives because each way to read
them gives one at least.
-/

open Rule (attempt parse literal ifThere ofStep NamesParts)

attribute [local simp] Covers NodeKind.parts

variable {known : List NodeId}

section Operands

theorem casts_divertValue :
    divertValue.Casts [] fun id => [(id, .expression)] := by
  refine .ask (by simp) fun _ => ?_
  refine .then casts_singleDivert.parse fun divert => ?_
  refine .inspect fun kind admits => ?_
  split
  next link =>
    cases isThread : link.isThread with
    | true =>
        exact ⟨.single, admits, rfl, .askKnowing (Rule.yields_require _) (by simp) (by simp)⟩
    | false =>
        have notTunnel : link.isTunnel = false := by
          simpa [Role.suits] using admits.suits
        refine ⟨.straight, ⟨by simp [Role.suits, notTunnel, isThread], .inr (admits.proper.resolve_left (by simp))⟩, rfl, ?_⟩
        refine .ask (by simp) fun _ => ?_
        refine .ask (by simp) fun _ => ?_
        exact .make ⟨rfl, .inr trivial⟩ (by simp [Role.demands])
  next notDivert =>
    refine ⟨.single, admits, rfl, ?_⟩
    cases kind with
    | divert link => exact absurd rfl (notDivert link)
    | _ => cases admits.suits

theorem casts_number
    (value : NumberValue) :
    (make (.number value)).Casts [] fun id => [(id, .expression)] :=
  casts_leaf ⟨rfl, .inr trivial⟩ rfl

theorem casts_floatLiteral :
    floatLiteral.Casts [] fun id => [(id, .expression)] := by
  refine .ask (by simp) fun digits => ?_
  exact casts_number _

theorem casts_intLiteral :
    intLiteral.Casts [] fun id => [(id, .expression)] := by
  refine .ask (by simp) fun value => ?_
  exact casts_number _

theorem casts_boolLiteral :
    boolLiteral.Casts [] fun id => [(id, .expression)] := by
  refine .ask (by simp) fun word => ?_
  split
  · exact casts_number _
  · exact casts_number _
  · exact .fail

theorem casts_stringLiteral :
    stringLiteral.Casts [] fun id => [(id, .expression)] := by
  refine .ask (by simp) fun _ => ?_
  refine .read (Rule.reads_setFlag _ _) fun _ => ?_
  refine .then casts_prose.triedNodes fun content => ?_
  refine .ask (by simp) fun _ => ?_
  refine .read (Rule.reads_setFlag _ _) fun _ => ?_
  split
  · refine .then (casts_makeText _) fun empty => ?_
    exact .make ⟨rfl, .inr trivial⟩ (by simp [Role.demands])
  next content =>
    refine .ask (asks_anyNode fun id member => asks_isDivert (by simpa using member)) fun _ => ?_
    refine .remark (by simp) fun _ => ?_
    exact .make ⟨rfl, .inr trivial⟩ (by simp [Role.demands])

theorem casts_literalValue :
    literalValue.Casts [] fun id => [(id, .expression)] := by
  apply Rule.Casts.oneOf
  simp [casts_floatLiteral, casts_intLiteral, casts_boolLiteral,
    casts_stringLiteral]

theorem casts_functionCall :
    functionCall.Casts [] fun id => [(id, .expression)] := by
  refine .then casts_identifier fun function => ?_
  refine .ask (by simp) fun _ => ?_
  refine .then casts_callArguments.parse fun arguments => ?_
  exact .make ⟨rfl, .inr trivial⟩ (by simp [Role.demands, List.count_cons])

/-- The first name was looked at, so that it is known not to be reserved. -/
theorem casts_reference :
    reference.Casts [] fun id => [(id, .expression)] := by
  have path :
      (Rule.alternate (Rule.single identifier)
        (Rule.dropped (spaced (literal ".")))).Casts [] Role.identifier.parts :=
    .alternateNodes casts_identifier.single (.dropped (by simp))
  refine .thenKnowing (Rule.yields_alternate _ _) path fun path notEmpty => ?_
  cases path with
  | nil => exact absurd rfl notEmpty
  | cons first rest =>
      rw [List.append_nil, Role.parts_cons]
      refine Rule.casts_assoc.mpr (.inspect fun kind admits => ?_)
      cases kind with
      | identifier name =>
          refine ⟨.named name, ⟨by simp [Role.suits], .inr (admits.proper.resolve_left (by simp))⟩, rfl, ?_⟩
          refine .certain (.askKnowing (Rule.yields_require _) (by simp) fun _ isFree => ?_)
          refine .offerNode .word ?_ (.named_word (by simpa using isFree))
          exact .make ⟨rfl, .inr notEmpty⟩ (by simp [Role.demands])
      | _ => cases admits.suits

theorem casts_parenthesised :
    parenthesised.Casts [] fun id => [(id, .expression)] := by
  refine .ask (by simp) fun _ => ?_
  refine .then casts_expression.parse fun inner => ?_
  refine .ask (by simp) fun _ => ?_
  refine .ask (by simp) fun _ => ?_
  exact .pure (by simp)

/-- An element of a list is named by one name or by two, with a point between them. -/
theorem casts_listMember :
    listMember.Casts [] fun id => [(id, .identifier)] := by
  have named
      {name : String}
      (unbroken : Unbroken name) :
      (make (.identifier name)).Casts [] fun id => [(id, .identifier)] :=
    casts_leaf ⟨rfl, .inr unbroken⟩ rfl
  refine .ask (by simp) fun _ => ?_
  refine .askKnowing yields_name (by simp) fun first isFirst => ?_
  refine .ask (by simp) fun hasPoint => ?_
  split
  · refine .askKnowing (yields_name.expect _).attempt (by simp) fun element isElement => ?_
    refine .askKnowing (.pure rfl : Rule.Yields _ (· = _)) (by simp) fun full isFull => ?_
    refine .ask (by simp) fun _ => ?_
    rw [isFull]
    exact named (by simp +decide [isFirst, unbroken_getD isElement])
  · refine .askKnowing (.pure rfl : Rule.Yields _ (· = first)) (by simp) fun full isFull => ?_
    refine .ask (by simp) fun _ => ?_
    exact named (isFull ▸ isFirst)

theorem casts_listLiteral :
    listLiteral.Casts [] fun id => [(id, .expression)] := by
  refine .ask (by simp) fun _ => ?_
  refine .ask (by simp) fun _ => ?_
  refine .ask (by simp) fun _ => ?_
  have members :
      (Rule.separated listMember (spaced (literal ","))).Casts []
        Role.identifier.parts :=
    casts_listMember.separated (by simp)
  refine
    .then
      (members.attempt (fun found => Role.identifier.parts (found.getD [])) rfl)
      fun items => ?_
  refine .ask (by simp) fun _ => ?_
  refine .ask (by simp) fun _ => ?_
  exact .make ⟨rfl, .inr trivial⟩ (by simp [Role.demands])

/-- The sign of a number becomes part of a new one; the old one is dropped. -/
theorem casts_signed
    (op : UnaryOp)
    (inner : NodeId) :
    (signed op inner).Casts [(inner, .expression)]
      fun id => [(id, .expression)] := by
  refine .ask (by simp) fun kind => ?_
  split <;> exact .make ⟨rfl, .inr trivial⟩ (by simp [Role.demands])

/-- What identifiers are called is on one line, and asking for it changes nothing. -/
theorem casts_identifierNames
    {β : Type}
    {given : List Part}
    {gives : β → List Part}
    {next : List String → GrammarRule β}
    {path : List NodeId}
    (areGiven : ∀ id ∈ path, (id, .identifier) ∈ given)
    (then_ : ∀ names, (∀ name ∈ names, Unbroken name) → (next names).Casts given gives) :
    (identifierNames path >>= next).Casts given gives := by
  induction path generalizing next with
  | nil =>
      exact then_ [] nofun
  | cons id others inductionHypothesis =>
      obtain ⟨isGiven, othersGiven⟩ := List.forall_mem_cons.mp areGiven
      have named
          {name : String}
          (unbroken : Unbroken name) :
          ((identifierNames others >>= fun names => Pure.pure (name :: names)) >>= next).Casts
            given gives := by
        refine Rule.casts_assoc.mpr (inductionHypothesis othersGiven fun names areNames => ?_)
        exact .certain (then_ _ (List.forall_mem_cons.mpr ⟨unbroken, areNames⟩))
      refine Rule.casts_assoc.mpr (Rule.casts_assoc.mpr (.inspectAmong isGiven ?_))
      intro kind admits
      cases kind with
      | identifier name =>
          exact .certain (named (admits.proper.resolve_left (by simp)))
      | _ => cases admits.suits

/-- The names of a path may be used once more. -/
theorem casts_joinedIdentifier
    (path : List NodeId) :
    (joinedIdentifier path).Casts (Role.identifier.parts path)
      fun id => [(id, .identifier)] := by
  unfold joinedIdentifier
  split
  · exact .pure (by simp)
  · refine casts_identifierNames (fun id member => List.mem_map_of_mem member) fun names unbroken => ?_
    exact .make ⟨rfl, .inr ((unbroken_intercalate (by decide)).mpr unbroken)⟩ (by simp [Role.demands])

theorem casts_bareOperand
    (sign : Option UnaryOp) :
    (bareOperand sign).Casts [] fun id => [(id, .expression)] := by
  have term :
      (Rule.oneOf [listLiteral, parenthesised, functionCall, reference,
        literalValue]).Casts [] fun id => [(id, .expression)] := by
    apply Rule.Casts.oneOf
    simp [casts_listLiteral, casts_parenthesised, casts_functionCall,
      casts_reference, casts_literalValue]
  have operand :
      (Rule.effect (.read .operand)).Casts [] fun id => [(id, .expression)] :=
    Rule.casts_construct .operand
  refine
    .then (term.attempt (fun found => Role.expression.parts found.toList) rfl)
      fun found => ?_
  split
  · exact .pure (by simp)
  · exact operand.parse
  · exact .fail

/-- The names of a reference are identifiers, the first one a word besides. -/
theorem serves_names
    (path : List NodeId) :
    List.Forall₂
      (fun part other => part.1 = other.1 ∧ part.2.Serves other.2)
      (Role.word.parts path.head?.toList ++ Role.identifier.parts path.tail)
      (Role.identifier.parts path) := by
  cases path with
  | nil =>
      exact .nil
  | cons first rest =>
      exact
        .cons ⟨rfl, .word_identifier⟩
          (Role.forall₂_parts fun _ _ => ⟨rfl, .refl _⟩)

/-- A step takes the names out of the reference that it is applied to. -/
theorem casts_stepAfter
    (value : NodeId) :
    (stepAfter value).Casts [(value, .expression)]
      fun id => [(id, .expression)] := by
  refine .ask (Rule.asks_oneOf (by simp) fun _ => rfl) fun step => ?_
  split
  · exact .pure (by simp)
  next isIncrement =>
    refine .apart fun kind admits => ?_
    split
    next path =>
      left
      have stepped :
          (joinedIdentifier path >>= fun target =>
            make (.step target none isIncrement)).Casts
            (Role.identifier.parts path) fun id => [(id, .expression)] :=
        .bind (casts_joinedIdentifier path) fun name =>
          .make ⟨rfl, .inr trivial⟩ (by simp [Role.demands])
      rw [List.append_nil]
      exact stepped.offer (serves_names path)
    next =>
      right
      refine .ask (asks_survey.mpr (by simp)) fun draft => ?_
      refine .ask (by simp) fun _ => ?_
      exact .pure (by simp)

theorem casts_operand :
    operand.Casts [] fun id => [(id, .expression)] := by
  refine .then casts_divertValue.triedNode ?_
  rintro (_ | value)
  · refine .ask (by simp) fun sign => ?_
    refine .ask (by simp) fun _ => ?_
    refine .then (casts_bareOperand sign) fun bare => ?_
    split
    next op =>
      refine .using [] (casts_signed op bare) (by simp) fun value => ?_
      refine .ask (by simp) fun _ => ?_
      exact casts_stepAfter value
    next =>
      refine .certain ?_
      refine .ask (by simp) fun _ => ?_
      exact casts_stepAfter bare
  · exact .pure (by simp)

end Operands

section Operators

/-- What an attempt to extend an expression gives, with its role. -/
def Extension.parts (left : NodeId) : Extension → List Part
  | .grown expression => [(expression, .expression)]
  | .broken => []
  | .ended => [(left, .expression)]

theorem casts_rightSide
    (left : NodeId)
    (operator : Infix) :
    (rightSide left operator).Casts [(left, .expression)]
      fun id => [(id, .expression)] := by
  refine .ask asks_skipBlanks fun _ => ?_
  have reads :
      (Rule.effect (.read (.expression operator.strength))).Casts []
        fun id => [(id, .expression)] :=
    Rule.casts_construct (.expression operator.strength)
  refine .then reads.parse fun right => ?_
  exact
    .makeSpanning ⟨rfl, .inr trivial⟩
      (by simp [Role.demands, List.count_cons, Nat.add_comm])

/-- The scope around an operator is kept if the expression grew, and undone otherwise. -/
theorem casts_extend
    (weakerThan : Nat)
    (left : NodeId) :
    (extend weakerThan left).Casts [(left, .expression)]
      (Extension.parts left) := by
  intro origin admits read include_ supplies machine nodes reaches plays
  refine Rule.guarantees_scope ?_
  have tried : (attempt infixOperator).Asks [left] := by
    simp
  have asked :=
    tried.reads supplies.supplies machine.opened nodes reaches plays.cast.knows
      fun id root => plays.cast.mem_of_root root
  -- An operator that is too weak leaves the draft alone, and so does none.
  have ended
      {after : Machine Workshop}
      (proceeds : machine.opened.Proceeds after)
      (same : after.host.draft = machine.host.draft)
      (closed : Machine Workshop)
      (undoes : machine.Undoes after closed) :
      machine.Proceeds closed ∧
        Draft.Recasts nodes machine.host.draft closed.host.draft
          [(left, .expression)] := by
    rw [draft_of_asked proceeds same undoes]
    exact ⟨undoes.toProceeds, plays.recasts⟩
  refine Rule.guarantees_bind.mpr (asked.mono ?_ ?_)
  · rintro (_ | operator) middle ⟨proceeds, same⟩
    · exact ⟨proceeds, ended proceeds same⟩
    · simp only
      split
      · have playsMiddle :
            middle.host.draft.Plays [(left, .expression)] nodes := by
          rw [same]
          exact plays
        have grown (description : String) :=
          ((casts_rightSide left operator).expect description).attempt
            (ifThere fun id => [(id, .expression)]) rfl supplies middle nodes
            (reaches.trans proceeds.cursor) playsMiddle
        rw [same] at grown
        refine Rule.guarantees_bind.mpr ((grown _).mono ?_ ?_)
        · rintro (_ | binary) after ⟨proceedsThen, recasts⟩
          · refine ⟨proceeds.trans proceedsThen, fun closed undoes => ?_⟩
            refine ⟨undoes.toProceeds, ?_, [], .nil, by simp⟩
            rw [undoes.host]
            exact recasts.spares.rewind
          · refine ⟨proceeds.trans proceedsThen, fun closed closes => ?_⟩
            obtain ⟨spares, found, playsFound, foundKnown⟩ := recasts
            refine ⟨closes.toProceeds, ?_⟩
            rw [closes.host]
            have spanned : [binary] ⊆ found := fun id member =>
              playsFound.cast.mem_of_root member
            exact
              (playsFound.recasts_of_kinds (Draft.spares_setSpans _ _ _)
                spanned (Draft.kinds_setSpans _ _ _)).trans spares foundKnown
        · intro after leads
          refine
            ⟨proceeds.trans leads.proceeds, fun closed undoes =>
              ⟨undoes.toProceeds, ?_⟩⟩
          rw [undoes.host]
          have spares := leads.spares
          rw [same] at spares
          exact spares.rewind
      · exact ⟨proceeds, ended proceeds same⟩
  · rintro after ⟨proceeds, same⟩
    refine ⟨proceeds, fun closed undoes => ⟨undoes.toProceeds, ?_⟩⟩
    rw [draft_of_asked proceeds same undoes]
    exact .refl _ _

theorem casts_expressionAbove
    (weakerThan : Nat) :
    (expressionAbove weakerThan).Casts [] fun id => [(id, .expression)] := by
  refine .ask asks_skipBlanks fun _ => ?_
  have operand :
      (Rule.effect (.read .operand)).Casts [] fun id => [(id, .expression)] :=
    Rule.casts_construct .operand
  refine .then operand.parse fun first => ?_
  refine .ask asks_skipBlanks fun _ => ?_
  have rounds :
      (Rule.loop first fun left => do
        match ← extend weakerThan left with
        | .grown binary => return .inl binary
        | .broken => Rule.fail
        | .ended => return (.inr left : NodeId ⊕ NodeId)).Casts
          [(first, .expression)] fun id => [(id, .expression)] := by
    refine .loop (fun id => [(id, .expression)]) (fun left => ?_) first
    refine .bind (casts_extend weakerThan left) ?_
    rintro (binary | _ | _)
    · exact .pure (by simp [Extension.parts])
    · exact .fail
    · exact .pure (by simp [Extension.parts])
  refine .bind rounds fun whole => ?_
  refine .ask asks_skipBlanks fun _ => ?_
  exact .pure (by simp)

end Operators

section Sequences

/-- Whatever is asked for, a sequence gets one of a few types. -/
theorem yields_sequenceAnnotation :
    sequenceAnnotation.Yields (· ∈ sequenceTypes) := by
  refine .behind fun found => ?_
  extract_lets settle
  have settled (type : SequenceType) : (settle type).Yields (· ∈ sequenceTypes) := by
    refine .ite (fun _ => .behind fun _ => .pure (by decide)) fun isSupported => ?_
    refine .ite (fun _ => .pure (by decide)) fun notShuffle => .pure ?_
    simp only [supportedSequences, sequenceTypes, List.contains_eq_mem,
      List.mem_cons, Bool.not_eq_true', decide_eq_false_iff_not, not_not,
      beq_iff_eq] at isSupported notShuffle ⊢
    tauto
  split <;> exact .behind fun type => settled type

theorem alternativesOf_ne_nil
    {pieces : List BarPiece}
    (notEmpty : pieces ≠ []) :
    alternativesOf false pieces ≠ [] := by
  cases pieces with
  | nil => exact absurd rfl notEmpty
  | cons piece rest => cases piece <;> simp [alternativesOf]

theorem yields_barSeparated :
    barSeparated.Yields (· ≠ []) :=
  .bind (Rule.yields_alternate _ _) fun _ notEmpty =>
    .pure (alternativesOf_ne_nil notEmpty)

theorem yields_trimmedLists
    {contents : List (List NodeId)}
    (notEmpty : contents ≠ []) :
    (trimmedLists contents).Yields (· ≠ []) := by
  cases contents with
  | nil => exact absurd rfl notEmpty
  | cons content others =>
      exact
        .behind fun _ => .behind fun _ => .behind fun _ => .behind fun _ =>
          .pure (by simp)

/-- There is one alternative at least, however they are written. -/
theorem yields_alternatives :
    alternatives.Yields (· ≠ []) := by
  refine .behind fun lineEnds => ?_
  split
  · exact .parse (.behind fun _ => Rule.yields_oneOrMore _)
  · exact
      .parse (.bind yields_barSeparated fun _ notEmpty =>
        yields_trimmedLists notEmpty)

/-- The nodes of a piece as content, unless it is a bar. -/
def BarPiece.parts (piece : BarPiece) : List Part :=
  Role.content.parts piece.nodes

theorem flatMap_barPieceParts
    (pieces : List BarPiece) :
    pieces.flatMap BarPiece.parts =
      Role.content.parts (pieces.flatMap BarPiece.nodes) := by
  induction pieces with
  | nil => rfl
  | cons piece rest inductionHypothesis =>
      simp [BarPiece.parts, inductionHypothesis]

theorem casts_barSeparated :
    barSeparated.Casts [] fun contents => Role.content.parts contents.flatten := by
  have content :
      (do return BarPiece.content (← prose) : GrammarRule BarPiece).Casts []
        BarPiece.parts :=
    .then casts_prose fun nodes =>
      .pure (by simp [BarPiece.parts, BarPiece.nodes])
  have bar :
      (do
        literal "|"
        return BarPiece.bar : GrammarRule BarPiece).Casts [] BarPiece.parts :=
    .ask (by simp) fun _ => .pure (by simp [BarPiece.parts, BarPiece.nodes])
  have pieces :
      (Rule.alternate (Rule.optionally do return BarPiece.content (← prose))
        (Rule.single do
          literal "|"
          return BarPiece.bar)).Casts [] fun found =>
            found.flatMap BarPiece.parts :=
    .alternate content.optionally bar.single
  refine .then pieces fun found => ?_
  exact .pure (by simp [flatten_alternativesOf, flatMap_barPieceParts])

theorem casts_contentList
    (content : List NodeId) :
    (make (.contentList content)).Casts (Role.content.parts content)
      fun id => [(id, .list)] :=
  .make ⟨rfl, .inr trivial⟩ fun _ => Nat.le_refl _

theorem casts_trimmedLists
    (contents : List (List NodeId)) :
    (trimmedLists contents).Casts (Role.content.parts contents.flatten)
      Role.list.parts := by
  induction contents with
  | nil =>
      exact .pure (by simp)
  | cons content others inductionHypothesis =>
      unfold trimmedLists
      refine
        .using (Role.content.parts others.flatten) (casts_trimContentStart content)
          (by simp) fun fromStart => ?_
      refine
        .using (Role.content.parts others.flatten) (casts_trimContentEnd fromStart)
          (by simp) fun trimmed => ?_
      refine
        .using (Role.content.parts others.flatten) (casts_contentList trimmed)
          (by simp) fun list => ?_
      refine
        .using [(list, .list)] inductionHypothesis (by simp [List.count_cons])
          fun rest => ?_
      exact .pure (by simp [List.count_cons])

theorem casts_inlineAlternatives :
    inlineAlternatives.Casts [] Role.list.parts := by
  refine .then casts_barSeparated fun contents => ?_
  rw [List.append_nil]
  exact casts_trimmedLists contents

theorem casts_dashedAlternative :
    dashedAlternative.Casts [] fun id => [(id, .list)] := by
  refine .ask (by simp) fun _ => ?_
  refine .ask (by simp) fun isArrow => ?_
  split
  · exact .fail
  · refine .ask (by simp) fun _ => ?_
    refine .ask (by simp) fun _ => ?_
    refine
      .then
        ((casts_statements .block).attempt
          (fun found => Role.content.parts (found.getD [])) rfl) ?_
    rintro (_ | content)
    · refine .ask (by simp) fun _ => ?_
      exact casts_contentList []
    · refine .then (casts_makeText _) fun lineFeed => ?_
      exact (casts_contentList (lineFeed :: content)).weaken (by simp [List.count_cons]) fun _ _ => Nat.le_refl _

theorem casts_alternatives :
    alternatives.Casts [] Role.list.parts := by
  refine .ask (by simp) fun lineEnds => ?_
  split
  · exact .parse (.ask (by simp) fun _ => casts_dashedAlternative.oneOrMore)
  · exact casts_inlineAlternatives.parse

/-- Alternatives of one of a few types make a sequence. -/
theorem casts_sequence
    {type : SequenceType}
    {found : List NodeId}
    (isType : type ∈ sequenceTypes)
    (notEmpty : found ≠ []) :
    (make (.sequence type found)).Casts (Role.list.parts found)
      fun id => [(id, .content)] :=
  .make ⟨rfl, .inr ⟨isType, notEmpty⟩⟩ fun _ => Nat.le_refl _

theorem casts_unannotatedSequence :
    unannotatedSequence.Casts [] fun id => [(id, .content)] := by
  refine .ask (by simp) fun _ => ?_
  refine
    .askKnowing yields_sequenceAnnotation.parse.attempt (by simp)
      fun annotation isType => ?_
  refine .thenKnowing yields_alternatives.parse casts_alternatives.parse fun found notEmpty => ?_
  refine .ask (by simp) fun _ => ?_
  rw [List.append_nil]
  refine casts_sequence ?_ notEmpty
  cases annotation with
  | none => decide
  | some type => exact isType type rfl

end Sequences

section Conditionals

/-- A branch stays a branch, whatever its part in the conditional is. -/
theorem turns_role
    (isTrueBranch isElse matchingEquality : Bool) :
    (Amendment.role isTrueBranch isElse matchingEquality).Turns [] .branch
      .branch := by
  intro kind admits
  cases kind with
  | branch arm =>
      exact ⟨⟨rfl, .inr trivial⟩, (List.append_nil _).symm⟩
  | _ => cases admits.suits

theorem turns_inline
    (isInline : Bool) :
    (Amendment.inline isInline).Turns [] .branch .branch := by
  intro kind admits
  cases kind with
  | branch arm =>
      exact ⟨⟨rfl, .inr trivial⟩, (List.append_nil _).symm⟩
  | _ => cases admits.suits

theorem casts_condition :
    condition.Casts [] fun id => [(id, .expression)] := by
  refine .then casts_expression.parse fun found => ?_
  refine .ask (asks_refuseStep (by simp)) fun _ => ?_
  refine .ask (by simp) fun _ => ?_
  refine .ask (by simp) fun _ => ?_
  exact .pure (by simp)

/-- A branch holds its condition and its content. -/
theorem casts_branch
    (arm : Branch) :
    (make (.branch arm)).Casts
      (Role.expression.parts arm.ownCondition.toList ++
        Role.content.parts arm.content)
      fun id => [(id, .branch)] :=
  .make ⟨rfl, .inr trivial⟩ fun _ => Nat.le_refl _

theorem casts_inlineBranches :
    inlineBranches.Casts [] Role.branch.parts := by
  refine .then casts_barSeparated fun contents => ?_
  split
  · exact .pure (by simp)
  next held =>
    refine .using [] (casts_branch _) (by simp) fun only => ?_
    exact .pure (by simp)
  next held otherwise =>
    refine
      .using (Role.content.parts otherwise) (casts_branch _) (by simp)
        fun first => ?_
    refine
      .using [(first, .branch)] (casts_branch _) (by simp [List.count_cons])
        fun second => ?_
    exact .pure (by simp [List.count_cons, Nat.add_comm])
  · refine .ask (by simp) fun _ => ?_
    exact .pure (by simp)

theorem casts_ownCondition
    (isElse : Bool) :
    (ownCondition isElse).Casts []
      fun found => Role.expression.parts found.toList := by
  unfold ownCondition
  split
  · exact .pure (by simp)
  · exact casts_condition.triedNode

theorem casts_branchContent
    (own : Option NodeId) :
    (branchContent own).Casts [] Role.content.parts := by
  refine
    .then
      ((casts_statements .block).attempt
        (fun found => Role.content.parts (found.getD [])) rfl)
      fun found => ?_
  split
  · exact .pure (by simp)
  · split
    · refine .ask (by simp) fun _ => ?_
      refine .then (casts_makeText _) fun empty => ?_
      exact .pure (by simp)
    · exact .pure (by simp)

theorem casts_dashedBranch :
    dashedBranch.Casts [] fun id => [(id, .branch)] := by
  refine .ask (by simp) fun _ => ?_
  refine .ask (by simp) fun isArrow => ?_
  split
  · exact .fail
  · refine .ask (by simp) fun _ => ?_
    refine .ask (by simp) fun _ => ?_
    refine .ask (by simp) fun elseMark => ?_
    refine .then (casts_ownCondition _) fun own => ?_
    refine .then (casts_branchContent own) fun content => ?_
    refine .ask (by simp) fun _ => ?_
    exact (casts_branch _).weaken (by simp; omega) fun _ _ => Nat.le_refl _

theorem casts_dashedBranches :
    dashedBranches.Casts [] Role.branch.parts := by
  refine .ask (by simp) fun _ => ?_
  refine .then casts_dashedBranch.oneOrMore fun branches => ?_
  refine .ask (by simp) fun _ => ?_
  exact .pure (by simp)

variable {given : List Part}

theorem casts_requireElse
    {second : NodeId}
    (isGiven : (second, .branch) ∈ given) :
    (requireElse second).Casts given fun _ => given := by
  have isRoot : second ∈ given.map Prod.fst := List.mem_map_of_mem isGiven
  refine .ask (asks_branchOf isRoot) fun arm => ?_
  split
  · refine .ask (asks_errorAt isRoot _) fun _ => ?_
    exact .amendAmong isGiven (turns_role _ _ _)
  · exact .pure (by simp)

theorem casts_undashedBranches :
    undashedBranches.Casts [] Role.branch.parts := by
  refine .then (casts_statements .block) fun content => ?_
  refine .using [] (casts_branch _) (by simp) fun first => ?_
  refine .then casts_dashedBranch.triedNode ?_
  rintro (_ | second)
  · exact .pure (by simp)
  · refine .bind (casts_requireElse (by simp)) fun _ => ?_
    exact .pure (by simp [List.count_cons, Nat.add_comm])

theorem casts_blockBranches
    (subject : Option NodeId) :
    (blockBranches subject).Casts [] Role.branch.parts := by
  refine .then casts_dashedBranches.triedNodes fun found => ?_
  split
  · refine .ask (asks_onlyElse (by simp)) fun isElse => ?_
    split
    · refine .then (casts_branch _) fun added => ?_
      exact .pure (by simp)
    · exact .pure (by simp)
  · split
    · exact .fail
    · exact casts_undashedBranches

theorem casts_settleComparedBranch
    {id : NodeId}
    (isGiven : (id, .branch) ∈ given)
    (count earlier : Nat)
    (earlierConditions isLast : Bool)
    (arm : Branch) :
    (settleComparedBranch count earlier earlierConditions isLast id arm).Casts
      given fun _ => given := by
  have isRoot : id ∈ given.map Prod.fst := List.mem_map_of_mem isGiven
  have amends
      (isTrueBranch isElse matchingEquality : Bool) :
      (amend id (.role isTrueBranch isElse matchingEquality)).Casts given
        fun _ => given :=
    .amendAmong isGiven (turns_role _ _ _)
  unfold settleComparedBranch
  split
  · exact amends _ _ _
  · split
    · exact amends _ _ _
    · split
      · exact (asks_errorAt isRoot _).reads.casts
      · split
        · exact amends _ _ _
        · exact amends _ _ _

theorem casts_settleCompared
    {branches : List NodeId}
    (areGiven : ∀ id ∈ branches, (id, .branch) ∈ given)
    (count earlier : Nat)
    (earlierConditions : Bool) :
    (settleCompared count earlier earlierConditions branches).Casts given
      fun _ => given := by
  induction branches generalizing earlier earlierConditions with
  | nil =>
      exact .pure (by simp)
  | cons id rest inductionHypothesis =>
      obtain ⟨isGiven, restGiven⟩ := List.forall_mem_cons.mp areGiven
      refine .ask (asks_branchOf (List.mem_map_of_mem isGiven)) fun arm => ?_
      refine .bind (casts_settleComparedBranch isGiven _ _ _ _ _) fun _ => ?_
      exact inductionHypothesis restGiven _ _

theorem casts_settleConditionBranch
    {last id : NodeId}
    (lastGiven : (last, .branch) ∈ given)
    (isGiven : (id, .branch) ∈ given)
    (isLast : Bool)
    (arm : Branch) :
    (settleConditionBranch last isLast id arm).Casts given
      fun _ => given := by
  have isRoot : id ∈ given.map Prod.fst := List.mem_map_of_mem isGiven
  have lastRoot : last ∈ given.map Prod.fst := List.mem_map_of_mem lastGiven
  unfold settleConditionBranch
  split
  · split
    · exact .amendAmong isGiven (turns_role _ _ _)
    · split
      · refine .ask (asks_branchOf lastRoot) fun arm => ?_
        split
        · exact (asks_errorAt lastRoot _).reads.casts
        · exact (asks_errorAt isRoot _).reads.casts
      · exact (asks_errorAt isRoot _).reads.casts
  · exact .pure (by simp)

theorem casts_settleConditions
    {last : NodeId}
    {branches : List NodeId}
    (lastGiven : (last, .branch) ∈ given)
    (areGiven : ∀ id ∈ branches, (id, .branch) ∈ given) :
    (settleConditions last branches).Casts given fun _ => given := by
  induction branches with
  | nil =>
      exact .pure (by simp)
  | cons id rest inductionHypothesis =>
      obtain ⟨isGiven, restGiven⟩ := List.forall_mem_cons.mp areGiven
      refine .ask (asks_branchOf (List.mem_map_of_mem isGiven)) fun arm => ?_
      refine .bind (casts_settleConditionBranch lastGiven isGiven _ _) fun _ => ?_
      exact inductionHypothesis restGiven

theorem casts_settleBranches
    (subject : Option NodeId)
    (branches : List NodeId) :
    (settleBranches subject branches).Casts (Role.branch.parts branches)
      fun _ => Role.branch.parts branches := by
  have areGiven (id : NodeId) (member : id ∈ branches) :
      (id, .branch) ∈ Role.branch.parts branches :=
    List.mem_map_of_mem member
  unfold settleBranches
  split
  · exact casts_settleCompared areGiven _ _ _
  next last isLast =>
    exact
      casts_settleConditions (areGiven last (List.mem_of_getLast? isLast))
        areGiven
  · exact .pure (by simp)

theorem casts_amendAll
    {amendment : Amendment}
    {role : Role}
    {ids : List NodeId}
    (turns : amendment.Turns [] role role)
    (areGiven : ∀ id ∈ ids, (id, role) ∈ given) :
    (amendAll amendment ids).Casts given fun _ => given := by
  induction ids with
  | nil =>
      exact .pure (by simp)
  | cons id others inductionHypothesis =>
      obtain ⟨isGiven, othersGiven⟩ := List.forall_mem_cons.mp areGiven
      refine .bind (.amendAmong isGiven turns) fun _ => ?_
      exact inductionHypothesis othersGiven

theorem casts_settledBranches
    (subject : Option NodeId) :
    (settledBranches subject).Casts [] Role.branch.parts := by
  refine .then (casts_blockBranches subject) fun found => ?_
  rw [List.append_nil]
  refine .bind (casts_settleBranches subject found) fun _ => ?_
  exact .pure (by simp)

theorem casts_branches
    (subject : Option NodeId) :
    (branches subject).Casts [] Role.branch.parts := by
  refine .ask (by simp) fun lineEnds => ?_
  extract_lets isInline
  split
  · exact .fail
  · refine
      .either Role.branch.parts casts_inlineBranches
        (casts_settledBranches subject) fun found => ?_
    refine
      .bind
        (casts_amendAll (turns_inline _) fun id member =>
          List.mem_map_of_mem member)
        fun _ => ?_
    exact .pure (by simp)

/-- A conditional has branches, and a subject at times. -/
theorem casts_makeConditional
    (subject : Option NodeId)
    (found : List NodeId) :
    (make (.conditional subject found)).Casts
      (Role.branch.parts found ++ Role.expression.parts subject.toList)
      fun id => [(id, .content)] :=
  .make ⟨rfl, .inr trivial⟩ (by simp [Role.demands]; omega)

theorem casts_conditional :
    conditional.Casts [] fun id => [(id, .content)] := by
  refine .then casts_condition.triedNode fun subject => ?_
  refine .then (casts_branches subject).parse fun found => ?_
  rw [List.append_nil]
  exact casts_makeConditional subject found

end Conditionals

section Braces

theorem casts_annotatedSequence
    {type : SequenceType}
    (isType : type ∈ sequenceTypes) :
    (annotatedSequence type).Casts [] fun id => [(id, .content)] := by
  refine
    .thenKnowing (yields_alternatives.expect _) (casts_alternatives.expect _)
      fun found notEmpty => ?_
  rw [List.append_nil]
  exact casts_sequence isType notEmpty

theorem casts_conditionalOn
    (subject : NodeId) :
    (conditionalOn subject).Casts [(subject, .expression)]
      fun id => [(id, .content)] := by
  refine .then ((casts_branches (some subject)).expect _) fun found => ?_
  exact casts_makeConditional (some subject) found

theorem casts_upToBrace
    {rule : GrammarRule NodeId}
    (casts : rule.Casts [] fun id => [(id, .content)]) :
    (upToBrace rule).Casts [] fun id => [(id, .content)] := by
  refine .then casts.parse fun found => ?_
  refine .ask (by simp) fun _ => ?_
  exact .pure (by simp)

theorem casts_braceContent :
    braceContent.Casts [] fun id => [(id, .content)] := by
  refine .ask (by simp) fun _ => ?_
  refine
    .askKnowing yields_sequenceAnnotation.parse.attempt (by simp)
      fun annotation isType => ?_
  split
  next type =>
    exact casts_annotatedSequence (isType type rfl)
  · refine .then casts_condition.triedNode fun subject => ?_
    split
    next subject =>
      exact casts_conditionalOn subject
    next =>
      have bare := casts_expression.serveNode (.expression_statement .block)
      apply Rule.Casts.firstOf
      simp [casts_upToBrace casts_conditional,
        casts_upToBrace casts_unannotatedSequence, casts_upToBrace bare]

theorem casts_asContentList
    (id : NodeId) :
    (asContentList id).Casts [(id, .content)] fun list => [(list, .list)] := by
  refine .inspect fun kind admits => ?_
  split
  · exact ⟨.list, ⟨rfl, .inr trivial⟩, rfl, .pure (by simp)⟩
  · exact ⟨.content, admits, rfl, casts_contentList [id]⟩

/-- A list that content is put into is a list with more content. -/
theorem turns_append
    (child : NodeId) :
    (Amendment.append child).Turns [(child, .content)] .list .list := by
  intro kind admits
  cases kind with
  | contentList content =>
      refine ⟨⟨rfl, .inr trivial⟩, ?_⟩
      simp [Amendment.apply, Role.demands]
  | _ => cases admits.suits

theorem casts_appendTo
    (list : NodeId)
    (ids : List NodeId) :
    (appendTo list ids).Casts ((list, .list) :: Role.content.parts ids)
      fun _ => [(list, .list)] := by
  induction ids with
  | nil =>
      exact .pure (by simp)
  | cons id others inductionHypothesis =>
      exact .bind (.amend _ (turns_append id)) fun _ => inductionHypothesis

theorem casts_braces :
    braces.Casts [] fun id => [(id, .content)] := by
  refine .ask (by simp) fun _ => ?_
  refine .ask (by simp) fun inString => ?_
  refine .ask (by simp) fun tagOpen => ?_
  refine .ask (by simp) fun _ => ?_
  refine
    .then
      ((casts_braceContent.expect _).attempt
        (fun found => Role.content.parts found.toList) rfl)
      fun found => ?_
  split
  · refine .read (Rule.reads_setFlag _ _) fun _ => ?_
    exact .fail
  next logic =>
    rw [List.append_nil]
    refine .ask (asks_refuseStep (by simp)) fun _ => ?_
    refine .bind (casts_asContentList logic) fun list => ?_
    refine .ask (by simp) fun _ => ?_
    refine .ask (by simp) fun _ => ?_
    refine .read (Rule.reads_setFlag _ _) fun _ => ?_
    have done :
        (Pure.pure list : GrammarRule NodeId).Casts [(list, .list)]
          fun id => [(id, .content)] :=
      .offerNode .content (.pure (by simp)) .list_content
    split
    · refine .then casts_closeTag fun markers => ?_
      refine
        .using [] (casts_appendTo list markers) (by simp [List.count_cons]) fun _ => done
    · exact done

theorem casts_mixedProse :
    mixedProse.Casts [] Role.content.parts :=
  casts_proseOf casts_braces

end Braces

end InkSyntax.Grammar
