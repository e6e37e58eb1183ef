import InkSyntax.Grammar.Script
import InkSyntax.Proofs.Grammar.Composition

namespace InkSyntax.Grammar

/-!
# What the grammar looks ahead for

Six things, in all: an arrow, a closing brace, nothing at all, what stops text,
what ends the statements at a place, and the header of the next knot.  Every rule of
the grammar consists of parts that look ahead for these only, and that report
problems by telling them.
-/

/-- Something that the grammar looks ahead for, with what reading it gives. -/
inductive Lookahead : Type → Type where
  /-- An arrow, which is no dash and no operator. -/
  | arrow : Lookahead Unit
  | closingBrace : Lookahead Unit
  /-- Nothing, where pieces alternate as long as they can. -/
  | nothing : Lookahead Unit
  | textStop : Lookahead Unit
  | statementsEnd (place : Place) : Lookahead Unit
  /-- The next knot, after a flow without content. -/
  | knotHeader : Lookahead FlowHeader

/-- The rule that is run ahead. -/
def Lookahead.rule : {β : Type} → Lookahead β → GrammarRule β
  | _, .arrow => Rule.literal "->"
  | _, .closingBrace => spaced (Rule.literal "\x7d")
  | _, .nothing => .fail
  | _, .textStop => Grammar.textStop
  | _, .statementsEnd place => Grammar.statementsEnd place
  | _, .knotHeader => Grammar.knotHeader

/-- A rule is run ahead somewhere in the grammar. -/
def RunsAhead (β : Type) (ahead : GrammarRule β) : Prop :=
  ∃ lookahead : Lookahead β, lookahead.rule = ahead

variable {α : Type}

@[simp] theorem consists_arrow_ahead :
    (Rule.peek (Rule.literal "->") : GrammarRule Bool).Consists
      RunsAhead :=
  (Rule.consists_literal "->").peek ⟨.arrow, rfl⟩

/-- Where pieces alternate without an end, nothing is looked for. -/
theorem consists_alternate
    [StandsFor (Step α)]
    [StandsFor (List α)]
    {outer inner : GrammarRule (Step α)}
    (outerLooks : outer.Consists RunsAhead)
    (innerLooks : inner.Consists RunsAhead) :
    (Rule.alternate outer inner).Consists RunsAhead :=
  Rule.consists_alternate outerLooks innerLooks ⟨.nothing, rfl⟩

section Lexemes

@[simp] theorem consists_blanks :
    blanks.Consists RunsAhead := by
  simp [blanks]

@[simp] theorem consists_skipBlanks :
    skipBlanks.Consists RunsAhead := by
  simp [skipBlanks]

@[simp] theorem consists_optionalLiteral
    (expected : String) :
    (optionalLiteral expected).Consists RunsAhead := by
  simp [optionalLiteral]

@[simp] theorem consists_spaced
    [StandsFor α]
    {rule : GrammarRule α}
    (consists : rule.Consists RunsAhead) :
    (spaced rule).Consists RunsAhead := by
  simp [spaced, consists]

@[simp] theorem consists_lineEnd :
    lineEnd.Consists RunsAhead := by
  simp [lineEnd]

@[simp] theorem consists_textEnd :
    textEnd.Consists RunsAhead := by
  simp [textEnd]

@[simp] theorem consists_endOfLine :
    endOfLine.Consists RunsAhead :=
  Rule.consists_oneOf (by simp)

@[simp] theorem consists_blankLines :
    blankLines.Consists RunsAhead := by
  simp [blankLines, Rule.Consists.oneOrMore]

@[simp] theorem consists_skipBlankSpace :
    skipBlankSpace.Consists RunsAhead := by
  refine .bind (fun _ => .bind (by simp) ?_) fun _ => trivial
  rintro (_ | value) <;> trivial

@[simp] theorem consists_restOfLine :
    restOfLine.Consists RunsAhead := by
  simp [restOfLine]

@[simp] theorem consists_skipLine :
    skipLine.Consists RunsAhead := by
  simp [skipLine]

@[simp] theorem consists_wholeLine
    [StandsFor α]
    {rule : GrammarRule α}
    (consists : rule.Consists RunsAhead) :
    (wholeLine rule).Consists RunsAhead := by
  simp [wholeLine, consists]

@[simp] theorem consists_name :
    name.Consists RunsAhead := by
  simp [name]

@[simp] theorem consists_make
    (kind : StoryKind) :
    (make kind).Consists RunsAhead :=
  trivial

@[simp] theorem consists_makeText
    (text : String) :
    (makeText text).Consists RunsAhead :=
  trivial

@[simp] theorem consists_kindOf
    (id : NodeId) :
    (kindOf id).Consists RunsAhead :=
  trivial

@[simp] theorem consists_amend
    (id : NodeId)
    (amendment : Amendment) :
    (amend id amendment).Consists RunsAhead :=
  trivial

@[simp] theorem consists_survey
    (id : NodeId) :
    (survey id).Consists RunsAhead :=
  trivial

@[simp] theorem consists_spanOf
    (id : NodeId) :
    (spanOf id).Consists RunsAhead :=
  trivial

@[simp] theorem consists_expression :
    expression.Consists RunsAhead :=
  trivial

@[simp] theorem consists_prose :
    prose.Consists RunsAhead :=
  trivial

@[simp] theorem consists_statements
    (place : Place) :
    (statements place).Consists RunsAhead :=
  trivial

@[simp] theorem consists_identifierName
    (id : NodeId) :
    (identifierName id).Consists RunsAhead := by
  refine .bind (by simp) fun kind => ?_
  cases kind <;> simp

@[simp] theorem consists_identifier :
    identifier.Consists RunsAhead := by
  simp [identifier]

@[simp] theorem consists_missingIdentifier :
    missingIdentifier.Consists RunsAhead := by
  simp [missingIdentifier]

@[simp] theorem consists_keyword
    (word : String) :
    (keyword word).Consists RunsAhead := by
  simp [keyword]

@[simp] theorem consists_label :
    label.Consists RunsAhead := by
  simp [label]

@[simp] theorem consists_dash :
    dash.Consists RunsAhead := by
  simp [dash]

@[simp] theorem consists_dashes :
    dashes.Consists RunsAhead := by
  refine .bind (by simp) fun _ => .bind (fun _ => .bind (by simp) ?_) (by simp)
  rintro (_ | value) <;> simp

end Lexemes

section Diverts

@[simp] theorem consists_callArguments :
    callArguments.Consists RunsAhead := by
  simp [callArguments, consists_alternate]

@[simp] theorem consists_parameterOf
    (first : Option String)
    (isDivertTarget : Bool)
    (second : Option String) :
    (parameterOf first isDivertTarget second).Consists RunsAhead := by
  simp [parameterOf]

@[simp] theorem consists_parameter :
    parameter.Consists RunsAhead := by
  simp [parameter]

@[simp] theorem consists_parameters :
    parameters.Consists RunsAhead := by
  have found :=
    consists_alternate
      (Rule.Consists.single (consists_spaced consists_parameter))
      (Rule.Consists.dropped (Rule.consists_literal ","))
  simp [parameters, found]

@[simp] theorem consists_closeTag :
    closeTag.Consists RunsAhead := by
  simp [closeTag]

@[simp] theorem consists_arrow :
    arrow.Consists RunsAhead := by
  refine .bind (by simp) fun count => ?_
  split <;> simp

@[simp] theorem consists_targetPath :
    targetPath.Consists RunsAhead := by
  exact
    consists_alternate
      (Rule.Consists.single (consists_spaced consists_identifier))
      (Rule.Consists.dropped (Rule.consists_literal "."))

@[simp] theorem consists_target :
    target.Consists RunsAhead := by
  simp [target]

@[simp] theorem consists_thread :
    thread.Consists RunsAhead := by
  simp [thread, Rule.Consists.expectOr]

@[simp] theorem consists_chain
    (isFirst : Bool)
    (links : List Link) :
    (chain isFirst links).Consists RunsAhead := by
  induction links generalizing isFirst with
  | nil =>
      simp [chain]
  | cons link rest inductionHypothesis =>
      rcases link with (_ | _) | divert <;>
        simp [chain, inductionHypothesis]

@[simp] theorem consists_diverts :
    diverts.Consists RunsAhead := by
  refine .bind (by simp) fun _ => .bind (by simp) ?_
  rintro (_ | divert)
  · simp [consists_alternate]
  · trivial

@[simp] theorem consists_isDivert
    (id : NodeId) :
    (isDivert id).Consists RunsAhead := by
  refine .bind (by simp) fun kind => ?_
  cases kind <;> simp

@[simp] theorem consists_singleDivert :
    singleDivert.Consists RunsAhead := by
  refine .bind (by simp) fun found => ?_
  split
  · refine .bind (by simp) fun kind => ?_
    split <;> simp
  · trivial

end Diverts

section Expressions

@[simp] theorem consists_refuseStep
    (id : NodeId) :
    (refuseStep id).Consists RunsAhead := by
  refine .bind (by simp) fun kind => ?_
  cases kind <;> simp

@[simp] theorem consists_infixOperator :
    infixOperator.Consists RunsAhead := by
  refine .bind (by simp) fun _ => .bind (by simp) fun _ => ?_
  refine Rule.consists_firstOf fun rule member => ?_
  obtain ⟨candidate, _, rfl⟩ := List.mem_map.mp member
  simp

@[simp] theorem consists_rightSide
    (left : NodeId)
    (operator : Infix) :
    (rightSide left operator).Consists RunsAhead := by
  simp [rightSide]

/-- An extension may be kept, though it is undone where nothing was added. -/
@[simp] theorem consists_extend
    (weakerThan : Nat)
    (left : NodeId) :
    (extend weakerThan left).Consists RunsAhead := by
  refine (Rule.consists_scope fun _ => ⟨.grown left, Fate.noConfusion⟩).mpr ?_
  refine .bind (by simp) ?_
  rintro (_ | operator)
  · trivial
  · refine Rule.consists_ite.mpr ⟨fun _ => .bind (by simp) ?_, fun _ => trivial⟩
    rintro (_ | binary) <;> trivial

@[simp] theorem consists_expressionAbove
    (weakerThan : Nat) :
    (expressionAbove weakerThan).Consists RunsAhead := by
  refine .bind (by simp) fun _ => .bind (by simp) fun _ => ?_
  refine .bind (by simp) fun _ => .bind (fun left => .bind (by simp) ?_) (by simp)
  rintro (_ | _ | _) <;> simp

@[simp] theorem consists_notWord :
    notWord.Consists RunsAhead := by
  simp [notWord]

@[simp] theorem consists_divertValue :
    divertValue.Consists RunsAhead := by
  refine .bind (by simp) fun _ => .bind (by simp) fun _ => .bind (by simp) fun kind => ?_
  cases kind <;> simp

@[simp] theorem consists_floatLiteral :
    floatLiteral.Consists RunsAhead := by
  simp [floatLiteral]

@[simp] theorem consists_intLiteral :
    intLiteral.Consists RunsAhead := by
  simp [intLiteral]

@[simp] theorem consists_boolLiteral :
    boolLiteral.Consists RunsAhead := by
  refine .bind (by simp) fun word => ?_
  split <;> simp

theorem consists_anyNode
    {test : NodeId → GrammarRule Bool}
    (looks : ∀ id, (test id).Consists RunsAhead)
    (ids : List NodeId) :
    (anyNode test ids).Consists RunsAhead := by
  induction ids with
  | nil =>
      simp [anyNode]
  | cons id others inductionHypothesis =>
      simp [anyNode, looks id, inductionHypothesis]

@[simp] theorem consists_stringLiteral :
    stringLiteral.Consists RunsAhead := by
  refine .bind (by simp) fun _ => .bind (by simp) fun _ =>
    .bind (by simp) fun content => .bind (by simp) fun _ => .bind (by simp) fun _ => ?_
  cases content <;> simp [consists_anyNode]

@[simp] theorem consists_isPlainString
    (id : NodeId) :
    (isPlainString id).Consists RunsAhead := by
  refine .bind (by simp) fun kind => ?_
  split
  · refine .bind (by simp) fun kind => ?_
    cases kind <;> simp
  · simp

@[simp] theorem consists_literalValue :
    literalValue.Consists RunsAhead :=
  Rule.consists_oneOf (by simp)

@[simp] theorem consists_functionCall :
    functionCall.Consists RunsAhead := by
  simp [functionCall]

@[simp] theorem consists_reference :
    reference.Consists RunsAhead := by
  have path :=
    consists_alternate
      (Rule.Consists.single consists_identifier)
      (Rule.Consists.dropped (consists_spaced (Rule.consists_literal ".")))
  refine .bind path fun path => ?_
  cases path.head? <;> simp

@[simp] theorem consists_parenthesised :
    parenthesised.Consists RunsAhead := by
  simp [parenthesised]

@[simp] theorem consists_listMember :
    listMember.Consists RunsAhead := by
  simp [listMember, Rule.Consists.expect]

@[simp] theorem consists_listLiteral :
    listLiteral.Consists RunsAhead := by
  simp [listLiteral, Rule.Consists.separated]

@[simp] theorem consists_signed
    (op : UnaryOp)
    (inner : NodeId) :
    (signed op inner).Consists RunsAhead := by
  refine .bind (by simp) fun kind => ?_
  split <;> simp

@[simp] theorem consists_identifierNames
    (ids : List NodeId) :
    (identifierNames ids).Consists RunsAhead := by
  induction ids with
  | nil =>
      simp [identifierNames]
  | cons id others inductionHypothesis =>
      simp [identifierNames, inductionHypothesis]

@[simp] theorem consists_joinedIdentifier
    (path : List NodeId) :
    (joinedIdentifier path).Consists RunsAhead := by
  unfold joinedIdentifier
  split <;> simp

@[simp] theorem consists_sign :
    sign.Consists RunsAhead := by
  refine .bind (by simp) ?_
  rintro (_ | op) <;> simp

@[simp] theorem consists_bareOperand
    (sign : Option UnaryOp) :
    (bareOperand sign).Consists RunsAhead := by
  refine .bind (by simp) fun term => ?_
  split <;> simp

@[simp] theorem consists_stepAfter
    (value : NodeId) :
    (stepAfter value).Consists RunsAhead := by
  refine .bind (by simp) ?_
  rintro (_ | isIncrement)
  · trivial
  · refine .bind (by simp) fun kind => ?_
    split <;> simp

@[simp] theorem consists_operand :
    operand.Consists RunsAhead := by
  refine .bind (by simp) ?_
  rintro (_ | value)
  · refine .bind (by simp) fun sign => .bind (by simp) fun _ => ?_
    refine .bind (by simp) fun bare => ?_
    cases sign <;> simp
  · trivial

end Expressions

section Prose

@[simp] theorem consists_textStop :
    textStop.Consists RunsAhead :=
  Rule.consists_oneOf (by simp)

@[simp] theorem consists_plainText :
    plainText.Consists RunsAhead := by
  refine .bind (by simp) fun _ => .bind (by simp) fun _ => ?_
  exact Rule.consists_textUntil ⟨.textStop, rfl⟩ consists_textStop

@[simp] theorem consists_text :
    text.Consists RunsAhead := by
  refine .bind (by simp) ?_
  rintro (_ | written) <;> simp

@[simp] theorem consists_glue :
    glue.Consists RunsAhead := by
  simp [glue]

@[simp] theorem consists_tagStart :
    tagStart.Consists RunsAhead := by
  simp [tagStart]

@[simp] theorem consists_openTag :
    openTag.Consists RunsAhead := by
  simp [openTag]

@[simp] theorem consists_isTextThat
    (test : String → Bool)
    (id : NodeId) :
    (isTextThat test id).Consists RunsAhead := by
  refine .bind (by simp) fun kind => ?_
  cases kind <;> simp

@[simp] theorem consists_trimLast
    (ids : List NodeId) :
    (trimLast ids).Consists RunsAhead := by
  induction ids with
  | nil =>
      simp [trimLast]
  | cons last before inductionHypothesis =>
      refine .bind (by simp) fun kind => ?_
      cases kind <;> simp [inductionHypothesis]

@[simp] theorem consists_trimContentEnd
    (content : List NodeId) :
    (trimContentEnd content).Consists RunsAhead := by
  simp [trimContentEnd]

@[simp] theorem consists_oneBlankAtEnd
    (content : List NodeId) :
    (oneBlankAtEnd content).Consists RunsAhead := by
  unfold oneBlankAtEnd
  cases content.getLast? with
  | none =>
      trivial
  | some last =>
      refine .bind (by simp) fun kind => ?_
      cases kind <;> simp

@[simp] theorem consists_trimContentStart
    (content : List NodeId) :
    (trimContentStart content).Consists RunsAhead := by
  cases content with
  | nil =>
      simp [trimContentStart]
  | cons first rest =>
      refine .bind (by simp) fun kind => ?_
      cases kind <;> simp

@[simp] theorem consists_proseEnding :
    proseEnding.Consists RunsAhead := by
  simp [proseEnding]

theorem consists_proseOf
    {braces : GrammarRule NodeId}
    (consists : braces.Consists RunsAhead) :
    (proseOf braces).Consists RunsAhead := by
  have items :
      (Rule.optionally (Rule.oneOf [braces, glue, openTag])).Consists
        RunsAhead :=
    Rule.Consists.optionally (Rule.consists_oneOf (by simp [consists]))
  refine .bind (consists_alternate (by simp) items) fun items =>
    .bind (by simp) fun ending => ?_
  split <;> simp

@[simp] theorem consists_warnOfReturn
    (first : NodeId) :
    (warnOfReturn first).Consists RunsAhead := by
  refine .bind (consists_isTextThat _ _) fun begins => ?_
  cases begins with
  | false =>
      trivial
  | true =>
      exact Rule.consists_warning _

@[simp] theorem consists_endsInDivert
    (content : List NodeId) :
    (endsInDivert content).Consists RunsAhead := by
  unfold endsInDivert
  cases content.getLast? <;> simp

@[simp] theorem consists_beginsWithTag
    (content : List NodeId) :
    (beginsWithTag content).Consists RunsAhead := by
  unfold beginsWithTag
  cases content.head? with
  | none =>
      trivial
  | some first =>
      refine .bind (by simp) fun kind => ?_
      cases kind <;> simp

@[simp] theorem consists_withLineFeed
    (content : List NodeId) :
    (withLineFeed content).Consists RunsAhead := by
  simp [withLineFeed]

@[simp] theorem consists_proseLine :
    proseLine.Consists RunsAhead := by
  refine .bind (by simp) fun _ => .bind (by simp) ?_
  rintro (_ | ⟨first, rest⟩) <;> simp

@[simp] theorem consists_symbolAnnotation :
    symbolAnnotation.Consists RunsAhead := by
  simp [ symbolAnnotation]

@[simp] theorem consists_sequenceWord :
    sequenceWord.Consists RunsAhead := by
  refine .bind (by simp) fun word => ?_
  split <;> simp

@[simp] theorem consists_wordAnnotation :
    wordAnnotation.Consists RunsAhead := by
  simp [ wordAnnotation, consists_alternate]

@[simp] theorem consists_sequenceAnnotation :
    sequenceAnnotation.Consists RunsAhead := by
  refine .bind (by simp) ?_
  rintro (_ | type) <;> simp

@[simp] theorem consists_barSeparated :
    barSeparated.Consists RunsAhead := by
  simp [barSeparated, consists_alternate]

@[simp] theorem consists_trimmedLists
    (contents : List (List NodeId)) :
    (trimmedLists contents).Consists RunsAhead := by
  induction contents with
  | nil =>
      simp [trimmedLists]
  | cons content others inductionHypothesis =>
      simp [trimmedLists, inductionHypothesis]

@[simp] theorem consists_inlineAlternatives :
    inlineAlternatives.Consists RunsAhead := by
  simp [inlineAlternatives]

@[simp] theorem consists_dashedAlternative :
    dashedAlternative.Consists RunsAhead := by
  refine .bind (by simp) fun _ => .bind (by simp) fun isArrow => ?_
  refine Rule.consists_ite.mpr ⟨fun _ => trivial, fun _ => ?_⟩
  refine .bind (by simp) fun _ => .bind (by simp) fun _ => .bind (by simp) ?_
  rintro (_ | content) <;> simp

@[simp] theorem consists_dashedAlternatives :
    dashedAlternatives.Consists RunsAhead := by
  simp [dashedAlternatives, Rule.Consists.oneOrMore]

@[simp] theorem consists_alternatives :
    alternatives.Consists RunsAhead := by
  refine .bind (by simp) ?_
  rintro (_ | found) <;> simp

@[simp] theorem consists_unannotatedSequence :
    unannotatedSequence.Consists RunsAhead := by
  simp [unannotatedSequence]

end Prose

section Braces

@[simp] theorem consists_branchOf
    (id : NodeId) :
    (branchOf id).Consists RunsAhead := by
  refine .bind (by simp) fun kind => ?_
  cases kind <;> simp

@[simp] theorem consists_condition :
    condition.Consists RunsAhead := by
  simp [condition]

@[simp] theorem consists_elseMark :
    elseMark.Consists RunsAhead := by
  simp [elseMark]

@[simp] theorem consists_inlineBranches :
    inlineBranches.Consists RunsAhead := by
  refine .bind (by simp) fun found => ?_
  split <;> simp

@[simp] theorem consists_ownCondition
    (isElse : Bool) :
    (ownCondition isElse).Consists RunsAhead := by
  simp [ownCondition]

@[simp] theorem consists_branchContent
    (own : Option NodeId) :
    (branchContent own).Consists RunsAhead := by
  refine .bind (by simp) ?_
  rintro (_ | content) <;> simp

@[simp] theorem consists_dashedBranch :
    dashedBranch.Consists RunsAhead := by
  simp [dashedBranch]

@[simp] theorem consists_dashedBranches :
    dashedBranches.Consists RunsAhead := by
  simp [dashedBranches, Rule.Consists.oneOrMore]

@[simp] theorem consists_requireElse
    (second : NodeId) :
    (requireElse second).Consists RunsAhead := by
  simp [requireElse]

@[simp] theorem consists_undashedBranches :
    undashedBranches.Consists RunsAhead := by
  refine .bind (by simp) fun _ => .bind (by simp) fun _ => .bind (by simp) ?_
  rintro (_ | second) <;> simp

@[simp] theorem consists_onlyElse
    (branches : List NodeId) :
    (onlyElse branches).Consists RunsAhead := by
  unfold onlyElse
  split <;> simp

@[simp] theorem consists_blockBranches
    (subject : Option NodeId) :
    (blockBranches subject).Consists RunsAhead := by
  refine .bind (by simp) ?_
  rintro (_ | branches) <;> simp

@[simp] theorem consists_settleComparedBranch
    (count earlier : Nat)
    (earlierConditions isLast : Bool)
    (id : NodeId)
    (arm : Branch) :
    (settleComparedBranch count earlier earlierConditions isLast id
      arm).Consists RunsAhead := by
  simp [settleComparedBranch]

@[simp] theorem consists_settleCompared
    (count earlier : Nat)
    (earlierConditions : Bool)
    (ids : List NodeId) :
    (settleCompared count earlier earlierConditions ids).Consists
      RunsAhead := by
  induction ids generalizing earlier earlierConditions with
  | nil =>
      simp [settleCompared]
  | cons id rest inductionHypothesis =>
      simp [settleCompared, inductionHypothesis]

@[simp] theorem consists_settleConditionBranch
    (last : NodeId)
    (isLast : Bool)
    (id : NodeId)
    (arm : Branch) :
    (settleConditionBranch last isLast id arm).Consists RunsAhead := by
  simp [settleConditionBranch]

@[simp] theorem consists_settleConditions
    (last : NodeId)
    (ids : List NodeId) :
    (settleConditions last ids).Consists RunsAhead := by
  induction ids with
  | nil =>
      simp [settleConditions]
  | cons id rest inductionHypothesis =>
      simp [settleConditions, inductionHypothesis]

@[simp] theorem consists_settleBranches
    (subject : Option NodeId)
    (branches : List NodeId) :
    (settleBranches subject branches).Consists RunsAhead := by
  unfold settleBranches
  split <;> simp

@[simp] theorem consists_amendAll
    (amendment : Amendment)
    (ids : List NodeId) :
    (amendAll amendment ids).Consists RunsAhead := by
  induction ids with
  | nil =>
      simp [amendAll]
  | cons id others inductionHypothesis =>
      simp [amendAll, inductionHypothesis]

@[simp] theorem consists_settledBranches
    (subject : Option NodeId) :
    (settledBranches subject).Consists RunsAhead := by
  simp [settledBranches]

@[simp] theorem consists_branches
    (subject : Option NodeId) :
    (branches subject).Consists RunsAhead := by
  simp [branches]

@[simp] theorem consists_conditional :
    conditional.Consists RunsAhead := by
  simp [conditional]

@[simp] theorem consists_annotatedSequence
    (type : SequenceType) :
    (annotatedSequence type).Consists RunsAhead := by
  simp [annotatedSequence, Rule.Consists.expect]

@[simp] theorem consists_conditionalOn
    (subject : NodeId) :
    (conditionalOn subject).Consists RunsAhead := by
  simp [conditionalOn, Rule.Consists.expect]

theorem consists_upToBrace
    {rule : GrammarRule NodeId}
    (consists : rule.Consists RunsAhead) :
    (upToBrace rule).Consists RunsAhead := by
  have brace :
      (Rule.peek (spaced (Rule.literal "\x7d")) : GrammarRule Bool).Consists
        RunsAhead :=
    Rule.Consists.peek (by simp) ⟨.closingBrace, rfl⟩
  simp [upToBrace, Rule.ahead, consists, brace]

@[simp] theorem consists_braceContent :
    braceContent.Consists RunsAhead := by
  refine .bind (by simp) fun _ => .bind (by simp) ?_
  rintro (_ | type)
  · refine .bind (by simp) ?_
    rintro (_ | subject)
    · exact Rule.consists_firstOf (by simp [consists_upToBrace])
    · simp
  · simp

@[simp] theorem consists_asContentList
    (id : NodeId) :
    (asContentList id).Consists RunsAhead := by
  refine .bind (by simp) fun kind => ?_
  cases kind <;> simp

@[simp] theorem consists_appendTo
    (list : NodeId)
    (ids : List NodeId) :
    (appendTo list ids).Consists RunsAhead := by
  induction ids with
  | nil =>
      simp [appendTo]
  | cons id others inductionHypothesis =>
      simp [appendTo, inductionHypothesis]

@[simp] theorem consists_braces :
    braces.Consists RunsAhead := by
  refine .bind (by simp) fun _ => .bind (by simp) fun _ => .bind (by simp) fun _ =>
    .bind (by simp) fun _ => .bind (by simp) ?_
  rintro (_ | logic) <;> simp

theorem consists_mixedProse :
    mixedProse.Consists RunsAhead :=
  consists_proseOf consists_braces

end Braces

end InkSyntax.Grammar
