import InkSyntax.Proofs.Grammar.StatementTrees
import InkSyntax.Proofs.Machine.Performing

namespace InkSyntax

/-!
# Plain rules

Only few rules have to do with weaves: one makes gathers, and knots, stitches and
scripts arrange content.  And only choices mark that their content is being read.
All others are plain, and so is reading the constructs that they contain.
-/

/-- Weaves and gathers are not plain. -/
@[simp, grind =] def NodeKind.isPlain {σ : Type} : NodeKind σ → Bool
  | .weave .. => false
  | .gather .. => false
  | _ => true

/-- Gathers and knots have no place in the construct. -/
@[simp] def Construct.IsPlain : {α : Type} → Construct α → Prop
  | _, .statements place => place = .block
  | _, _ => True

/-- The operation makes no weave and no gather, as far as the rule sees. -/
@[simp] def Craft.SparesWeaves : {α : Type} → Craft α → Prop
  | _, .make kind => kind.isPlain = true
  | _, .makeSpanning kind => kind.isPlain = true
  | _, .weave _ => False
  | _, .read construct => construct.IsPlain
  | _, _ => True

/-- The operation marks no choice. -/
@[simp] def Craft.SparesMark : {α : Type} → Craft α → Prop
  | _, .setInChoice _ => False
  | _, _ => True

/-- The operation has nothing to do with weaves, nor with the mark of choices. -/
@[simp] def Craft.IsPlain : {α : Type} → Craft α → Prop
  | _, .setInChoice _ => False
  | _, operation => operation.SparesWeaves

/-- A rule that makes no weave and no gather. -/
abbrev Rule.SparesWeaves {α : Type} (rule : GrammarRule α) : Prop :=
  rule.Performs @Craft.SparesWeaves

/-- A rule that has nothing to do with weaves, nor with the mark of choices. -/
abbrev Rule.Plain {α : Type} (rule : GrammarRule α) : Prop :=
  rule.Performs @Craft.IsPlain

theorem Craft.IsPlain.sparesWeaves
    {α : Type}
    {operation : Craft α}
    (isPlain : operation.IsPlain) :
    operation.SparesWeaves := by
  cases operation <;> first | exact isPlain | trivial

theorem Craft.IsPlain.sparesMark
    {α : Type}
    {operation : Craft α}
    (isPlain : operation.IsPlain) :
    operation.SparesMark := by
  cases operation <;> trivial

/-- A plain rule makes no weave and no gather. -/
@[simp low, grind ←] theorem Rule.Plain.sparesWeaves
    {α : Type}
    {rule : GrammarRule α}
    (plain : rule.Plain) :
    rule.SparesWeaves :=
  Performs.mono (fun isPlain => isPlain.sparesWeaves) plain

/-- All operations of a rule that asks ask. -/
theorem Rule.Asks.performs
    {α : Type}
    {rule : GrammarRule α}
    {known : List NodeId}
    (asks : rule.Asks known) :
    rule.Performs fun _ operation => operation.Asks known := by
  induction rule with
  | bind first next firstHypothesis nextHypothesis =>
      exact
        ⟨firstHypothesis asks.1, fun value =>
          nextHypothesis value (asks.2 value)⟩
  | attempt rule inductionHypothesis =>
      exact inductionHypothesis asks
  | scope fate rule inductionHypothesis =>
      exact inductionHypothesis asks.1
  | loop state round inductionHypothesis =>
      exact fun state => inductionHypothesis state (asks state)
  | effect operation =>
      exact asks
  | _ =>
      trivial

/-- A rule that asks is plain. -/
theorem Rule.Asks.plain
    {α : Type}
    {rule : GrammarRule α}
    {known : List NodeId}
    (asks : rule.Asks known) :
    rule.Plain := by
  refine Performs.mono (fun {γ operation} asksThis => ?_) asks.performs
  cases operation <;> trivial

/-- What a rule may ask without nodes at hand, it may ask as a plain rule. -/
@[simp low, grind ←] theorem Rule.plain_of_asks
    {α : Type}
    {rule : GrammarRule α}
    (asks : rule.Asks []) :
    rule.Plain :=
  asks.plain

namespace Grammar

attribute [local grind .] asks_blanks asks_skipBlanks asks_optionalLiteral asks_lineEnd asks_textEnd
  asks_endOfLine asks_blankLines asks_skipBlankSpace asks_restOfLine asks_skipLine
  asks_name asks_keyword asks_dash asks_dashes asks_parameterOf asks_parameter
  asks_parameters asks_arrow asks_infixOperator asks_notWord asks_sign asks_textStop
  asks_plainText asks_endsInDivert asks_beginsWithTag asks_temporaryWord
  asks_elseMark asks_symbolAnnotation asks_sequenceWord
  asks_wordAnnotation asks_sequenceAnnotation asks_bullets asks_choiceMark
  asks_guardSpace asks_warnIfBlank asks_declarationWord asks_closesEarly
  asks_closesLate asks_elementSeparator asks_knotMark asks_optionalParameters
  asks_stitchKeyword

section Operations

@[simp, grind =] theorem plain_make
    {kind : StoryKind} :
    (make kind).Plain ↔ kind.isPlain = true :=
  Iff.rfl

@[simp, grind .] theorem plain_makeText
    (text : String) :
    (makeText text).Plain :=
  rfl

@[simp, grind .] theorem plain_kindOf
    (id : NodeId) :
    (kindOf id).Plain :=
  trivial

@[simp, grind .] theorem plain_amend
    (id : NodeId)
    (amendment : Amendment) :
    (amend id amendment).Plain :=
  trivial

@[simp, grind .] theorem plain_survey
    (id : NodeId) :
    (survey id).Plain :=
  trivial

@[simp, grind .] theorem plain_errorAt
    (id : NodeId)
    (message : String) :
    (errorAt id message).Plain :=
  (asks_errorAt (List.mem_singleton_self id) message).plain

@[simp, grind .] theorem plain_containsCall
    (id : NodeId) :
    (containsCall id).Plain :=
  (asks_containsCall (List.mem_singleton_self id)).plain

@[simp, grind .] theorem plain_expression :
    expression.Plain :=
  trivial

@[simp, grind .] theorem plain_prose :
    prose.Plain :=
  trivial

@[simp, grind .] theorem plain_statements_block :
    (statements .block).Plain :=
  rfl

@[simp, grind .] theorem plain_read_operand :
    (Rule.effect (.read .operand) : GrammarRule NodeId).Plain :=
  trivial

@[simp, grind .] theorem plain_identifierName
    (id : NodeId) :
    (identifierName id).Plain := by
  simp only [identifierName, Rule.performs_bind]
  grind

@[simp, grind ←] theorem plain_spaced
    {α : Type}
    [StandsFor α]
    {rule : GrammarRule α}
    (plain : rule.Plain) :
    (spaced rule).Plain := by
  simpa [spaced] using plain

@[simp, grind ←] theorem plain_wholeLine
    {α : Type}
    [StandsFor α]
    {rule : GrammarRule α}
    (plain : rule.Plain) :
    (wholeLine rule).Plain := by
  simpa [wholeLine] using plain

@[simp, grind ←] theorem plain_anyNode
    {test : NodeId → GrammarRule Bool}
    (plain : ∀ id, (test id).Plain)
    (ids : List NodeId) :
    (anyNode test ids).Plain := by
  induction ids with
  | nil =>
      trivial
  | cons id others inductionHypothesis =>
      simp only [anyNode, Rule.performs_bind]
      grind

end Operations

section Lexemes

@[simp, grind .] theorem plain_identifier :
    identifier.Plain := by
  simp [identifier]

@[simp, grind .] theorem plain_missingIdentifier :
    missingIdentifier.Plain := by
  simp [missingIdentifier]

@[simp, grind .] theorem plain_label :
    label.Plain := by
  simp [label]

end Lexemes

section Arguments

@[simp, grind .] theorem plain_callArguments :
    callArguments.Plain := by
  simp [callArguments]

end Arguments

section Diverts

@[simp, grind .] theorem plain_closeTag :
    closeTag.Plain := by
  simp [closeTag]

@[simp, grind .] theorem plain_targetPath :
    targetPath.Plain := by
  grind [targetPath]

@[simp, grind .] theorem plain_target :
    target.Plain := by
  simp [target]

@[simp, grind .] theorem plain_thread :
    thread.Plain := by
  simp [thread]

@[simp, grind .] theorem plain_chain
    (isFirst : Bool)
    (links : List Link) :
    (chain isFirst links).Plain := by
  induction links generalizing isFirst with
  | nil =>
      trivial
  | cons link rest inductionHypothesis =>
      rcases link with (_ | _) | divert
      · exact inductionHypothesis false
      · simp [chain]
      · simp [chain, inductionHypothesis false]

@[simp, grind .] theorem plain_diverts :
    diverts.Plain := by
  refine .bind (by simp) fun _ => .bind (by simp) ?_
  rintro (_ | divert) <;> simp

@[simp, grind .] theorem plain_isDivert
    (id : NodeId) :
    (isDivert id).Plain := by
  simp only [isDivert, Rule.performs_bind]
  grind

@[simp, grind .] theorem plain_singleDivert :
    singleDivert.Plain := by
  simp only [singleDivert, Rule.performs_bind, Rule.performs_parse]
  grind

end Diverts

section Expressions

@[simp, grind .] theorem plain_rightSide
    (left : NodeId)
    (operator : Infix) :
    (rightSide left operator).Plain := by
  simp [rightSide]

@[simp, grind .] theorem plain_extend
    (weakerThan : Nat)
    (left : NodeId) :
    (extend weakerThan left).Plain := by
  unfold extend
  grind

@[simp, grind .] theorem plain_expressionAbove
    (weakerThan : Nat) :
    (expressionAbove weakerThan).Plain := by
  simp only [expressionAbove, Rule.performs_bind, Rule.performs_parse]
  grind

@[simp, grind .] theorem plain_divertValue :
    divertValue.Plain := by
  simp only [divertValue, Rule.performs_bind, Rule.performs_parse]
  grind

@[simp, grind .] theorem plain_floatLiteral :
    floatLiteral.Plain := by
  simp [floatLiteral]

@[simp, grind .] theorem plain_intLiteral :
    intLiteral.Plain := by
  simp [intLiteral]

@[simp, grind .] theorem plain_boolLiteral :
    boolLiteral.Plain := by
  simp only [boolLiteral, Rule.performs_bind]
  grind

@[simp, grind .] theorem plain_stringLiteral :
    stringLiteral.Plain := by
  simp only [stringLiteral, Rule.performs_bind]
  grind

@[simp, grind .] theorem plain_isPlainString
    (id : NodeId) :
    (isPlainString id).Plain := by
  simp only [isPlainString, Rule.performs_bind]
  grind

@[simp, grind .] theorem plain_literalValue :
    literalValue.Plain := by
  simp [literalValue]

@[simp, grind .] theorem plain_functionCall :
    functionCall.Plain := by
  simp [functionCall]

@[simp, grind .] theorem plain_reference :
    reference.Plain := by
  simp only [reference, Rule.performs_bind]
  grind

@[simp, grind .] theorem plain_parenthesised :
    parenthesised.Plain := by
  simp [parenthesised]

@[simp, grind .] theorem plain_listMember :
    listMember.Plain := by
  simp [listMember]

@[simp, grind .] theorem plain_listLiteral :
    listLiteral.Plain := by
  simp [listLiteral]

@[simp, grind .] theorem plain_signed
    (op : UnaryOp)
    (inner : NodeId) :
    (signed op inner).Plain := by
  simp only [signed, Rule.performs_bind]
  grind

@[simp, grind .] theorem plain_identifierNames
    (ids : List NodeId) :
    (identifierNames ids).Plain :=
  (asks_identifierNames (List.Subset.refl ids)).plain

@[simp, grind .] theorem plain_joinedIdentifier
    (path : List NodeId) :
    (joinedIdentifier path).Plain := by
  unfold joinedIdentifier
  split <;> simp

@[simp, grind .] theorem plain_bareOperand
    (sign : Option UnaryOp) :
    (bareOperand sign).Plain := by
  simp only [bareOperand, Rule.performs_bind]
  grind

@[simp, grind .] theorem plain_stepAfter
    (value : NodeId) :
    (stepAfter value).Plain := by
  refine .bind (by simp) ?_
  rintro (_ | isIncrement)
  · trivial
  · refine .bind (by simp) fun kind => ?_
    split <;> simp

@[simp, grind .] theorem plain_operand :
    operand.Plain := by
  refine .bind (by simp) ?_
  rintro (_ | value)
  · refine .bind (by simp) fun sign => .bind (by simp) fun _ => ?_
    refine .bind (by simp) fun bare => ?_
    cases sign <;> simp
  · trivial

@[simp, grind .] theorem plain_refuseStep
    (id : NodeId) :
    (refuseStep id).Plain := by
  simp only [refuseStep, Rule.performs_bind]
  grind

end Expressions

section Prose

@[simp, grind .] theorem plain_text :
    text.Plain := by
  refine .bind (by simp) ?_
  rintro (_ | written) <;> simp

@[simp, grind .] theorem plain_glue :
    glue.Plain := by
  simp [glue]

@[simp, grind .] theorem plain_tagStart :
    tagStart.Plain := by
  simp [tagStart]

@[simp, grind .] theorem plain_openTag :
    openTag.Plain := by
  simp [openTag]

@[simp, grind .] theorem plain_isTextThat
    (test : String → Bool)
    (id : NodeId) :
    (isTextThat test id).Plain := by
  simp only [isTextThat, Rule.performs_bind]
  grind

@[simp, grind .] theorem plain_trimLast
    (ids : List NodeId) :
    (trimLast ids).Plain := by
  induction ids with
  | nil =>
      trivial
  | cons first rest inductionHypothesis =>
      simp only [trimLast, Rule.performs_bind]
      grind

@[simp, grind .] theorem plain_trimContentEnd
    (content : List NodeId) :
    (trimContentEnd content).Plain := by
  simp [trimContentEnd]

@[simp, grind .] theorem plain_oneBlankAtEnd
    (content : List NodeId) :
    (oneBlankAtEnd content).Plain := by
  grind [oneBlankAtEnd]

@[simp, grind .] theorem plain_trimContentStart
    (content : List NodeId) :
    (trimContentStart content).Plain := by
  unfold trimContentStart
  grind

@[simp, grind .] theorem plain_proseEnding :
    proseEnding.Plain := by
  simp [proseEnding]

@[simp, grind ←] theorem plain_proseOf
    {braces : GrammarRule NodeId}
    (plain : braces.Plain) :
    (proseOf braces).Plain := by
  have isPlain : Rule.Performs @Craft.IsPlain braces := plain
  refine .bind (by simp [isPlain]) fun items => .bind (by simp) ?_
  rintro (_ | ending)
  · cases items <;> trivial
  · simp

@[simp, grind .] theorem plain_endsInDivert
    (content : List NodeId) :
    (endsInDivert content).Plain :=
  (asks_endsInDivert (List.Subset.refl content)).plain

@[simp, grind .] theorem plain_beginsWithTag
    (content : List NodeId) :
    (beginsWithTag content).Plain :=
  (asks_beginsWithTag (List.Subset.refl content)).plain

@[simp, grind .] theorem plain_warnOfReturn
    (first : NodeId) :
    (warnOfReturn first).Plain := by
  refine .bind (plain_isTextThat _ first) fun isReturn => ?_
  split
  · exact Rule.performs_warning _
  · trivial

@[simp, grind .] theorem plain_withLineFeed
    (content : List NodeId) :
    (withLineFeed content).Plain := by
  simp [withLineFeed]

@[simp, grind .] theorem plain_proseLine :
    proseLine.Plain := by
  refine .bind (by simp) fun _ => .bind (by simp) ?_
  rintro (_ | ⟨first, rest⟩) <;> simp

end Prose

section Logic

@[simp, grind .] theorem plain_returnStatement :
    returnStatement.Plain := by
  simp [returnStatement]

@[simp, grind .] theorem plain_assignedName
    (isTemporary : Bool) :
    (assignedName isTemporary).Plain := by
  simp [assignedName]

@[simp, grind .] theorem plain_assignedValue
    (name : NodeId)
    (isTemporary isIncrement isDecrement : Bool) :
    (assignedValue name isTemporary isIncrement isDecrement).Plain := by
  simp [assignedValue]

@[simp, grind .] theorem plain_assignment :
    assignment.Plain := by
  simp [assignment]

@[simp, grind .] theorem plain_refuseIdle
    (id : NodeId) :
    (refuseIdle id).Plain := by
  refine .bind (plain_kindOf id) fun kind => ?_
  split
  · trivial
  · trivial
  · refine .bind (plain_identifierName _) fun name => ?_
    split <;> exact Rule.performs_error _
  · split
    · exact Rule.performs_error _
    · trivial

@[simp, grind .] theorem plain_withPrintedLine
    (id : NodeId) :
    (withPrintedLine id).Plain := by
  simp [withPrintedLine]

@[simp, grind .] theorem plain_logicLine :
    logicLine.Plain := by
  refine .bind (by simp) fun _ => .bind (by simp) fun _ => ?_
  refine .bind (by simp) fun _ => .bind (by simp) ?_
  rintro (_ | id) <;> simp

end Logic

section Sequences

@[simp, grind .] theorem plain_barSeparated :
    barSeparated.Plain := by
  simp [barSeparated]

@[simp, grind .] theorem plain_trimmedLists
    (lists : List (List NodeId)) :
    (trimmedLists lists).Plain := by
  induction lists with
  | nil =>
      trivial
  | cons first rest inductionHypothesis =>
      simp [trimmedLists, inductionHypothesis]

@[simp, grind .] theorem plain_inlineAlternatives :
    inlineAlternatives.Plain := by
  simp [inlineAlternatives]

@[simp, grind .] theorem plain_dashedAlternative :
    dashedAlternative.Plain := by
  simp only [dashedAlternative, Rule.performs_bind]
  grind

@[simp, grind .] theorem plain_dashedAlternatives :
    dashedAlternatives.Plain := by
  simp [dashedAlternatives]

@[simp, grind .] theorem plain_alternatives :
    alternatives.Plain := by
  simp only [alternatives, Rule.performs_bind]
  grind

@[simp, grind .] theorem plain_unannotatedSequence :
    unannotatedSequence.Plain := by
  simp [unannotatedSequence]

end Sequences

section Conditionals

@[simp, grind .] theorem plain_branchOf
    (id : NodeId) :
    (branchOf id).Plain := by
  simp only [branchOf, Rule.performs_bind]
  grind

@[simp, grind .] theorem plain_condition :
    condition.Plain := by
  simp [condition]

@[simp, grind .] theorem plain_inlineBranches :
    inlineBranches.Plain := by
  refine .bind plain_barSeparated fun found => ?_
  split <;> simp

@[simp, grind .] theorem plain_ownCondition
    (isElse : Bool) :
    (ownCondition isElse).Plain := by
  simp [ownCondition]

@[simp, grind .] theorem plain_branchContent
    (own : Option NodeId) :
    (branchContent own).Plain := by
  simp only [branchContent, Rule.performs_bind]
  grind

@[simp, grind .] theorem plain_dashedBranch :
    dashedBranch.Plain := by
  simp [dashedBranch]

@[simp, grind .] theorem plain_dashedBranches :
    dashedBranches.Plain := by
  simp [dashedBranches]

@[simp, grind .] theorem plain_requireElse
    (second : NodeId) :
    (requireElse second).Plain := by
  simp [requireElse]

@[simp, grind .] theorem plain_undashedBranches :
    undashedBranches.Plain := by
  simp only [undashedBranches, Rule.performs_bind]
  grind

@[simp, grind .] theorem plain_onlyElse
    (branches : List NodeId) :
    (onlyElse branches).Plain := by
  unfold onlyElse
  grind

@[simp, grind .] theorem plain_blockBranches
    (subject : Option NodeId) :
    (blockBranches subject).Plain := by
  simp only [blockBranches, Rule.performs_bind]
  grind

@[simp, grind .] theorem plain_settleComparedBranch
    (count earlier : Nat)
    (earlierConditions isLast : Bool)
    (id : NodeId)
    (arm : Branch) :
    (settleComparedBranch count earlier earlierConditions isLast id arm).Plain := by
  simp [settleComparedBranch]

@[simp, grind .] theorem plain_settleCompared
    (count earlier : Nat)
    (earlierConditions : Bool)
    (branches : List NodeId) :
    (settleCompared count earlier earlierConditions branches).Plain := by
  induction branches generalizing earlier earlierConditions with
  | nil =>
      trivial
  | cons first rest inductionHypothesis =>
      simp [settleCompared, inductionHypothesis]

@[simp, grind .] theorem plain_settleConditionBranch
    (last : NodeId)
    (isLast : Bool)
    (id : NodeId)
    (arm : Branch) :
    (settleConditionBranch last isLast id arm).Plain := by
  simp [settleConditionBranch]

@[simp, grind .] theorem plain_settleConditions
    (last : NodeId)
    (branches : List NodeId) :
    (settleConditions last branches).Plain := by
  induction branches with
  | nil =>
      trivial
  | cons first rest inductionHypothesis =>
      simp [settleConditions, inductionHypothesis]

@[simp, grind .] theorem plain_settleBranches
    (subject : Option NodeId)
    (branches : List NodeId) :
    (settleBranches subject branches).Plain := by
  unfold settleBranches
  grind

@[simp, grind .] theorem plain_amendAll
    (amendment : Amendment)
    (branches : List NodeId) :
    (amendAll amendment branches).Plain := by
  induction branches with
  | nil =>
      trivial
  | cons first rest inductionHypothesis =>
      simp [amendAll, inductionHypothesis]

@[simp, grind .] theorem plain_settledBranches
    (subject : Option NodeId) :
    (settledBranches subject).Plain := by
  simp [settledBranches]

@[simp, grind .] theorem plain_branches
    (subject : Option NodeId) :
    (branches subject).Plain := by
  simp [branches]

@[simp, grind .] theorem plain_conditional :
    conditional.Plain := by
  simp [conditional]

end Conditionals

section Braces

@[simp, grind .] theorem plain_annotatedSequence
    (type : SequenceType) :
    (annotatedSequence type).Plain := by
  simp [annotatedSequence]

@[simp, grind .] theorem plain_conditionalOn
    (subject : NodeId) :
    (conditionalOn subject).Plain := by
  simp [conditionalOn]

@[simp, grind ←] theorem plain_upToBrace
    {rule : GrammarRule NodeId}
    (plain : rule.Plain) :
    (upToBrace rule).Plain := by
  simpa [upToBrace] using plain

@[simp, grind .] theorem plain_braceContent :
    braceContent.Plain := by
  refine .bind (by simp) fun _ => .bind (by simp) ?_
  rintro (_ | type)
  · refine .bind (by simp) ?_
    rintro (_ | subject)
    · exact Rule.performs_firstOf (by simp)
    · exact plain_conditionalOn subject
  · exact plain_annotatedSequence type

@[simp, grind .] theorem plain_asContentList
    (id : NodeId) :
    (asContentList id).Plain := by
  simp only [asContentList, Rule.performs_bind]
  grind

@[simp, grind .] theorem plain_appendTo
    (list : NodeId)
    (ids : List NodeId) :
    (appendTo list ids).Plain := by
  induction ids with
  | nil =>
      trivial
  | cons first rest inductionHypothesis =>
      simp [appendTo, inductionHypothesis]

@[simp, grind .] theorem plain_braces :
    braces.Plain := by
  simp only [braces, Rule.performs_bind]
  refine ⟨by simp, fun _ => ⟨by simp, fun inString => ⟨by simp, fun tagOpen => ?_⟩⟩⟩
  refine ⟨by simp, fun _ => ⟨by simp, ?_⟩⟩
  rintro (_ | logic) <;> simp

@[simp, grind .] theorem plain_mixedProse :
    mixedProse.Plain :=
  plain_proseOf plain_braces

end Braces

section Choices

@[simp, grind .] theorem plain_guardCondition :
    guardCondition.Plain := by
  simp [guardCondition]

@[simp, grind .] theorem plain_choiceGuard :
    choiceGuard.Plain := by
  simp only [choiceGuard, Rule.performs_bind]
  grind

@[simp, grind .] theorem plain_closeTagIn
    (content : Option (List NodeId)) :
    (closeTagIn content).Plain := by
  unfold closeTagIn
  grind

@[simp, grind .] theorem plain_choiceText :
    choiceText.Plain := by
  simp [choiceText]

@[simp, grind .] theorem plain_closeLastTag
    (parts : ChoiceText) :
    (closeLastTag parts).Plain := by
  grind [closeLastTag]

@[simp, grind .] theorem plain_isEmptyDivert
    (id : NodeId) :
    (isEmptyDivert id).Plain := by
  simp only [isEmptyDivert, Rule.performs_bind]
  grind

@[simp, grind .] theorem plain_leadingDiverts
    (ids : List NodeId) :
    (leadingDiverts ids).Plain := by
  induction ids with
  | nil =>
      trivial
  | cons first rest inductionHypothesis =>
      simp [leadingDiverts, inductionHypothesis]

@[simp, grind .] theorem plain_contentListOf
    (content : Option (List NodeId)) :
    (contentListOf content).Plain := by
  unfold contentListOf
  grind

@[simp, grind .] theorem plain_choiceHead :
    choiceHead.Plain := by
  simp [choiceHead]

@[simp, grind .] theorem plain_choiceParts :
    choiceParts.Plain := by
  simp [choiceParts]

@[simp, grind .] theorem plain_choiceOf
    (head : ChoiceHead)
    (parts : ChoiceText)
    (ending : Option (List NodeId)) :
    (choiceOf head parts ending).Plain := by
  simp [choiceOf]

/-- A choice marks that its content is being read, so it is not plain. -/
theorem sparesWeaves_choice :
    choice.SparesWeaves := by
  simp [choice]

end Choices

section Declarations

@[simp, grind .] theorem plain_initialValue
    (name : NodeId) :
    (initialValue name).Plain := by
  simp [initialValue]

@[simp, grind .] theorem plain_refuseLogicIn
    (value : NodeId) :
    (refuseLogicIn value).Plain := by
  simp only [refuseLogicIn, Rule.performs_bind]
  grind

@[simp, grind .] theorem plain_variableDeclaration :
    variableDeclaration.Plain := by
  refine .bind (by simp) fun _ => .bind (by simp) fun name => ?_
  refine .bind (by simp) fun _ => .bind (by simp) fun _ => ?_
  refine .bind (by simp) fun _ => .bind (by simp) fun value => ?_
  refine .bind (by simp) fun kind => ?_
  extract_lets made checked
  have isPlain (value : Unit) : Rule.Performs @Craft.IsPlain (checked value) := by
    refine .bind (by simp) fun comma => ?_
    split
    · exact .bind (Rule.performs_error _) fun _ => rfl
    · exact .bind (plain_refuseLogicIn _) fun _ => rfl
  split
  · exact .bind (Rule.performs_error _) isPlain
  · exact isPlain ()

@[simp, grind .] theorem plain_constantDeclaration :
    constantDeclaration.Plain := by
  simp [constantDeclaration]

@[simp, grind .] theorem plain_elementValue :
    elementValue.Plain := by
  simp only [elementValue, Rule.performs_bind]
  grind

@[simp, grind .] theorem plain_listElement :
    listElement.Plain := by
  simp [listElement]

@[simp, grind .] theorem plain_listDefinition :
    listDefinition.Plain := by
  simp [listDefinition]

@[simp, grind .] theorem plain_listDeclaration :
    listDeclaration.Plain := by
  simp [listDeclaration]

@[simp, grind .] theorem plain_externalName :
    externalName.Plain := by
  simp only [externalName, Rule.performs_bind]
  grind

@[simp, grind .] theorem plain_externalDeclaration :
    externalDeclaration.Plain := by
  simp [externalDeclaration]

@[simp, grind .] theorem plain_reminder :
    reminder.Plain := by
  simp [reminder]

end Declarations

section Flows

@[simp, grind .] theorem plain_functionName :
    functionName.Plain := by
  simp [functionName]

@[simp, grind .] theorem plain_knotName :
    knotName.Plain := by
  simp only [knotName, Rule.performs_bind]
  grind

@[simp, grind .] theorem plain_requiredName
    (isFunction : Bool)
    (found : Option NodeId) :
    (requiredName isFunction found).Plain := by
  unfold requiredName
  grind

@[simp, grind .] theorem plain_knotHeader :
    knotHeader.Plain := by
  simp [knotHeader]

@[simp, grind .] theorem plain_stitchHeader :
    stitchHeader.Plain := by
  simp [stitchHeader]

@[simp, grind .] theorem plain_missingContent :
    missingContent.Plain := by
  simp [missingContent]

end Flows

section Inclusions

@[simp, grind .] theorem plain_includedStory
    (file : String) :
    (includedStory file).Plain := by
  refine .bind (by simp) fun inclusion => ?_
  cases inclusion <;> simp

@[simp, grind .] theorem plain_inclusion :
    inclusion.Plain := by
  simp only [inclusion, Rule.performs_bind]
  grind

end Inclusions

section Statements

variable {place : Place}

@[simp] theorem plain_single
    {rule : GrammarRule NodeId} :
    (single rule).Plain ↔ rule.Plain := by
  simp [single, Rule.Plain]

/-- All statements but knots, stitches, gathers and choices are plain. -/
theorem plain_of_mem_statementRules
    {rule : GrammarRule (List NodeId)}
    (member : rule ∈ statementRules place) :
    rule.Plain ∨
      rule = single (wholeLine choice) ∨
      allowsKnots place = true ∧ rule = single knot ∨
      allowsGathers place = true ∧ rule = single gather ∨
      allowsStitches place = true ∧ rule = single stitch := by
  simp only [statementRules, List.mem_append, List.mem_map, List.mem_cons,
    List.not_mem_nil, or_false, mem_onlyIf] at member
  rcases member with
    (((((rfl | ⟨allowed, rfl⟩) | rfl | rfl) | ⟨allowed, rfl⟩) |
      ⟨allowed, rfl⟩) | ⟨line, isLine, rfl⟩) | rfl | rfl
  · exact .inl (plain_wholeLine plain_diverts)
  · exact .inr (.inr (.inl ⟨allowed, rfl⟩))
  · exact .inr (.inl rfl)
  · exact .inl (plain_single.mpr (plain_wholeLine plain_reminder))
  · exact .inr (.inr (.inr (.inl ⟨allowed, rfl⟩)))
  · exact .inr (.inr (.inr (.inr ⟨allowed, rfl⟩)))
  · refine .inl (plain_single.mpr (plain_wholeLine ?_))
    rcases isLine with rfl | rfl | rfl | rfl | rfl
    · exact plain_listDeclaration
    · exact plain_variableDeclaration
    · exact plain_constantDeclaration
    · exact plain_externalDeclaration
    · exact plain_inclusion
  · exact .inl plain_logicLine
  · exact .inl plain_proseLine

/-- All statements but knots, stitches and gathers make no weaves and no gathers. -/
theorem sparesWeaves_of_mem_statementRules
    {rule : GrammarRule (List NodeId)}
    (member : rule ∈ statementRules place) :
    rule.SparesWeaves ∨
      allowsKnots place = true ∧ rule = single knot ∨
      allowsGathers place = true ∧ rule = single gather ∨
      allowsStitches place = true ∧ rule = single stitch := by
  rcases plain_of_mem_statementRules member with plain | rfl | arranging
  · exact .inl plain.sparesWeaves
  · refine .inl ?_
    simp [single, wholeLine, sparesWeaves_choice]
  · exact .inr arranging

theorem sparesWeaves_statement_block :
    (statement .block).SparesWeaves := by
  refine .bind (Rule.performs_oneOf fun rule member => ?_) fun nodes => ?_
  · rcases sparesWeaves_of_mem_statementRules member with
      spares | ⟨allowed, -⟩ | ⟨allowed, -⟩ | ⟨allowed, -⟩
    · exact spares
    · cases allowed
    · cases allowed
    · cases allowed
  · exact trivial

theorem plain_statementsEnd :
    (statementsEnd place).Plain := by
  refine .bind (by simp) fun _ => Rule.performs_oneOf ?_
  intro rule member
  simp only [breakRules, List.mem_append, mem_onlyIf] at member
  rcases member with (⟨-, rfl⟩ | ⟨-, rfl⟩) | inBlock
  · simp [ignored]
  · simp [ignored]
  · split at inBlock
    · simp only [List.mem_cons, List.not_mem_nil, or_false] at inBlock
      rcases inBlock with rfl | rfl <;> simp
    · cases inBlock

theorem sparesWeaves_statementRun_block :
    (statementRun .block).SparesWeaves := by
  refine .bind (by simp) fun dashed => ?_
  have run :
      (Rule.alternateUntil (Rule.optionallyDropped blankLines)
        (do return .many (← statement .block))
        (statementsEnd .block)).SparesWeaves :=
    Rule.performs_alternateUntil (by simp)
      (.bind sparesWeaves_statement_block fun _ => trivial)
      plain_statementsEnd.sparesWeaves
  split
  · exact .bind (Rule.performs_error _) fun _ => run
  · exact run

/-- The rule of a plain construct makes no weave and no gather. -/
theorem sparesWeaves_rule
    {α : Type}
    {construct : Construct α}
    (isPlain : construct.IsPlain) :
    (rule construct).SparesWeaves := by
  cases construct with
  | expression weakerThan =>
      exact (plain_expressionAbove weakerThan).sparesWeaves
  | operand =>
      exact plain_operand.sparesWeaves
  | prose =>
      exact plain_mixedProse.sparesWeaves
  | statements place =>
      cases isPlain
      exact sparesWeaves_statementRun_block

end Statements

end Grammar

end InkSyntax
