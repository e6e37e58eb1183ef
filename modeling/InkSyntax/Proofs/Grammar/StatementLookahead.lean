import InkSyntax.Proofs.Grammar.Lookahead

namespace InkSyntax.Grammar

/-!
# What statements consist of

The statements of a script, from choices to whole flows, look for the end of
their block and for the next knot, and for what the rules inside them look for.
A script and every construct in it therefore look ahead for the six things only,
and report problems by telling them.
-/

section Choices

@[simp] theorem consists_bullets
    (bullet : String) :
    (bullets bullet).Consists RunsAhead := by
  have found :=
    consists_alternate
      (Rule.Consists.optionallyDropped consists_blanks)
      (Rule.Consists.single (Rule.consists_literal bullet))
  simp [bullets, found]

@[simp] theorem consists_choiceMark :
    choiceMark.Consists RunsAhead := by
  refine .bind (by simp) ?_
  rintro (_ | depth) <;> simp

@[simp] theorem consists_guardCondition :
    guardCondition.Consists RunsAhead := by
  simp [guardCondition, Rule.Consists.expect]

@[simp] theorem consists_guardSpace :
    guardSpace.Consists RunsAhead := by
  simp [guardSpace]

@[simp] theorem consists_choiceGuard :
    choiceGuard.Consists RunsAhead := by
  have found :=
    consists_alternate
      (Rule.Consists.single consists_guardCondition)
      (Rule.Consists.dropped consists_guardSpace)
  refine .bind found fun conditions => ?_
  split <;> simp

@[simp] theorem consists_closeTagIn
    (content : Option (List NodeId)) :
    (closeTagIn content).Consists RunsAhead := by
  cases content <;> simp [closeTagIn]

@[simp] theorem consists_choiceText :
    choiceText.Consists RunsAhead := by
  simp [choiceText]

@[simp] theorem consists_closeLastTag
    (parts : ChoiceText) :
    (closeLastTag parts).Consists RunsAhead := by
  unfold closeLastTag
  split <;> simp

@[simp] theorem consists_isEmptyDivert
    (id : NodeId) :
    (isEmptyDivert id).Consists RunsAhead := by
  refine .bind (by simp) fun kind => ?_
  cases kind <;> simp

@[simp] theorem consists_leadingDiverts
    (ids : List NodeId) :
    (leadingDiverts ids).Consists RunsAhead := by
  induction ids with
  | nil =>
      simp [leadingDiverts]
  | cons id others inductionHypothesis =>
      simp [leadingDiverts, inductionHypothesis]

@[simp] theorem consists_contentListOf
    (content : Option (List NodeId)) :
    (contentListOf content).Consists RunsAhead := by
  cases content <;> simp [contentListOf]

@[simp] theorem consists_warnIfBlank
    (parts : ChoiceText)
    (hasDiverts : Bool) :
    (warnIfBlank parts hasDiverts).Consists RunsAhead := by
  simp only [warnIfBlank, Rule.consists_ite]
  exact
    ⟨fun _ => Rule.consists_warning _,
      fun _ => ⟨fun _ => Rule.consists_warning _, fun _ => trivial⟩⟩

@[simp] theorem consists_choiceHead :
    choiceHead.Consists RunsAhead := by
  simp [choiceHead]

@[simp] theorem consists_choiceParts :
    choiceParts.Consists RunsAhead := by
  simp [choiceParts]

@[simp] theorem consists_choiceOf
    (head : ChoiceHead)
    (parts : ChoiceText)
    (ending : Option (List NodeId)) :
    (choiceOf head parts ending).Consists RunsAhead := by
  simp [choiceOf]

@[simp] theorem consists_choice :
    choice.Consists RunsAhead := by
  simp [choice]

@[simp] theorem consists_gather :
    gather.Consists RunsAhead := by
  simp [gather]

end Choices

section Declarations

@[simp] theorem consists_declarationWord
    (word : String) :
    (declarationWord word).Consists RunsAhead := by
  simp [declarationWord]

@[simp] theorem consists_initialValue
    (name : NodeId) :
    (initialValue name).Consists RunsAhead := by
  simp [initialValue, Rule.Consists.expect]

@[simp] theorem consists_refuseLogicIn
    (value : NodeId) :
    (refuseLogicIn value).Consists RunsAhead := by
  refine .bind (by simp) fun kind => ?_
  cases kind <;> simp

@[simp] theorem consists_variableDeclaration :
    variableDeclaration.Consists RunsAhead := by
  simp [-String.reduceAppend, variableDeclaration, Rule.Consists.expect]

@[simp] theorem consists_constantDeclaration :
    constantDeclaration.Consists RunsAhead := by
  simp [constantDeclaration, Rule.Consists.expect]

@[simp] theorem consists_elementValue :
    elementValue.Consists RunsAhead := by
  refine .bind (by simp) fun _ => .bind (by simp) ?_
  rintro (_ | number)
  · trivial
  · refine .bind (consists_kindOf number) fun kind => ?_
    split <;> simp

@[simp] theorem consists_closesEarly
    (selected : Bool) :
    (closesEarly selected).Consists RunsAhead := by
  simp [closesEarly]

@[simp] theorem consists_closesLate
    (isOpen : Bool) :
    (closesLate isOpen).Consists RunsAhead := by
  simp [closesLate]

@[simp] theorem consists_listElement :
    listElement.Consists RunsAhead := by
  simp [listElement]

@[simp] theorem consists_elementSeparator :
    elementSeparator.Consists RunsAhead := by
  simp [elementSeparator]

@[simp] theorem consists_listDefinition :
    listDefinition.Consists RunsAhead := by
  simp [listDefinition, Rule.Consists.separated]

@[simp] theorem consists_listDeclaration :
    listDeclaration.Consists RunsAhead := by
  simp [listDeclaration, Rule.Consists.expect]

@[simp] theorem consists_externalName :
    externalName.Consists RunsAhead := by
  refine .bind (by simp) ?_
  rintro (_ | name) <;> simp

@[simp] theorem consists_externalDeclaration :
    externalDeclaration.Consists RunsAhead := by
  simp [externalDeclaration, Rule.Consists.expect]

@[simp] theorem consists_reminder :
    reminder.Consists RunsAhead := by
  simp [reminder]

@[simp] theorem consists_includedStory
    (file : String) :
    (includedStory file).Consists RunsAhead := by
  refine .bind (by simp) fun found => ?_
  cases found <;> simp

@[simp] theorem consists_inclusion :
    inclusion.Consists RunsAhead := by
  refine .bind (by simp) fun _ => .bind (by simp) fun _ => .bind (by simp) fun _ =>
    .bind (by simp) ?_
  rintro (_ | written) <;> simp

end Declarations

section Logic

@[simp] theorem consists_returnStatement :
    returnStatement.Consists RunsAhead := by
  simp [returnStatement]

@[simp] theorem consists_temporaryWord :
    temporaryWord.Consists RunsAhead := by
  simp [temporaryWord]

@[simp] theorem consists_assignedName
    (isTemporary : Bool) :
    (assignedName isTemporary).Consists RunsAhead := by
  simp [assignedName, Rule.Consists.expect]

@[simp] theorem consists_assignedValue
    (name : NodeId)
    (isTemporary isIncrement isDecrement : Bool) :
    (assignedValue name isTemporary isIncrement isDecrement).Consists
      RunsAhead := by
  simp [assignedValue, Rule.Consists.expect]

@[simp] theorem consists_assignment :
    assignment.Consists RunsAhead := by
  simp [assignment]

@[simp] theorem consists_containsCall
    (id : NodeId) :
    (containsCall id).Consists RunsAhead := by
  simp [containsCall]

@[simp] theorem consists_refuseIdle
    (id : NodeId) :
    (refuseIdle id).Consists RunsAhead := by
  refine .bind (by simp) fun kind => ?_
  split
  · trivial
  · trivial
  · simp [-String.reduceAppend]
  · simp

@[simp] theorem consists_withPrintedLine
    (id : NodeId) :
    (withPrintedLine id).Consists RunsAhead := by
  simp [withPrintedLine]

@[simp] theorem consists_logicLine :
    logicLine.Consists RunsAhead := by
  refine .bind (by simp) fun _ => .bind (by simp) fun _ => .bind (by simp) fun _ =>
    .bind (by simp) ?_
  rintro (_ | id) <;> simp

end Logic

section Flows

@[simp] theorem consists_knotMark :
    knotMark.Consists RunsAhead := by
  simp [knotMark]

@[simp] theorem consists_optionalParameters :
    optionalParameters.Consists RunsAhead := by
  simp [optionalParameters]

@[simp] theorem consists_functionName :
    functionName.Consists RunsAhead := by
  simp [functionName, Rule.Consists.expect]

@[simp] theorem consists_knotName :
    knotName.Consists RunsAhead := by
  refine .bind (by simp) ?_
  rintro (_ | id) <;> simp

@[simp] theorem consists_requiredName
    (isFunction : Bool)
    (found : Option NodeId) :
    (requiredName isFunction found).Consists RunsAhead := by
  cases found <;> simp [requiredName]

@[simp] theorem consists_knotHeader :
    knotHeader.Consists RunsAhead := by
  simp [knotHeader]

@[simp] theorem consists_stitchKeyword :
    stitchKeyword.Consists RunsAhead := by
  simp [stitchKeyword]

@[simp] theorem consists_stitchHeader :
    stitchHeader.Consists RunsAhead := by
  simp [stitchHeader]

@[simp] theorem consists_missingContent :
    missingContent.Consists RunsAhead := by
  simp [missingContent,
    Rule.consists_textUntil ⟨.knotHeader, rfl⟩ consists_knotHeader]

@[simp] theorem consists_flow
    (level : FlowLevel)
    (header : FlowHeader)
    (content : List NodeId) :
    (flow level header content).Consists RunsAhead := by
  simp [flow]

@[simp] theorem consists_knot :
    knot.Consists RunsAhead := by
  simp [knot, Rule.Consists.expectOr]

@[simp] theorem consists_stitch :
    stitch.Consists RunsAhead := by
  simp [stitch, Rule.Consists.expectOr]

end Flows

section Statements

theorem consists_statementRules
    (place : Place) :
    ∀ rule ∈ statementRules place, rule.Consists RunsAhead := by
  cases place <;>
    simp [statementRules, onlyIf, allowsKnots, allowsStitches, allowsGathers,
      single]

@[simp] theorem consists_isReturn
    (id : NodeId) :
    (isReturn id).Consists RunsAhead := by
  refine .bind (by simp) fun kind => ?_
  cases kind <;> simp

@[simp] theorem consists_statement
    (place : Place) :
    (statement place).Consists RunsAhead := by
  simp [statement, consists_anyNode,
    Rule.consists_oneOf (consists_statementRules place)]

theorem consists_breakRules
    (place : Place) :
    ∀ rule ∈ breakRules place, rule.Consists RunsAhead := by
  cases place <;> simp [breakRules, onlyIf, ignored]

@[simp] theorem consists_statementsEnd
    (place : Place) :
    (statementsEnd place).Consists RunsAhead := by
  simp [statementsEnd, Rule.consists_oneOf (consists_breakRules place)]

@[simp] theorem consists_statementRun
    (place : Place) :
    (statementRun place).Consists RunsAhead := by
  have alternates :
      (Rule.alternateUntil (Rule.optionallyDropped blankLines)
          (do return .many (← statement place))
          (statementsEnd place)).Consists RunsAhead :=
    Rule.consists_alternateUntil (by simp) (by simp)
      ⟨.statementsEnd place, rfl⟩ (consists_statementsEnd place)
  simp [-String.reduceAppend, statementRun, alternates]

/-- The grammar consists of rules that only tell and look ahead for six things. -/
theorem consists_rule
    {α : Type}
    (construct : Construct α) :
    (rule construct).Consists RunsAhead := by
  cases construct with
  | expression weakerThan =>
      exact consists_expressionAbove weakerThan
  | operand =>
      exact consists_operand
  | prose =>
      exact consists_mixedProse
  | statements place =>
      exact consists_statementRun place

@[simp] theorem consists_skipUnexpected :
    skipUnexpected.Consists RunsAhead := by
  simp [skipUnexpected]

@[simp] theorem consists_scriptContent :
    scriptContent.Consists RunsAhead := by
  simp [scriptContent]

theorem consists_script :
    script.Consists RunsAhead := by
  simp [script]

/-- Every construct looks ahead for the six things only. -/
theorem looks_rule
    {α : Type}
    (construct : Construct α) :
    (rule construct).LooksFor RunsAhead :=
  (consists_rule construct).looksFor

/-- A script looks ahead for the six things only. -/
theorem looks_script :
    script.LooksFor RunsAhead :=
  consists_script.looksFor

end Statements

end InkSyntax.Grammar
