import InkSyntax.Proofs.Grammar.ConsumingRules
import InkSyntax.Proofs.Grammar.StatementTrees
import InkSyntax.Proofs.Machine.Progress

namespace InkSyntax

/-!
# Rules of the grammar advance

No repetition in the rules of constructs asks for another round without having
consumed text, whatever the text.  In most of them every round consumes some.  In
prose two neutral pieces end the repetition, and a piece that is not neutral has
consumed text.
-/

open Rule (Advances)
open Reading (acts forward_acts)

namespace Grammar

variable
    {library : Library}
    {maxDepth : Nat}
    {clean : List Char → Prop}

section Operations

@[simp] theorem advances_make
    (kind : StoryKind) :
    (make kind).Advances (acts library maxDepth) clean :=
  trivial

@[simp] theorem advances_makeText
    (text : String) :
    (makeText text).Advances (acts library maxDepth) clean :=
  trivial

@[simp] theorem advances_kindOf
    (id : NodeId) :
    (kindOf id).Advances (acts library maxDepth) clean :=
  trivial

@[simp] theorem advances_amend
    (id : NodeId)
    (amendment : Amendment) :
    (amend id amendment).Advances (acts library maxDepth) clean :=
  trivial

@[simp] theorem advances_survey
    (id : NodeId) :
    (survey id).Advances (acts library maxDepth) clean :=
  trivial

@[simp] theorem advances_spanOf
    (id : NodeId) :
    (spanOf id).Advances (acts library maxDepth) clean :=
  trivial

@[simp] theorem advances_expression :
    expression.Advances (acts library maxDepth) clean :=
  trivial

@[simp] theorem advances_prose :
    prose.Advances (acts library maxDepth) clean :=
  trivial

@[simp] theorem advances_statements
    (place : Place) :
    (statements place).Advances (acts library maxDepth) clean :=
  trivial

@[simp] theorem advances_errorAt
    (id : NodeId)
    (message : String) :
    (errorAt id message).Advances (acts library maxDepth) clean := by
  refine .bind (advances_spanOf id) fun span => ?_
  cases span <;> simp

@[simp] theorem advances_identifierName
    (id : NodeId) :
    (identifierName id).Advances (acts library maxDepth) clean := by
  refine .bind (advances_kindOf id) fun kind => ?_
  split <;> trivial

@[simp] theorem advances_anyNode
    {test : NodeId → GrammarRule Bool}
    (advances : ∀ id, (test id).Advances (acts library maxDepth) clean)
    (ids : List NodeId) :
    (anyNode test ids).Advances (acts library maxDepth) clean := by
  induction ids with
  | nil =>
      trivial
  | cons id others inductionHypothesis =>
      simp [anyNode, advances, inductionHypothesis]

end Operations

section Lexemes

@[simp] theorem advances_blanks :
    blanks.Advances (acts library maxDepth) clean := by
  simp [blanks]

@[simp] theorem advances_skipBlanks :
    skipBlanks.Advances (acts library maxDepth) clean := by
  simp [skipBlanks]

@[simp] theorem advances_optionalLiteral
    (expected : String) :
    (optionalLiteral expected).Advances (acts library maxDepth) clean := by
  simp [optionalLiteral]

@[simp] theorem advances_spaced
    {α : Type}
    [StandsFor α]
    {rule : GrammarRule α} :
    (spaced rule).Advances (acts library maxDepth) clean ↔
      rule.Advances (acts library maxDepth) clean := by
  simp [spaced]

@[simp] theorem advances_lineEnd :
    lineEnd.Advances (acts library maxDepth) clean := by
  simp [lineEnd]

@[simp] theorem advances_textEnd :
    textEnd.Advances (acts library maxDepth) clean := by
  simp [textEnd]

@[simp] theorem advances_endOfLine :
    endOfLine.Advances (acts library maxDepth) clean := by
  simp [endOfLine]

@[simp] theorem advances_blankLines :
    blankLines.Advances (acts library maxDepth) clean :=
  .bind
    (Rule.advances_oneOrMore (forward_acts _ _) advances_lineEnd
      consumes_lineEnd)
    fun _ => trivial

@[simp] theorem advances_skipBlankSpace :
    skipBlankSpace.Advances (acts library maxDepth) clean := by
  refine .bind (Rule.advances_loop (fun _ => ?_) fun _ => ?_) fun _ => trivial
  · refine .bind (by simp) ?_
    rintro (_ | found) <;> trivial
  · have spaces :
        (Rule.oneOf [blanks, blankLines]).Consumes (acts library maxDepth) := by
      refine Rule.consumes_oneOf (forward_acts _ _) ?_
      simp [consumes_blanks, consumes_blankLines]
    refine
      Rule.consumesIf_bind (forward_acts _ _) _ (Rule.ConsumesIf.attempt spaces)
        ?_
    rintro (_ | found) isNone
    · exact Rule.consumesIf_pure Bool.false_ne_true
    · exact absurd ⟨found, rfl, trivial⟩ isNone

@[simp] theorem advances_restOfLine :
    restOfLine.Advances (acts library maxDepth) clean := by
  simp [restOfLine]

@[simp] theorem advances_skipLine :
    skipLine.Advances (acts library maxDepth) clean := by
  simp [skipLine]

@[simp] theorem advances_wholeLine
    {α : Type}
    [StandsFor α]
    {rule : GrammarRule α} :
    (wholeLine rule).Advances (acts library maxDepth) clean ↔
      rule.Advances (acts library maxDepth) clean := by
  simp [wholeLine]

@[simp] theorem advances_name :
    name.Advances (acts library maxDepth) clean := by
  simp [name]

@[simp] theorem advances_identifier :
    identifier.Advances (acts library maxDepth) clean := by
  simp [identifier]

@[simp] theorem advances_missingIdentifier :
    missingIdentifier.Advances (acts library maxDepth) clean :=
  trivial

@[simp] theorem advances_keyword
    (word : String) :
    (keyword word).Advances (acts library maxDepth) clean := by
  simp [keyword]

@[simp] theorem advances_label :
    label.Advances (acts library maxDepth) clean := by
  simp [label]

@[simp] theorem advances_dash :
    dash.Advances (acts library maxDepth) clean := by
  simp [dash]

@[simp] theorem advances_dashes :
    dashes.Advances (acts library maxDepth) clean := by
  refine .bind advances_skipBlanks fun _ => .bind ?_ (by simp)
  refine Rule.advances_loop (fun count => ?_) fun count => ?_
  · refine .bind (by simp) ?_
    rintro (_ | found) <;> simp
  · refine
      Rule.consumesIf_bind (forward_acts _ _) _
        (Rule.ConsumesIf.attempt consumes_dash) ?_
    rintro (_ | found) isNone
    · exact Rule.consumesIf_pure Bool.false_ne_true
    · exact absurd ⟨found, rfl, trivial⟩ isNone

end Lexemes

section Arguments

@[simp] theorem advances_callArguments :
    callArguments.Advances (acts library maxDepth) clean := by
  have arguments :
      (Rule.alternate (Rule.single expression)
          (Rule.dropped (Rule.literal ","))).Advances (acts library maxDepth)
        clean :=
    Rule.advances_alternate_of_inner (forward_acts _ _) (by simp) (by simp)
      (consumes_dropped (Rule.consumes_literal (by decide)))
  simp [callArguments, arguments]

@[simp] theorem advances_parameterOf
    (first : Option String)
    (isDivertTarget : Bool)
    (second : Option String) :
    (parameterOf first isDivertTarget second).Advances
      (acts library maxDepth) clean := by
  simp [parameterOf]

@[simp] theorem advances_parameter :
    parameter.Advances (acts library maxDepth) clean := by
  simp [parameter]

@[simp] theorem advances_parameters :
    parameters.Advances (acts library maxDepth) clean := by
  have found :
      (Rule.alternate (Rule.single (spaced parameter))
          (Rule.dropped (Rule.literal ","))).Advances (acts library maxDepth)
        clean :=
    Rule.advances_alternate_of_inner (forward_acts _ _) (by simp) (by simp)
      (consumes_dropped (Rule.consumes_literal (by decide)))
  simp [parameters, found]

end Arguments

section Diverts

@[simp] theorem advances_closeTag :
    closeTag.Advances (acts library maxDepth) clean := by
  simp [closeTag]

@[simp] theorem advances_arrow :
    arrow.Advances (acts library maxDepth) clean := by
  refine .bind (Rule.advances_loop (fun count => ?_) fun count => ?_) ?_
  · simp
  · refine
      Rule.consumesIf_bind (forward_acts _ _) _
        (consumesIf_optionalLiteral (by decide)) ?_
    intro found notFound
    rw [if_neg notFound]
    exact Rule.consumesIf_pure Bool.false_ne_true
  · intro count
    split <;> simp

@[simp] theorem advances_targetPath :
    targetPath.Advances (acts library maxDepth) clean :=
  Rule.advances_alternate_of_inner (forward_acts _ _) (by simp) (by simp)
    (consumes_dropped (Rule.consumes_literal (by decide)))

@[simp] theorem advances_target :
    target.Advances (acts library maxDepth) clean := by
  simp [target]

@[simp] theorem advances_thread :
    thread.Advances (acts library maxDepth) clean := by
  simp [thread]

@[simp] theorem advances_chain
    (isFirst : Bool)
    (links : List Link) :
    (chain isFirst links).Advances (acts library maxDepth) clean := by
  induction links generalizing isFirst with
  | nil =>
      trivial
  | cons link rest inductionHypothesis =>
      rcases link with (_ | _) | divert
      · exact inductionHypothesis false
      · simp [chain]
      · simp [chain, inductionHypothesis false]

@[simp] theorem advances_diverts :
    diverts.Advances (acts library maxDepth) clean := by
  refine .bind (by simp) fun _ => .bind (by simp) ?_
  rintro (_ | divert)
  · refine .bind ?_ (by simp)
    exact
      Rule.advances_alternate_of_inner (forward_acts _ _) (by simp) (by simp)
        (Rule.Consumes.bind (forward_acts _ _) consumes_target.parse _)
  · trivial

@[simp] theorem advances_isDivert
    (id : NodeId) :
    (isDivert id).Advances (acts library maxDepth) clean := by
  refine .bind (advances_kindOf _) fun kind => ?_
  split <;> simp

@[simp] theorem advances_singleDivert :
    singleDivert.Advances (acts library maxDepth) clean := by
  refine .bind (by simp) fun nodes => ?_
  split
  · refine .bind (advances_kindOf _) fun kind => ?_
    split <;> simp
  · simp

end Diverts

section Expressions

@[simp] theorem advances_infixOperator :
    infixOperator.Advances (acts library maxDepth) clean := by
  refine .bind (by simp) fun isArrow => .bind (by simp) fun _ => ?_
  refine Rule.advances_firstOf fun rule member => ?_
  obtain ⟨candidate, -, rfl⟩ := List.mem_map.mp member
  simp

@[simp] theorem advances_rightSide
    (left : NodeId)
    (operator : Infix) :
    (rightSide left operator).Advances (acts library maxDepth) clean := by
  simp [rightSide]

@[simp] theorem advances_extend
    (weakerThan : Nat)
    (left : NodeId) :
    (extend weakerThan left).Advances (acts library maxDepth) clean := by
  refine .bind (by simp) ?_
  rintro (_ | operator)
  · trivial
  · rw [Rule.advances_ite]
    refine ⟨fun _ => .bind (by simp) ?_, by simp⟩
    rintro (_ | binary) <;> trivial

@[simp] theorem advances_expressionAbove
    (weakerThan : Nat) :
    (expressionAbove weakerThan).Advances (acts library maxDepth) clean := by
  refine .bind (by simp) fun _ => .bind (by simp) fun first => ?_
  refine .bind (by simp) fun _ => .bind ?_ (by simp)
  refine Rule.advances_loop (fun left => ?_) fun left => ?_
  · refine .bind (by simp) ?_
    rintro (binary | _ | _) <;> trivial
  · refine
      Rule.consumesIf_bind (forward_acts _ _) _
        (consumesIf_extend weakerThan left) ?_
    rintro (binary | _ | _) notGrown
    · exact absurd ⟨binary, rfl⟩ notGrown
    · exact Rule.consumesIf_fail
    · exact Rule.consumesIf_pure Bool.false_ne_true

@[simp] theorem advances_notWord :
    notWord.Advances (acts library maxDepth) clean := by
  simp [notWord]

@[simp] theorem advances_divertValue :
    divertValue.Advances (acts library maxDepth) clean := by
  refine .bind (by simp) fun _ => .bind (by simp) fun divert => ?_
  refine .bind (by simp) fun kind => ?_
  split <;> simp

@[simp] theorem advances_floatLiteral :
    floatLiteral.Advances (acts library maxDepth) clean := by
  simp [floatLiteral]

@[simp] theorem advances_intLiteral :
    intLiteral.Advances (acts library maxDepth) clean := by
  simp [intLiteral]

@[simp] theorem advances_boolLiteral :
    boolLiteral.Advances (acts library maxDepth) clean := by
  refine .bind (by simp) fun word => ?_
  split <;> simp

@[simp] theorem advances_stringLiteral :
    stringLiteral.Advances (acts library maxDepth) clean := by
  refine .bind (by simp) fun _ => .bind (by simp) fun _ => ?_
  refine .bind (by simp) fun content => .bind (by simp) fun _ => ?_
  refine .bind (by simp) fun _ => ?_
  cases content <;> simp

@[simp] theorem advances_isPlainString
    (id : NodeId) :
    (isPlainString id).Advances (acts library maxDepth) clean := by
  refine .bind (advances_kindOf _) fun kind => ?_
  split
  · refine .bind (advances_kindOf _) fun only => ?_
    split <;> trivial
  · trivial

@[simp] theorem advances_literalValue :
    literalValue.Advances (acts library maxDepth) clean := by
  simp [literalValue]

@[simp] theorem advances_functionCall :
    functionCall.Advances (acts library maxDepth) clean := by
  simp [functionCall]

@[simp] theorem advances_reference :
    reference.Advances (acts library maxDepth) clean := by
  have path :
      (Rule.alternate (Rule.single identifier)
          (Rule.dropped (spaced (Rule.literal ".")))).Advances
        (acts library maxDepth) clean :=
    Rule.advances_alternate_of_inner (forward_acts _ _) (by simp) (by simp)
      (consumes_dropped (consumes_spaced (Rule.consumes_literal (by decide))))
  refine .bind path fun names => ?_
  split <;> simp

@[simp] theorem advances_parenthesised :
    parenthesised.Advances (acts library maxDepth) clean := by
  simp [parenthesised]

@[simp] theorem advances_listMember :
    listMember.Advances (acts library maxDepth) clean := by
  simp [listMember]

@[simp] theorem advances_listLiteral :
    listLiteral.Advances (acts library maxDepth) clean := by
  have items :
      (Rule.separated listMember (spaced (Rule.literal ","))).Advances
        (acts library maxDepth) clean :=
    Rule.advances_separated (forward_acts _ _) (by simp) (by simp)
      (consumes_spaced (Rule.consumes_literal (by decide)))
  simp [listLiteral, items]

@[simp] theorem advances_signed
    (op : UnaryOp)
    (inner : NodeId) :
    (signed op inner).Advances (acts library maxDepth) clean := by
  refine .bind (advances_kindOf _) fun kind => ?_
  split <;> simp

@[simp] theorem advances_identifierNames
    (ids : List NodeId) :
    (identifierNames ids).Advances (acts library maxDepth) clean := by
  induction ids with
  | nil =>
      trivial
  | cons id others inductionHypothesis =>
      simp [identifierNames, inductionHypothesis]

@[simp] theorem advances_joinedIdentifier
    (path : List NodeId) :
    (joinedIdentifier path).Advances (acts library maxDepth) clean := by
  unfold joinedIdentifier
  split <;> simp

@[simp] theorem advances_sign :
    sign.Advances (acts library maxDepth) clean := by
  refine .bind (by simp) ?_
  rintro (_ | op) <;> simp

@[simp] theorem advances_bareOperand
    (sign : Option UnaryOp) :
    (bareOperand sign).Advances (acts library maxDepth) clean := by
  refine .bind (by simp) ?_
  rintro (_ | value)
  · cases sign <;> simp
  · trivial

@[simp] theorem advances_stepAfter
    (value : NodeId) :
    (stepAfter value).Advances (acts library maxDepth) clean := by
  refine .bind (by simp) ?_
  rintro (_ | isIncrement)
  · trivial
  · refine .bind (by simp) fun kind => ?_
    split <;> simp

@[simp] theorem advances_operand :
    operand.Advances (acts library maxDepth) clean := by
  refine .bind (by simp) ?_
  rintro (_ | value)
  · refine .bind (by simp) fun sign => .bind (by simp) fun _ => ?_
    refine .bind (by simp) fun bare => ?_
    cases sign <;> simp
  · trivial

@[simp] theorem advances_refuseStep
    (id : NodeId) :
    (refuseStep id).Advances (acts library maxDepth) clean := by
  refine .bind (advances_kindOf _) fun kind => ?_
  split <;> simp

end Expressions

section Prose

@[simp] theorem advances_textStop :
    textStop.Advances (acts library maxDepth) clean := by
  simp [textStop]

@[simp] theorem advances_plainText :
    plainText.Advances (acts library maxDepth) clean :=
  .bind (by simp) fun _ => .bind (by simp) fun _ =>
    Rule.advances_textUntil (forward_acts _ _) (by simp) _ _

@[simp] theorem advances_text :
    text.Advances (acts library maxDepth) clean := by
  refine .bind (Rule.advances_loop (fun found => ?_) fun found => ?_) ?_
  · refine .bind (by simp) fun chunk => .bind (by simp) fun shields => ?_
    split
    · trivial
    · split <;> simp
  · refine
      Rule.consumesIf_bind (forward_acts _ _) _
        consumes_plainText.attempt_parse ?_
    rintro (_ | chunk) isNone
    · refine
        Rule.consumesIf_bind (forward_acts _ _) _
          (consumesIf_optionalLiteral (by decide)) ?_
      rintro (_ | _) shields
      · exact Rule.consumesIf_pure Bool.false_ne_true
      · exact absurd rfl shields
    · exact absurd rfl isNone
  · rintro (_ | written) <;> trivial

@[simp] theorem advances_glue :
    glue.Advances (acts library maxDepth) clean := by
  simp [glue]

@[simp] theorem advances_tagStart :
    tagStart.Advances (acts library maxDepth) clean := by
  simp [tagStart]

@[simp] theorem advances_openTag :
    openTag.Advances (acts library maxDepth) clean := by
  simp [openTag]

@[simp] theorem advances_isTextThat
    (test : String → Bool)
    (id : NodeId) :
    (isTextThat test id).Advances (acts library maxDepth) clean := by
  refine .bind (advances_kindOf _) fun kind => ?_
  split <;> simp

@[simp] theorem advances_trimLast
    (ids : List NodeId) :
    (trimLast ids).Advances (acts library maxDepth) clean := by
  induction ids with
  | nil =>
      trivial
  | cons last before inductionHypothesis =>
      refine .bind (advances_kindOf last) fun kind => ?_
      split <;> simp [inductionHypothesis]

@[simp] theorem advances_trimContentEnd
    (content : List NodeId) :
    (trimContentEnd content).Advances (acts library maxDepth) clean := by
  simp [trimContentEnd]

@[simp] theorem advances_oneBlankAtEnd
    (content : List NodeId) :
    (oneBlankAtEnd content).Advances (acts library maxDepth) clean := by
  unfold oneBlankAtEnd
  split
  · trivial
  · refine .bind (advances_kindOf _) fun kind => ?_
    split <;> simp

@[simp] theorem advances_trimContentStart
    (content : List NodeId) :
    (trimContentStart content).Advances (acts library maxDepth) clean := by
  unfold trimContentStart
  split
  · trivial
  · refine .bind (advances_kindOf _) fun kind => ?_
    split <;> simp

@[simp] theorem advances_proseEnding :
    proseEnding.Advances (acts library maxDepth) clean := by
  simp [proseEnding]

@[simp] theorem advances_proseOf
    {braces : GrammarRule NodeId}
    (advances : braces.Advances (acts library maxDepth) clean)
    (consumes : braces.Consumes (acts library maxDepth)) :
    (proseOf braces).Advances (acts library maxDepth) clean := by
  have items :
      (Rule.alternate (Rule.optionally text)
          (Rule.optionally (Rule.oneOf [braces, glue, openTag]))).Advances
        (acts library maxDepth) clean := by
    refine
      Rule.advances_alternateUntil (forward_acts _ _) (by simp)
        (by simp [advances]) (by simp) _ _
        (consumesIf_optionally (Rule.consumes_oneOf (forward_acts _ _) ?_))
        (consumesIf_optionally consumes_text) fun main next notNeutral => ?_
    · simp [consumes, consumes_glue, consumes_openTag]
    · exact (Bool.and_eq_false_iff.mp notNeutral)
  refine .bind (by simpa using items) fun found => .bind (by simp) fun ending => ?_
  cases ending <;> cases found <;> simp

@[simp] theorem advances_warnOfReturn
    (first : NodeId) :
    (warnOfReturn first).Advances (acts library maxDepth) clean := by
  refine .bind (advances_isTextThat _ _) fun isReturn => ?_
  split
  · exact Rule.advances_warning _
  · trivial

@[simp] theorem advances_endsInDivert
    (content : List NodeId) :
    (endsInDivert content).Advances (acts library maxDepth) clean := by
  unfold endsInDivert
  split <;> simp

@[simp] theorem advances_beginsWithTag
    (content : List NodeId) :
    (beginsWithTag content).Advances (acts library maxDepth) clean := by
  unfold beginsWithTag
  split
  · refine .bind (advances_kindOf _) fun kind => ?_
    split <;> trivial
  · trivial

@[simp] theorem advances_withLineFeed
    (content : List NodeId) :
    (withLineFeed content).Advances (acts library maxDepth) clean := by
  simp [withLineFeed]

@[simp] theorem advances_proseLine :
    proseLine.Advances (acts library maxDepth) clean := by
  refine .bind (by simp) fun _ => .bind (by simp) ?_
  rintro (_ | ⟨first, rest⟩) <;> simp

end Prose

section Logic

@[simp] theorem advances_returnStatement :
    returnStatement.Advances (acts library maxDepth) clean := by
  simp [returnStatement]

@[simp] theorem advances_temporaryWord :
    temporaryWord.Advances (acts library maxDepth) clean := by
  simp [temporaryWord]

@[simp] theorem advances_assignedName
    (isTemporary : Bool) :
    (assignedName isTemporary).Advances (acts library maxDepth) clean := by
  simp [assignedName]

@[simp] theorem advances_assignedValue
    (name : NodeId)
    (isTemporary isIncrement isDecrement : Bool) :
    (assignedValue name isTemporary isIncrement isDecrement).Advances (acts library maxDepth)
      clean := by
  simp [assignedValue]

@[simp] theorem advances_assignment :
    assignment.Advances (acts library maxDepth) clean := by
  simp [assignment]

@[simp] theorem advances_containsCall
    (id : NodeId) :
    (containsCall id).Advances (acts library maxDepth) clean := by
  simp [containsCall]

@[simp] theorem advances_refuseIdle
    (id : NodeId) :
    (refuseIdle id).Advances (acts library maxDepth) clean := by
  refine .bind (advances_kindOf id) fun kind => ?_
  split
  · trivial
  · trivial
  · refine .bind (advances_identifierName _) fun name => ?_
    split <;> exact Rule.advances_error _
  · split
    · exact Rule.advances_error _
    · trivial

@[simp] theorem advances_withPrintedLine
    (id : NodeId) :
    (withPrintedLine id).Advances (acts library maxDepth) clean := by
  simp [withPrintedLine]

@[simp] theorem advances_logicLine :
    logicLine.Advances (acts library maxDepth) clean := by
  refine .bind (by simp) fun _ => .bind (by simp) fun _ => ?_
  refine .bind (by simp) fun _ => .bind (by simp) ?_
  rintro (_ | id) <;> simp

end Logic

section Sequences

@[simp] theorem advances_symbolAnnotation :
    symbolAnnotation.Advances (acts library maxDepth) clean := by
  unfold symbolAnnotation
  simp

@[simp] theorem advances_sequenceWord :
    sequenceWord.Advances (acts library maxDepth) clean := by
  refine .bind (by simp) fun word => ?_
  split <;> simp

@[simp] theorem advances_wordAnnotation :
    wordAnnotation.Advances (acts library maxDepth) clean := by
  have words :
      (Rule.alternate (Rule.single sequenceWord)
          (Rule.dropped blanks)).Advances (acts library maxDepth) clean :=
    Rule.advances_alternate_of_inner (forward_acts _ _) (by simp) (by simp)
      (consumes_dropped consumes_blanks)
  unfold wordAnnotation
  simp [words]

@[simp] theorem advances_sequenceAnnotation :
    sequenceAnnotation.Advances (acts library maxDepth) clean := by
  refine .bind (by simp) ?_
  rintro (_ | type) <;> simp

@[simp] theorem advances_barSeparated :
    barSeparated.Advances (acts library maxDepth) clean := by
  refine .bind ?_ fun pieces => trivial
  refine
    Rule.advances_alternate_of_inner (forward_acts _ _) (by simp) (by simp) ?_
  refine consumes_single ?_
  exact
    Rule.Consumes.bind (forward_acts _ _) (Rule.consumes_literal (by decide)) _

@[simp] theorem advances_trimmedLists
    (lists : List (List NodeId)) :
    (trimmedLists lists).Advances (acts library maxDepth) clean := by
  induction lists with
  | nil =>
      trivial
  | cons content others inductionHypothesis =>
      simp [trimmedLists, inductionHypothesis]

@[simp] theorem advances_inlineAlternatives :
    inlineAlternatives.Advances (acts library maxDepth) clean := by
  simp [inlineAlternatives]

@[simp] theorem advances_dashedAlternative :
    dashedAlternative.Advances (acts library maxDepth) clean := by
  refine .bind (by simp) fun _ => .bind (by simp) fun isArrow => ?_
  split
  · simp
  · refine .bind (by simp) fun _ => .bind (by simp) fun _ => .bind (by simp) ?_
    rintro (_ | content) <;> simp

@[simp] theorem advances_dashedAlternatives :
    dashedAlternatives.Advances (acts library maxDepth) clean :=
  .bind (by simp) fun _ =>
    Rule.advances_oneOrMore (forward_acts _ _) advances_dashedAlternative
      consumes_dashedAlternative

@[simp] theorem advances_alternatives :
    alternatives.Advances (acts library maxDepth) clean := by
  refine .bind (by simp) ?_
  rintro (_ | _) <;> simp

@[simp] theorem advances_unannotatedSequence :
    unannotatedSequence.Advances (acts library maxDepth) clean := by
  simp [unannotatedSequence]

end Sequences

section Conditionals

@[simp] theorem advances_branchOf
    (id : NodeId) :
    (branchOf id).Advances (acts library maxDepth) clean := by
  refine .bind (advances_kindOf _) fun kind => ?_
  split <;> simp

@[simp] theorem advances_condition :
    condition.Advances (acts library maxDepth) clean := by
  simp [condition]

@[simp] theorem advances_elseMark :
    elseMark.Advances (acts library maxDepth) clean := by
  simp [elseMark]

@[simp] theorem advances_inlineBranches :
    inlineBranches.Advances (acts library maxDepth) clean := by
  refine .bind advances_barSeparated fun found => ?_
  split <;> simp

@[simp] theorem advances_ownCondition
    (isElse : Bool) :
    (ownCondition isElse).Advances (acts library maxDepth) clean := by
  simp [ownCondition]

@[simp] theorem advances_branchContent
    (own : Option NodeId) :
    (branchContent own).Advances (acts library maxDepth) clean := by
  refine .bind (by simp) ?_
  rintro (_ | content) <;> simp

@[simp] theorem advances_dashedBranch :
    dashedBranch.Advances (acts library maxDepth) clean := by
  simp [dashedBranch]

@[simp] theorem advances_dashedBranches :
    dashedBranches.Advances (acts library maxDepth) clean := by
  have branches :
      (Rule.oneOrMore dashedBranch).Advances (acts library maxDepth) clean :=
    Rule.advances_oneOrMore (forward_acts _ _) advances_dashedBranch
      consumes_dashedBranch
  simp [dashedBranches, branches]

@[simp] theorem advances_requireElse
    (second : NodeId) :
    (requireElse second).Advances (acts library maxDepth) clean := by
  simp [requireElse]

@[simp] theorem advances_undashedBranches :
    undashedBranches.Advances (acts library maxDepth) clean := by
  refine .bind (by simp) fun content => .bind (by simp) fun first => ?_
  refine .bind (by simp) ?_
  rintro (_ | second) <;> simp

@[simp] theorem advances_onlyElse
    (branches : List NodeId) :
    (onlyElse branches).Advances (acts library maxDepth) clean := by
  unfold onlyElse
  split <;> simp

@[simp] theorem advances_blockBranches
    (subject : Option NodeId) :
    (blockBranches subject).Advances (acts library maxDepth) clean := by
  refine .bind (by simp) ?_
  rintro (_ | branches) <;> simp

@[simp] theorem advances_settleComparedBranch
    (count earlier : Nat)
    (earlierConditions isLast : Bool)
    (id : NodeId)
    (arm : Branch) :
    (settleComparedBranch count earlier earlierConditions isLast id arm).Advances (acts library maxDepth)
      clean := by
  simp [settleComparedBranch]

@[simp] theorem advances_settleCompared
    (count earlier : Nat)
    (earlierConditions : Bool)
    (branches : List NodeId) :
    (settleCompared count earlier earlierConditions branches).Advances (acts library maxDepth)
      clean := by
  induction branches generalizing earlier earlierConditions with
  | nil =>
      trivial
  | cons first rest inductionHypothesis =>
      simp [settleCompared, inductionHypothesis]

@[simp] theorem advances_settleConditionBranch
    (last : NodeId)
    (isLast : Bool)
    (id : NodeId)
    (arm : Branch) :
    (settleConditionBranch last isLast id arm).Advances (acts library maxDepth)
      clean := by
  simp [settleConditionBranch]

@[simp] theorem advances_settleConditions
    (last : NodeId)
    (branches : List NodeId) :
    (settleConditions last branches).Advances (acts library maxDepth) clean := by
  induction branches with
  | nil =>
      trivial
  | cons first rest inductionHypothesis =>
      simp [settleConditions, inductionHypothesis]

@[simp] theorem advances_settleBranches
    (subject : Option NodeId)
    (branches : List NodeId) :
    (settleBranches subject branches).Advances (acts library maxDepth) clean := by
  unfold settleBranches
  split <;> simp

@[simp] theorem advances_amendAll
    (amendment : Amendment)
    (branches : List NodeId) :
    (amendAll amendment branches).Advances (acts library maxDepth) clean := by
  induction branches with
  | nil =>
      trivial
  | cons first rest inductionHypothesis =>
      simp [amendAll, inductionHypothesis]

@[simp] theorem advances_settledBranches
    (subject : Option NodeId) :
    (settledBranches subject).Advances (acts library maxDepth) clean := by
  simp [settledBranches]

@[simp] theorem advances_branches
    (subject : Option NodeId) :
    (branches subject).Advances (acts library maxDepth) clean := by
  simp [branches]

@[simp] theorem advances_conditional :
    conditional.Advances (acts library maxDepth) clean := by
  simp [conditional]

end Conditionals

section Braces

@[simp] theorem advances_annotatedSequence
    (type : SequenceType) :
    (annotatedSequence type).Advances (acts library maxDepth) clean := by
  simp [annotatedSequence]

@[simp] theorem advances_conditionalOn
    (subject : NodeId) :
    (conditionalOn subject).Advances (acts library maxDepth) clean := by
  simp [conditionalOn]

@[simp] theorem advances_upToBrace
    {rule : GrammarRule NodeId} :
    (upToBrace rule).Advances (acts library maxDepth) clean ↔
      rule.Advances (acts library maxDepth) clean := by
  simp [upToBrace]

@[simp] theorem advances_braceContent :
    braceContent.Advances (acts library maxDepth) clean := by
  refine .bind (by simp) fun _ => .bind (by simp) ?_
  rintro (_ | type)
  · refine .bind (by simp) ?_
    rintro (_ | subject)
    · exact Rule.advances_firstOf (by simp)
    · exact advances_conditionalOn subject
  · exact advances_annotatedSequence type

@[simp] theorem advances_asContentList
    (id : NodeId) :
    (asContentList id).Advances (acts library maxDepth) clean := by
  refine .bind (advances_kindOf _) fun kind => ?_
  split <;> simp

@[simp] theorem advances_appendTo
    (list : NodeId)
    (ids : List NodeId) :
    (appendTo list ids).Advances (acts library maxDepth) clean := by
  induction ids with
  | nil =>
      trivial
  | cons first rest inductionHypothesis =>
      simp [appendTo, inductionHypothesis]

@[simp] theorem advances_braces :
    braces.Advances (acts library maxDepth) clean := by
  refine .bind (by simp) fun _ => .bind (by simp) fun inString => ?_
  refine .bind (by simp) fun tagOpen => .bind (by simp) fun _ => ?_
  refine .bind (by simp) ?_
  rintro (_ | logic) <;> simp

@[simp] theorem advances_mixedProse :
    mixedProse.Advances (acts library maxDepth) clean :=
  advances_proseOf advances_braces consumes_braces

end Braces

section Choices

@[simp] theorem advances_bullets
    {bullet : String}
    (nonempty : bullet ≠ "") :
    (bullets bullet).Advances (acts library maxDepth) clean :=
  .bind
    (Rule.advances_alternate_of_inner (forward_acts _ _) (by simp) (by simp)
      (consumes_single (Rule.consumes_literal nonempty)))
    fun _ => trivial

@[simp] theorem advances_choiceMark :
    choiceMark.Advances (acts library maxDepth) clean := by
  refine .bind (by simp) ?_
  rintro (_ | depth) <;> simp

@[simp] theorem advances_guardCondition :
    guardCondition.Advances (acts library maxDepth) clean := by
  simp [guardCondition]

@[simp] theorem advances_guardSpace :
    guardSpace.Advances (acts library maxDepth) clean := by
  simp [guardSpace]

@[simp] theorem advances_choiceGuard :
    choiceGuard.Advances (acts library maxDepth) clean := by
  refine .bind ?_ fun conditions => ?_
  · exact
      Rule.advances_alternate_of_outer (forward_acts _ _) (by simp) (by simp)
        (consumes_single consumes_guardCondition)
  · split <;> simp

@[simp] theorem advances_closeTagIn
    (content : Option (List NodeId)) :
    (closeTagIn content).Advances (acts library maxDepth) clean := by
  unfold closeTagIn
  split <;> simp

@[simp] theorem advances_choiceText :
    choiceText.Advances (acts library maxDepth) clean := by
  simp [choiceText]

@[simp] theorem advances_closeLastTag
    (parts : ChoiceText) :
    (closeLastTag parts).Advances (acts library maxDepth) clean := by
  unfold closeLastTag
  split <;> simp

@[simp] theorem advances_isEmptyDivert
    (id : NodeId) :
    (isEmptyDivert id).Advances (acts library maxDepth) clean := by
  refine .bind (advances_kindOf _) fun kind => ?_
  split <;> simp

@[simp] theorem advances_leadingDiverts
    (ids : List NodeId) :
    (leadingDiverts ids).Advances (acts library maxDepth) clean := by
  induction ids with
  | nil =>
      trivial
  | cons first rest inductionHypothesis =>
      simp [leadingDiverts, inductionHypothesis]

@[simp] theorem advances_contentListOf
    (content : Option (List NodeId)) :
    (contentListOf content).Advances (acts library maxDepth) clean := by
  unfold contentListOf
  split <;> simp

@[simp] theorem advances_warnIfBlank
    (parts : ChoiceText)
    (hasDiverts : Bool) :
    (warnIfBlank parts hasDiverts).Advances (acts library maxDepth) clean := by
  unfold warnIfBlank
  split
  · exact Rule.advances_warning _
  · split
    · exact Rule.advances_warning _
    · trivial

@[simp] theorem advances_choiceHead :
    choiceHead.Advances (acts library maxDepth) clean := by
  simp [choiceHead]

@[simp] theorem advances_choiceParts :
    choiceParts.Advances (acts library maxDepth) clean := by
  simp [choiceParts]

@[simp] theorem advances_choiceOf
    (head : ChoiceHead)
    (parts : ChoiceText)
    (ending : Option (List NodeId)) :
    (choiceOf head parts ending).Advances (acts library maxDepth) clean := by
  simp [choiceOf]

@[simp] theorem advances_choice :
    choice.Advances (acts library maxDepth) clean := by
  simp [choice]

@[simp] theorem advances_gather :
    gather.Advances (acts library maxDepth) clean := by
  simp [gather]

end Choices

section Declarations

@[simp] theorem advances_declarationWord
    (word : String) :
    (declarationWord word).Advances (acts library maxDepth) clean := by
  simp [declarationWord]

@[simp] theorem advances_initialValue
    (name : NodeId) :
    (initialValue name).Advances (acts library maxDepth) clean := by
  simp [initialValue]

@[simp] theorem advances_refuseLogicIn
    (value : NodeId) :
    (refuseLogicIn value).Advances (acts library maxDepth) clean := by
  refine .bind (advances_kindOf value) fun kind => ?_
  split <;> simp

@[simp] theorem advances_variableDeclaration :
    variableDeclaration.Advances (acts library maxDepth) clean := by
  refine .bind (by simp) fun _ => .bind (by simp) fun name => ?_
  refine .bind (by simp) fun _ => .bind (by simp) fun _ => ?_
  refine .bind (by simp) fun _ => .bind (by simp) fun value => ?_
  refine .bind (by simp) fun kind => ?_
  extract_lets made checked
  have advances (value : Unit) :
      (checked value).Advances (acts library maxDepth) clean := by
    refine .bind (by simp) fun comma => ?_
    split
    · exact .bind (Rule.advances_error _) fun _ => trivial
    · exact .bind (advances_refuseLogicIn _) fun _ => trivial
  split
  · exact .bind (Rule.advances_error _) advances
  · exact advances ()

@[simp] theorem advances_constantDeclaration :
    constantDeclaration.Advances (acts library maxDepth) clean := by
  simp [constantDeclaration]

@[simp] theorem advances_elementValue :
    elementValue.Advances (acts library maxDepth) clean := by
  refine .bind (by simp) fun _ => .bind (by simp) ?_
  rintro (_ | number)
  · trivial
  · refine .bind (advances_kindOf number) fun kind => ?_
    split <;> trivial

@[simp] theorem advances_closesEarly
    (selected : Bool) :
    (closesEarly selected).Advances (acts library maxDepth) clean := by
  simp [closesEarly]

@[simp] theorem advances_closesLate
    (isOpen : Bool) :
    (closesLate isOpen).Advances (acts library maxDepth) clean := by
  simp [closesLate]

@[simp] theorem advances_listElement :
    listElement.Advances (acts library maxDepth) clean := by
  simp [listElement]

@[simp] theorem advances_elementSeparator :
    elementSeparator.Advances (acts library maxDepth) clean := by
  simp [elementSeparator]

@[simp] theorem advances_listDefinition :
    listDefinition.Advances (acts library maxDepth) clean := by
  have elements :
      (Rule.separated listElement elementSeparator).Advances
        (acts library maxDepth) clean :=
    Rule.advances_separated (forward_acts _ _) (by simp) (by simp)
      consumes_elementSeparator
  simp [listDefinition, elements]

@[simp] theorem advances_listDeclaration :
    listDeclaration.Advances (acts library maxDepth) clean := by
  simp [listDeclaration]

@[simp] theorem advances_externalName :
    externalName.Advances (acts library maxDepth) clean := by
  refine .bind (by simp) ?_
  rintro (_ | name) <;> simp

@[simp] theorem advances_externalDeclaration :
    externalDeclaration.Advances (acts library maxDepth) clean := by
  simp [externalDeclaration]

@[simp] theorem advances_reminder :
    reminder.Advances (acts library maxDepth) clean := by
  simp [reminder]

end Declarations

section Flows

@[simp] theorem advances_knotMark :
    knotMark.Advances (acts library maxDepth) clean := by
  simp [knotMark]

@[simp] theorem advances_optionalParameters :
    optionalParameters.Advances (acts library maxDepth) clean := by
  simp [optionalParameters]

@[simp] theorem advances_functionName :
    functionName.Advances (acts library maxDepth) clean := by
  simp [functionName]

@[simp] theorem advances_knotName :
    knotName.Advances (acts library maxDepth) clean := by
  refine .bind (by simp) ?_
  rintro (_ | id) <;> simp

@[simp] theorem advances_requiredName
    (isFunction : Bool)
    (found : Option NodeId) :
    (requiredName isFunction found).Advances (acts library maxDepth) clean := by
  cases found <;> simp [requiredName]

@[simp] theorem advances_knotHeader :
    knotHeader.Advances (acts library maxDepth) clean := by
  simp [knotHeader]

@[simp] theorem advances_stitchKeyword :
    stitchKeyword.Advances (acts library maxDepth) clean := by
  simp [stitchKeyword]

@[simp] theorem advances_stitchHeader :
    stitchHeader.Advances (acts library maxDepth) clean := by
  simp [stitchHeader]

@[simp] theorem advances_missingContent :
    missingContent.Advances (acts library maxDepth) clean := by
  have skipped :
      (Rule.textUntil knotHeader isEqualsSign fun _ => false).Advances
        (acts library maxDepth) clean :=
    Rule.advances_textUntil (forward_acts _ _) advances_knotHeader _ _
  simp [missingContent, skipped]

@[simp] theorem advances_flow
    (level : FlowLevel)
    (header : FlowHeader)
    (content : List NodeId) :
    (flow level header content).Advances (acts library maxDepth) clean := by
  simp [flow]

@[simp] theorem advances_knot :
    knot.Advances (acts library maxDepth) clean := by
  simp [knot]

@[simp] theorem advances_stitch :
    stitch.Advances (acts library maxDepth) clean := by
  simp [stitch]

end Flows

section Inclusions

@[simp] theorem advances_includedStory
    (file : String) :
    (includedStory file).Advances (acts library maxDepth) clean := by
  refine .bind (by simp) fun inclusion => ?_
  cases inclusion <;> simp

@[simp] theorem advances_inclusion :
    inclusion.Advances (acts library maxDepth) clean := by
  refine .bind (by simp) fun _ => .bind (by simp) fun _ => ?_
  refine .bind (by simp) fun _ => .bind (by simp) ?_
  rintro (_ | written) <;> simp

end Inclusions

section Statements

@[simp] theorem advances_single
    {rule : GrammarRule NodeId} :
    (single rule).Advances (acts library maxDepth) clean ↔
      rule.Advances (acts library maxDepth) clean := by
  simp [single]

theorem advances_of_mem_statementRules
    {place : Place}
    {rule : GrammarRule (List NodeId)}
    (member : rule ∈ statementRules place) :
    rule.Advances (acts library maxDepth) clean := by
  simp only [statementRules, List.mem_append, List.mem_map, List.mem_cons,
    List.not_mem_nil, or_false, mem_onlyIf] at member
  rcases member with
    (((((rfl | ⟨-, rfl⟩) | rfl | rfl) | ⟨-, rfl⟩) | ⟨-, rfl⟩) |
      ⟨line, isLine, rfl⟩) | rfl | rfl
  case inl.inr =>
    rcases isLine with rfl | rfl | rfl | rfl | rfl <;> simp
  all_goals simp

@[simp] theorem advances_isReturn
    (id : NodeId) :
    (isReturn id).Advances (acts library maxDepth) clean := by
  refine .bind (advances_kindOf _) fun kind => ?_
  split <;> simp

@[simp] theorem advances_statement
    (place : Place) :
    (statement place).Advances (acts library maxDepth) clean := by
  refine .bind (Rule.advances_oneOf fun rule => ?_) fun nodes => ?_
  · exact advances_of_mem_statementRules
  · split <;> simp

@[simp] theorem advances_ignored
    {α : Type}
    {rule : GrammarRule α} :
    (ignored rule).Advances (acts library maxDepth) clean ↔
      rule.Advances (acts library maxDepth) clean := by
  simp [ignored]

@[simp] theorem advances_statementsEnd
    (place : Place) :
    (statementsEnd place).Advances (acts library maxDepth) clean := by
  refine .bind (by simp) fun _ => Rule.advances_oneOf fun rule member => ?_
  simp only [breakRules, List.mem_append, mem_onlyIf] at member
  rcases member with (⟨-, rfl⟩ | ⟨-, rfl⟩) | inBlock
  · simp
  · simp
  · split at inBlock
    · simp only [List.mem_cons, List.not_mem_nil, or_false] at inBlock
      rcases inBlock with rfl | rfl <;> simp
    · cases inBlock

@[simp] theorem advances_statementRun
    (place : Place) :
    (statementRun place).Advances (acts library maxDepth) clean := by
  have run :
      (Rule.alternateUntil (Rule.optionallyDropped blankLines)
          (do return .many (← statement place))
          (statementsEnd place)).Advances (acts library maxDepth) clean :=
    Rule.advances_alternateUntil (forward_acts _ _) (by simp) (by simp) (by simp)
      _ (fun _ => False)
      (Rule.Consumes.bind (forward_acts _ _) (consumes_statement place) _)
      (Rule.consumesIf_of_never (fun _ => id) _) fun _ _ _ => .inl trivial
  unfold statementRun
  split
  · refine .bind (by simp) fun dashed => ?_
    split
    · exact .bind (Rule.advances_error _) fun _ => run
    · exact run
  · exact run

/-- The rule of every construct advances. -/
theorem advances_rule
    {α : Type}
    (construct : Construct α) :
    (rule construct).Advances (acts library maxDepth) clean := by
  cases construct with
  | expression weakerThan =>
      exact advances_expressionAbove weakerThan
  | operand =>
      exact advances_operand
  | prose =>
      exact advances_mixedProse
  | statements place =>
      exact advances_statementRun place

end Statements

end Grammar

end InkSyntax
