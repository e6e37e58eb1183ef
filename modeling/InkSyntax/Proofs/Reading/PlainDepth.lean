import InkSyntax.Grammar.Script
import InkSyntax.Proofs.Reading.ScopeDepth

namespace InkSyntax.Grammar

/-!
# The scopes of plain text

Knots hold stitches, these hold lines, and a line holds text, tags and diverts.  In
text without barriers nothing nests deeper than that, however many lines, words,
bullets or pauses there are.  Each rule opens a number of scopes inside each other that
the rules in it account for.
-/

variable
    {depth : Nat}
    {α : Type}

section Lexemes

@[simp] theorem opensAtMost_blanks :
    Rule.OpensAtMost depth blanks := by
  simp [blanks]

@[simp] theorem opensAtMost_skipBlanks :
    Rule.OpensAtMost depth skipBlanks := by
  simp [skipBlanks]

@[simp] theorem opensAtMost_optionalLiteral
    (expected : String) :
    Rule.OpensAtMost depth (optionalLiteral expected) := by
  simp [optionalLiteral]

@[simp] theorem opensAtMost_spaced
    [StandsFor α]
    {rule : GrammarRule α}
    (opens : Rule.OpensAtMost depth rule) :
    Rule.OpensAtMost (depth + 1) (spaced rule) := by
  simp [spaced, opens]

@[simp] theorem opensAtMost_lineEnd :
    Rule.OpensAtMost depth lineEnd := by
  simp [lineEnd]

@[simp] theorem opensAtMost_textEnd :
    Rule.OpensAtMost depth textEnd := by
  simp [textEnd]

@[simp] theorem opensAtMost_endOfLine :
    Rule.OpensAtMost (depth + 2) endOfLine :=
  Rule.opensAtMost_oneOf (by simp)

@[simp] theorem opensAtMost_blankLines :
    Rule.OpensAtMost (depth + 1) blankLines := by
  simp [blankLines, Rule.OpensAtMost.oneOrMore]

@[simp] theorem opensAtMost_skipBlankSpace :
    Rule.OpensAtMost (depth + 3) skipBlankSpace := by
  have either :
      Rule.OpensAtMost (depth + 3) (Rule.oneOf [blanks, blankLines]) :=
    Rule.opensAtMost_oneOf (by simp)
  refine .bind (fun _ => .bind either ?_) fun _ => trivial
  rintro (_ | value) <;> trivial

@[simp] theorem opensAtMost_restOfLine :
    Rule.OpensAtMost depth restOfLine := by
  simp [restOfLine]

@[simp] theorem opensAtMost_skipLine :
    Rule.OpensAtMost depth skipLine := by
  simp [skipLine]

@[simp] theorem opensAtMost_wholeLine
    [StandsFor α]
    {rule : GrammarRule α}
    (opens : Rule.OpensAtMost (depth + 2) rule) :
    Rule.OpensAtMost (depth + 3) (wholeLine rule) := by
  simp [wholeLine, opens]

@[simp] theorem opensAtMost_name :
    Rule.OpensAtMost (depth + 1) name := by
  simp [name]

@[simp] theorem opensAtMost_make
    (kind : StoryKind) :
    Rule.OpensAtMost depth (make kind) :=
  trivial

@[simp] theorem opensAtMost_makeText
    (text : String) :
    Rule.OpensAtMost depth (makeText text) :=
  trivial

@[simp] theorem opensAtMost_kindOf
    (id : NodeId) :
    Rule.OpensAtMost depth (kindOf id) :=
  trivial

@[simp] theorem opensAtMost_amend
    (id : NodeId)
    (amendment : Amendment) :
    Rule.OpensAtMost depth (amend id amendment) :=
  trivial

@[simp] theorem opensAtMost_identifierName
    (id : NodeId) :
    Rule.OpensAtMost depth (identifierName id) := by
  refine .bind (by simp) fun kind => ?_
  cases kind <;> simp

@[simp] theorem opensAtMost_identifier :
    Rule.OpensAtMost (depth + 2) identifier := by
  simp [identifier]

@[simp] theorem opensAtMost_missingIdentifier :
    Rule.OpensAtMost depth missingIdentifier := by
  simp [missingIdentifier]

@[simp] theorem opensAtMost_keyword
    (word : String) :
    Rule.OpensAtMost (depth + 2) (keyword word) := by
  simp [keyword]

@[simp] theorem opensAtMost_label :
    Rule.OpensAtMost depth label :=
  .barred (barred_literal (by decide)) trivial

@[simp] theorem opensAtMost_dash :
    Rule.OpensAtMost (depth + 2) dash := by
  simp [dash]

@[simp] theorem opensAtMost_dashes :
    Rule.OpensAtMost (depth + 2) dashes := by
  refine .bind (by simp) fun _ => .bind (fun _ => .bind (by simp) ?_) (by simp)
  rintro (_ | value) <;> simp

end Lexemes

section Arguments

@[simp] theorem opensAtMost_callArguments :
    Rule.OpensAtMost depth callArguments :=
  .barred (barred_literal (by decide)) trivial

@[simp] theorem opensAtMost_parameters :
    Rule.OpensAtMost depth parameters :=
  .barred (barred_literal (by decide)) trivial

end Arguments

section Diverts

@[simp] theorem opensAtMost_closeTag :
    Rule.OpensAtMost depth closeTag := by
  simp [closeTag]

@[simp] theorem opensAtMost_arrow :
    Rule.OpensAtMost depth arrow := by
  refine .bind (by simp) fun count => ?_
  split <;> simp

@[simp] theorem opensAtMost_targetPath :
    Rule.OpensAtMost (depth + 6) targetPath := by
  exact
    Rule.opensAtMost_alternate
      (.single (opensAtMost_spaced opensAtMost_identifier))
      (.dropped (Rule.opensAtMost_literal "."))

@[simp] theorem opensAtMost_target :
    Rule.OpensAtMost (depth + 7) target := by
  simp [target]

@[simp] theorem opensAtMost_thread :
    Rule.OpensAtMost (depth + 8) thread := by
  simp [thread, Rule.OpensAtMost.expectOr]

@[simp] theorem opensAtMost_chain
    (isFirst : Bool)
    (links : List Link) :
    Rule.OpensAtMost depth (chain isFirst links) := by
  induction links generalizing isFirst with
  | nil =>
      simp [chain]
  | cons link rest inductionHypothesis =>
      rcases link with (_ | _) | divert <;>
        simp [chain, inductionHypothesis]

@[simp] theorem opensAtMost_diverts :
    Rule.OpensAtMost (depth + 10) diverts := by
  refine .bind (by simp) fun _ => .bind (by simp) ?_
  rintro (_ | divert)
  · have links :
        Rule.OpensAtMost (depth + 10)
          (Rule.alternate (do return Step.one (Link.arrow (← arrow)))
            (do return Step.one (Link.target (← Rule.parse target)))) :=
      Rule.opensAtMost_alternate (by simp) (by simp)
    simp [links]
  · trivial

@[simp] theorem opensAtMost_isDivert
    (id : NodeId) :
    Rule.OpensAtMost depth (isDivert id) := by
  refine .bind (by simp) fun kind => ?_
  cases kind <;> simp

end Diverts

section Prose

@[simp] theorem opensAtMost_intLiteral :
    Rule.OpensAtMost depth intLiteral := by
  simp [intLiteral]

theorem opensAtMost_anyNode
    {test : NodeId → GrammarRule Bool}
    (opens : ∀ id, Rule.OpensAtMost depth (test id))
    (ids : List NodeId) :
    Rule.OpensAtMost depth (anyNode test ids) := by
  induction ids with
  | nil =>
      simp [anyNode]
  | cons id others inductionHypothesis =>
      simp [anyNode, opens id, inductionHypothesis]

@[simp] theorem opensAtMost_textStop :
    Rule.OpensAtMost (depth + 4) textStop :=
  Rule.opensAtMost_oneOf (by simp)

@[simp] theorem opensAtMost_plainText :
    Rule.OpensAtMost (depth + 6) plainText := by
  refine .bind (by simp) fun _ => .bind (by simp) fun _ => ?_
  exact Rule.opensAtMost_textUntil opensAtMost_textStop

@[simp] theorem opensAtMost_text :
    Rule.OpensAtMost (depth + 7) text := by
  refine .bind (by simp) ?_
  rintro (_ | written) <;> simp

@[simp] theorem opensAtMost_glue :
    Rule.OpensAtMost depth glue := by
  simp [glue]

@[simp] theorem opensAtMost_tagStart :
    Rule.OpensAtMost depth tagStart := by
  simp [tagStart]

@[simp] theorem opensAtMost_openTag :
    Rule.OpensAtMost depth openTag := by
  simp [openTag]

@[simp] theorem opensAtMost_isTextThat
    (test : String → Bool)
    (id : NodeId) :
    Rule.OpensAtMost depth (isTextThat test id) := by
  refine .bind (by simp) fun kind => ?_
  cases kind <;> simp

@[simp] theorem opensAtMost_trimLast
    (ids : List NodeId) :
    Rule.OpensAtMost depth (trimLast ids) := by
  induction ids with
  | nil =>
      simp [trimLast]
  | cons last before inductionHypothesis =>
      refine .bind (by simp) fun kind => ?_
      cases kind <;> simp [inductionHypothesis]

@[simp] theorem opensAtMost_trimContentEnd
    (content : List NodeId) :
    Rule.OpensAtMost depth (trimContentEnd content) := by
  simp [trimContentEnd]

@[simp] theorem opensAtMost_oneBlankAtEnd
    (content : List NodeId) :
    Rule.OpensAtMost depth (oneBlankAtEnd content) := by
  unfold oneBlankAtEnd
  cases content.getLast? with
  | none =>
      trivial
  | some last =>
      refine .bind (by simp) fun kind => ?_
      cases kind <;> simp

@[simp] theorem opensAtMost_trimContentStart
    (content : List NodeId) :
    Rule.OpensAtMost depth (trimContentStart content) := by
  cases content with
  | nil =>
      simp [trimContentStart]
  | cons first rest =>
      refine .bind (by simp) fun kind => ?_
      cases kind <;> simp

@[simp] theorem opensAtMost_proseEnding :
    Rule.OpensAtMost (depth + 11) proseEnding := by
  simp [proseEnding]

theorem opensAtMost_proseOf
    {braces : GrammarRule NodeId}
    (opens : Rule.OpensAtMost (depth + 6) braces) :
    Rule.OpensAtMost (depth + 11) (proseOf braces) := by
  have item :
      Rule.OpensAtMost (depth + 9)
        (Rule.optionally (Rule.oneOf [braces, glue, openTag])) :=
    Rule.OpensAtMost.optionally (Rule.opensAtMost_oneOf (by simp [opens]))
  refine
    .bind
      (Rule.opensAtMost_attempt.mpr
        (Rule.opensAtMost_alternate (.optionally opensAtMost_text) item))
      fun items => .bind opensAtMost_proseEnding fun ending => ?_
  split <;> simp

@[simp] theorem opensAtMost_prose :
    Rule.OpensAtMost (depth + 12) prose :=
  ⟨11, rfl, by omega⟩

@[simp] theorem opensAtMost_warnOfReturn
    (first : NodeId) :
    Rule.OpensAtMost depth (warnOfReturn first) := by
  refine .bind (opensAtMost_isTextThat _ _) fun begins => ?_
  cases begins with
  | false =>
      trivial
  | true =>
      exact Rule.opensAtMost_warning _

@[simp] theorem opensAtMost_endsInDivert
    (content : List NodeId) :
    Rule.OpensAtMost depth (endsInDivert content) := by
  unfold endsInDivert
  cases content.getLast? <;> simp

@[simp] theorem opensAtMost_beginsWithTag
    (content : List NodeId) :
    Rule.OpensAtMost depth (beginsWithTag content) := by
  unfold beginsWithTag
  cases content.head? with
  | none =>
      trivial
  | some first =>
      refine .bind (by simp) fun kind => ?_
      cases kind <;> simp

@[simp] theorem opensAtMost_withLineFeed
    (content : List NodeId) :
    Rule.OpensAtMost depth (withLineFeed content) := by
  simp [withLineFeed]

@[simp] theorem opensAtMost_proseLine :
    Rule.OpensAtMost (depth + 13) proseLine := by
  refine .bind (by simp) fun _ => .bind (by simp) ?_
  rintro (_ | ⟨first, rest⟩) <;> simp

@[simp] theorem opensAtMost_braces :
    Rule.OpensAtMost depth braces :=
  .barred (barred_literal (by decide)) trivial

theorem opensAtMost_mixedProse :
    Rule.OpensAtMost (depth + 11) mixedProse :=
  opensAtMost_proseOf opensAtMost_braces

end Prose

section Choices

@[simp] theorem opensAtMost_bullets
    (bullet : String) :
    Rule.OpensAtMost (depth + 3) (bullets bullet) := by
  have found :
      Rule.OpensAtMost (depth + 3)
        (Rule.alternate (Rule.optionallyDropped blanks)
          (Rule.single (Rule.literal bullet))) :=
    Rule.opensAtMost_alternate
      (.optionallyDropped opensAtMost_blanks)
      (.single (Rule.opensAtMost_literal bullet))
  simp [bullets, found]

@[simp] theorem opensAtMost_choiceMark :
    Rule.OpensAtMost (depth + 3) choiceMark := by
  refine .bind (by simp) ?_
  rintro (_ | count) <;> simp

@[simp] theorem opensAtMost_guardCondition :
    Rule.OpensAtMost depth guardCondition :=
  .barred (barred_literal (by decide)) trivial

@[simp] theorem opensAtMost_guardSpace :
    Rule.OpensAtMost depth guardSpace := by
  simp [guardSpace]

@[simp] theorem opensAtMost_choiceGuard :
    Rule.OpensAtMost (depth + 3) choiceGuard := by
  have found :
      Rule.OpensAtMost (depth + 3)
        (Rule.alternate (Rule.single guardCondition)
          (Rule.dropped guardSpace)) :=
    Rule.opensAtMost_alternate
      (.single opensAtMost_guardCondition)
      (.dropped opensAtMost_guardSpace)
  refine .bind found fun conditions => ?_
  split <;> simp

@[simp] theorem opensAtMost_closeTagIn
    (content : Option (List NodeId)) :
    Rule.OpensAtMost depth (closeTagIn content) := by
  cases content <;> simp [closeTagIn]

@[simp] theorem opensAtMost_choiceText :
    Rule.OpensAtMost (depth + 13) choiceText := by
  simp [choiceText]

@[simp] theorem opensAtMost_closeLastTag
    (parts : ChoiceText) :
    Rule.OpensAtMost depth (closeLastTag parts) := by
  unfold closeLastTag
  split <;> simp

@[simp] theorem opensAtMost_isEmptyDivert
    (id : NodeId) :
    Rule.OpensAtMost depth (isEmptyDivert id) := by
  refine .bind (by simp) fun kind => ?_
  cases kind <;> simp

@[simp] theorem opensAtMost_leadingDiverts
    (ids : List NodeId) :
    Rule.OpensAtMost depth (leadingDiverts ids) := by
  induction ids with
  | nil =>
      simp [leadingDiverts]
  | cons id others inductionHypothesis =>
      simp [leadingDiverts, inductionHypothesis]

@[simp] theorem opensAtMost_contentListOf
    (content : Option (List NodeId)) :
    Rule.OpensAtMost depth (contentListOf content) := by
  cases content <;> simp [contentListOf]

@[simp] theorem opensAtMost_warnIfBlank
    (parts : ChoiceText)
    (hasDiverts : Bool) :
    Rule.OpensAtMost depth (warnIfBlank parts hasDiverts) := by
  simp only [warnIfBlank, Rule.opensAtMost_ite]
  exact
    ⟨fun _ => Rule.opensAtMost_warning _,
      fun _ => ⟨fun _ => Rule.opensAtMost_warning _, fun _ => trivial⟩⟩

@[simp] theorem opensAtMost_choiceHead :
    Rule.OpensAtMost (depth + 4) choiceHead := by
  simp [choiceHead]

@[simp] theorem opensAtMost_choiceParts :
    Rule.OpensAtMost (depth + 13) choiceParts := by
  simp [choiceParts]

@[simp] theorem opensAtMost_choiceOf
    (head : ChoiceHead)
    (parts : ChoiceText)
    (ending : Option (List NodeId)) :
    Rule.OpensAtMost depth (choiceOf head parts ending) := by
  simp [choiceOf]

@[simp] theorem opensAtMost_choice :
    Rule.OpensAtMost (depth + 13) choice := by
  simp [choice]

@[simp] theorem opensAtMost_gather :
    Rule.OpensAtMost (depth + 3) gather := by
  simp [gather]

end Choices

section Declarations

@[simp] theorem opensAtMost_declarationWord
    (word : String) :
    Rule.OpensAtMost (depth + 2) (declarationWord word) := by
  simp [declarationWord]

@[simp] theorem opensAtMost_variableDeclaration :
    Rule.OpensAtMost (depth + 2) variableDeclaration :=
  .barred (barred_declarationWord (by decide))
    (opensAtMost_declarationWord "VAR")

@[simp] theorem opensAtMost_constantDeclaration :
    Rule.OpensAtMost (depth + 2) constantDeclaration :=
  .barred (barred_declarationWord (by decide))
    (opensAtMost_declarationWord "CONST")

@[simp] theorem opensAtMost_elementValue :
    Rule.OpensAtMost (depth + 1) elementValue := by
  refine .bind (by simp) fun _ => .bind (by simp) ?_
  rintro (_ | number)
  · trivial
  · refine .bind (opensAtMost_kindOf number) fun kind => ?_
    split <;> simp

@[simp] theorem opensAtMost_closesEarly
    (selected : Bool) :
    Rule.OpensAtMost depth (closesEarly selected) := by
  simp [closesEarly]

@[simp] theorem opensAtMost_closesLate
    (isOpen : Bool) :
    Rule.OpensAtMost depth (closesLate isOpen) := by
  simp [closesLate]

@[simp] theorem opensAtMost_listElement :
    Rule.OpensAtMost (depth + 3) listElement := by
  simp [listElement]

@[simp] theorem opensAtMost_elementSeparator :
    Rule.OpensAtMost (depth + 3) elementSeparator := by
  simp [elementSeparator]

@[simp] theorem opensAtMost_listDefinition :
    Rule.OpensAtMost (depth + 5) listDefinition := by
  simp [listDefinition, Rule.OpensAtMost.separated]

@[simp] theorem opensAtMost_listDeclaration :
    Rule.OpensAtMost (depth + 6) listDeclaration := by
  simp [listDeclaration, Rule.OpensAtMost.expect]

@[simp] theorem opensAtMost_externalName :
    Rule.OpensAtMost (depth + 3) externalName := by
  refine .bind (by simp) ?_
  rintro (_ | name) <;> simp

@[simp] theorem opensAtMost_externalDeclaration :
    Rule.OpensAtMost (depth + 3) externalDeclaration := by
  simp [externalDeclaration, Rule.OpensAtMost.expect]

@[simp] theorem opensAtMost_reminder :
    Rule.OpensAtMost (depth + 2) reminder := by
  simp [reminder]

@[simp] theorem opensAtMost_includedStory
    (file : String) :
    Rule.OpensAtMost depth (includedStory file) := by
  refine .bind (by simp) fun found => ?_
  cases found <;> simp

@[simp] theorem opensAtMost_inclusion :
    Rule.OpensAtMost (depth + 1) inclusion := by
  refine .bind (by simp) fun _ => .bind (by simp) fun _ => .bind (by simp) fun _ =>
    .bind (by simp) ?_
  rintro (_ | written) <;> simp

@[simp] theorem opensAtMost_logicLine :
    Rule.OpensAtMost depth logicLine :=
  .bind opensAtMost_skipBlanks fun _ =>
    .barred (barred_literal (by decide)) trivial

end Declarations

section Flows

@[simp] theorem opensAtMost_knotMark :
    Rule.OpensAtMost depth knotMark := by
  simp [knotMark]

@[simp] theorem opensAtMost_optionalParameters :
    Rule.OpensAtMost (depth + 1) optionalParameters := by
  simp [optionalParameters]

@[simp] theorem opensAtMost_functionName :
    Rule.OpensAtMost (depth + 3) functionName := by
  simp [functionName, Rule.OpensAtMost.expect]

@[simp] theorem opensAtMost_knotName :
    Rule.OpensAtMost (depth + 3) knotName := by
  refine .bind (by simp) ?_
  rintro (_ | id) <;> simp

@[simp] theorem opensAtMost_requiredName
    (isFunction : Bool)
    (found : Option NodeId) :
    Rule.OpensAtMost depth (requiredName isFunction found) := by
  cases found <;> simp [requiredName]

@[simp] theorem opensAtMost_knotHeader :
    Rule.OpensAtMost (depth + 4) knotHeader := by
  simp [knotHeader]

@[simp] theorem opensAtMost_stitchKeyword :
    Rule.OpensAtMost depth stitchKeyword := by
  simp [stitchKeyword]

@[simp] theorem opensAtMost_stitchHeader :
    Rule.OpensAtMost (depth + 3) stitchHeader := by
  simp [stitchHeader]

@[simp] theorem opensAtMost_missingContent :
    Rule.OpensAtMost (depth + 6) missingContent := by
  simp [missingContent,
    Rule.opensAtMost_textUntil opensAtMost_knotHeader]

@[simp] theorem opensAtMost_flow
    (level : FlowLevel)
    (header : FlowHeader)
    (content : List NodeId) :
    Rule.OpensAtMost depth (flow level header content) := by
  simp [flow]

@[simp] theorem opensAtMost_isReturn
    (id : NodeId) :
    Rule.OpensAtMost depth (isReturn id) := by
  refine .bind (by simp) fun kind => ?_
  cases kind <;> simp

@[simp] theorem opensAtMost_skipUnexpected :
    Rule.OpensAtMost depth skipUnexpected := by
  simp [skipUnexpected]

end Flows

section Statements

theorem opensAtMost_breakRules
    (place : Place) :
    ∀ rule ∈ breakRules place, Rule.OpensAtMost (depth + 4) rule := by
  cases place <;> simp [breakRules, onlyIf, ignored]

@[simp] theorem opensAtMost_statementsEnd
    (place : Place) :
    Rule.OpensAtMost (depth + 6) (statementsEnd place) :=
  .bind opensAtMost_skipBlanks fun _ =>
    Rule.opensAtMost_oneOf (opensAtMost_breakRules place)

/-- The statements at a place open what lines do, or what the flows there do. -/
theorem opensAtMost_statementRules
    {place : Place}
    (knots :
      allowsKnots place = true → Rule.OpensAtMost (depth + 14) knot)
    (stitches :
      allowsStitches place = true → Rule.OpensAtMost (depth + 14) stitch) :
    ∀ rule ∈ statementRules place, Rule.OpensAtMost (depth + 14) rule := by
  cases place <;>
    simp_all [statementRules, onlyIf, allowsKnots, allowsStitches,
      allowsGathers, single]

/-- A run of statements opens one scope, with two for each statement inside. -/
theorem opensAtMost_statementRun
    {place : Place}
    (outside : place ≠ .block)
    (opens :
      ∀ rule ∈ statementRules place, Rule.OpensAtMost (depth + 14) rule) :
    Rule.OpensAtMost (depth + 18) (statementRun place) := by
  have isStatement : Rule.OpensAtMost (depth + 16) (statement place) :=
    .bind (Rule.opensAtMost_oneOf opens) fun nodes => by
      simp [opensAtMost_anyNode]
  have alternates :
      Rule.OpensAtMost (depth + 18)
        (Rule.alternateUntil (Rule.optionallyDropped blankLines)
          (do return .many (← statement place))
          (statementsEnd place)) :=
    Rule.opensAtMost_alternateUntil (by simp)
      (.bind isStatement fun _ => trivial) (opensAtMost_statementsEnd place)
  have isOutside : (place == .block) = false := by
    simpa using outside
  simp [statementRun, isOutside, alternates]

theorem opensAtMost_stitch :
    Rule.OpensAtMost (depth + 20) stitch := by
  have content :
      Rule.OpensAtMost (depth + 19) (statements .stitch) :=
    ⟨18, rfl, by omega⟩
  simp [stitch, content, Rule.OpensAtMost.expectOr]

theorem opensAtMost_knot :
    Rule.OpensAtMost (depth + 26) knot := by
  have content :
      Rule.OpensAtMost (depth + 25) (statements .knot) :=
    ⟨24, rfl, by omega⟩
  simp [knot, content, Rule.OpensAtMost.expectOr]

/-- Every construct opens as many scopes as are accounted for. -/
theorem opensAtMost_rule
    {construct : Construct α}
    (isDepth : depth ∈ construct.plainDepth?) :
    Rule.OpensAtMost depth (rule construct) := by
  cases construct with
  | expression weakerThan | operand =>
      cases isDepth
  | prose =>
      cases isDepth
      exact opensAtMost_mixedProse
  | statements place =>
      cases place with
      | block =>
          cases isDepth
      | stitch =>
          cases isDepth
          change Rule.OpensAtMost (0 + 18) (statementRun .stitch)
          refine opensAtMost_statementRun (by decide) ?_
          exact opensAtMost_statementRules nofun nofun
      | knot =>
          cases isDepth
          change Rule.OpensAtMost (6 + 18) (statementRun .knot)
          refine opensAtMost_statementRun (by decide) ?_
          exact opensAtMost_statementRules nofun fun _ => opensAtMost_stitch
      | top =>
          cases isDepth
          change Rule.OpensAtMost (12 + 18) (statementRun .top)
          refine opensAtMost_statementRun (by decide) ?_
          exact
            opensAtMost_statementRules (fun _ => opensAtMost_knot)
              fun _ => opensAtMost_stitch

/-- A script opens at most this many scopes inside each other. -/
theorem opensAtMost_script :
    Rule.OpensAtMost 31 script := by
  have content : Rule.OpensAtMost 31 (statements .top) :=
    ⟨30, rfl, by omega⟩
  simp [script, scriptContent, content]

end Statements

end InkSyntax.Grammar
