import InkSyntax.Proofs.Grammar.StatementTrees

namespace InkSyntax

/-!
# Rules only add nodes

A rule of the grammar leaves all nodes from before it alone, whether it matches or
fails, and the nodes that its value stands for are new.  So its scope gives spans
to new nodes only, and when it is undone the draft is what it was before.

What a rule is given, such as the left side of an operator, it may put below a new
node, but it does not look whether it is there.
-/

namespace Rule

variable {α β : Type}

/-- A rule leaves older nodes alone, and its value stands for new ones. -/
def Adds
    [StandsFor α]
    (rule : GrammarRule α) : Prop :=
  ∀ ⦃admits : Story → Prop⦄
    ⦃read : {γ : Type} → Construct γ → Action Workshop γ⦄
    ⦃include_ : String → Action Workshop Inclusion⦄,
    (∀ origin, Workshop.Supplies origin admits read include_) →
    ∀ machine : Machine Workshop,
      (rule.run (Workshop.handle read include_) machine).Guarantees
        (fun value after =>
          machine.Leads [] after ∧
            ∀ id ∈ StandsFor.nodes value,
              machine.host.draft.size ≤ id.index)
        (machine.Leads [])

/-- What a rule builds out of nothing is new. -/
theorem Builds.adds
    [StandsFor α]
    {rule : GrammarRule α}
    {gives : α → List NodeId}
    [names : Names gives]
    (builds : rule.Builds gives) :
    rule.Adds := by
  intro admits read include_ supplies machine
  have ran :=
    builds (supplies machine.cursor) machine machine.cursor.offset []
      (.refl _) (Nat.le_refl _) .nil
  refine ran.mono ?_ fun after leads => leads
  rintro value after ⟨proceeds, spares, found, holds, known⟩
  refine ⟨⟨proceeds, spares⟩, fun id member => ?_⟩
  have isFound := holds.forest.mem_of_root (names.subset value member)
  rcases known id isFound with old | made
  · cases old
  · exact made

/-- A rule that only asks adds nothing. -/
theorem Asks.adds
    {rule : GrammarRule α}
    (asks : rule.Asks []) :
    @Adds α instStandsFor rule := by
  have builds : rule.Builds fun _ => [] := asks.owns fun _ _ => Nat.le_refl _
  exact builds.adds

theorem Adds.bind
    [StandsFor α]
    [StandsFor β]
    {first : GrammarRule α}
    {next : α → GrammarRule β}
    (adds : first.Adds)
    (then_ : ∀ value, (next value).Adds) :
    (first >>= next).Adds := by
  intro admits read include_ supplies machine
  refine guarantees_bind.mpr ((adds supplies machine).mono ?_ ?_)
  · rintro value middle ⟨leads, -⟩
    refine (then_ value supplies middle).mono ?_ ?_
    · rintro result after ⟨leadsThen, made⟩
      refine ⟨leads.trans leadsThen, fun id member => ?_⟩
      exact Nat.le_trans leads.spares.size_le (made id member)
    · intro after leadsThen
      exact leads.trans leadsThen
  · intro after leads
    exact leads

/-- What comes after a rule and keeps its value. -/
theorem Adds.before
    [StandsFor α]
    {rule : GrammarRule α}
    {behind : GrammarRule β}
    (adds : rule.Adds)
    (asks : behind.Asks []) :
    (do
      let value ← rule
      let _ ← behind
      return value : GrammarRule α).Adds := by
  intro admits read include_ supplies machine
  refine guarantees_bind.mpr ((adds supplies machine).mono ?_ ?_)
  · rintro value middle ⟨leads, made⟩
    refine guarantees_bind.mpr ((asks.adds supplies middle).mono ?_ ?_)
    · rintro _ after ⟨leadsThen, -⟩
      exact ⟨leads.trans leadsThen, made⟩
    · intro after leadsThen
      exact leads.trans leadsThen
  · intro after leads
    exact leads

/-- A scope gives its span to new nodes only, or undoes what was added in it. -/
theorem Adds.parse
    [StandsFor α]
    {rule : GrammarRule α}
    (adds : rule.Adds) :
    (Rule.parse rule).Adds := by
  intro admits read include_ supplies machine
  refine guarantees_scope ((adds supplies machine.opened).mono ?_ ?_)
  · rintro value after ⟨leads, made⟩
    refine ⟨leads.proceeds, fun closed closes => ⟨⟨closes.toProceeds, ?_⟩, made⟩⟩
    rw [closes.host]
    refine leads.spares.trans (Draft.spares_setSpans _ _ _) ?_
    intro id member old
    exact absurd old (Nat.not_lt_of_le (made id member))
  · intro after leads
    refine ⟨leads.proceeds, fun closed undoes => ⟨undoes.toProceeds, ?_⟩⟩
    rw [draft_of_undoes leads undoes]
    exact .refl _ _

theorem adds_firstOf
    [StandsFor α]
    {rules : List (GrammarRule α)}
    (adds : ∀ rule ∈ rules, rule.Adds) :
    (Rule.oneOf.firstOf rules).Adds := by
  induction rules with
  | nil =>
      intro admits read include_ supplies machine
      exact .refl [] machine
  | cons rule others inductionHypothesis =>
      obtain ⟨addsRule, addsOthers⟩ := List.forall_mem_cons.mp adds
      intro admits read include_ supplies machine
      refine guarantees_bind.mpr (guarantees_attempt.mpr ?_)
      refine (addsRule.parse supplies machine).mono ?_ ?_
      · intro value after added
        exact added
      · intro middle leads
        have ran := inductionHypothesis addsOthers supplies middle
        refine ran.mono ?_ fun after leadsThen => leads.trans leadsThen
        rintro value after ⟨leadsThen, made⟩
        refine ⟨leads.trans leadsThen, fun id member => ?_⟩
        exact Nat.le_trans leads.spares.size_le (made id member)

/-- A rule that fails in a scope of its own leaves cursor, flags and draft as they were. -/
theorem Adds.restores
    [StandsFor α]
    {rule : GrammarRule α}
    (adds : rule.Adds)
    {admits : Story → Prop}
    {read : {γ : Type} → Construct γ → Action Workshop γ}
    {include_ : String → Action Workshop Inclusion}
    (supplies : ∀ origin, Workshop.Supplies origin admits read include_)
    (machine : Machine Workshop) :
    ((Rule.parse rule).run (Workshop.handle read include_)
        machine).Guarantees
      (fun _ _ => True)
      (fun after =>
        after.cursor = machine.cursor ∧
          after.top.flags = machine.top.flags ∧
          after.host.draft = machine.host.draft) := by
  refine guarantees_scope ((adds supplies machine.opened).mono ?_ ?_)
  · rintro value after ⟨leads, -⟩
    exact ⟨leads.proceeds, fun _ _ => trivial⟩
  · intro after leads
    refine ⟨leads.proceeds, fun closed undoes => ?_⟩
    exact ⟨undoes.closed_cursor, undoes.flags, draft_of_undoes leads undoes⟩

/-- A new node may have any children. -/
theorem adds_makeSpanning
    (kind : StoryKind) :
    (Rule.effect (.makeSpanning kind) : GrammarRule NodeId).Adds := by
  intro admits read include_ supplies machine
  refine ⟨⟨.work machine _, Draft.spares_add _ _ _⟩, fun id member => ?_⟩
  cases List.mem_singleton.mp member
  exact Nat.le_refl machine.host.draft.size

end Rule

namespace Grammar

theorem adds_rightSide
    (left : NodeId)
    (operator : Infix) :
    (rightSide left operator).Adds := by
  have right :
      (Rule.effect (.read (.expression operator.strength))).Builds
        fun id => [id] :=
    Rule.builds_construct (.expression operator.strength)
  refine .bind asks_skipBlanks.adds fun _ => ?_
  exact .bind right.parse.adds fun _ => Rule.adds_makeSpanning _

/-- The rules of the grammar.

Rules in blanks, rules for whole lines and choices are made from other rules.  Parts
of a rule that go on with nodes that it has just made are not rules of their own. -/
inductive IsRule : {α : Type} → [StandsFor α] → GrammarRule α → Prop where
  | spaced
      {α : Type} [StandsFor α] {rule : GrammarRule α}
      (isRule : IsRule rule) : IsRule (spaced rule)
  | wholeLine
      {α : Type} [StandsFor α] {rule : GrammarRule α}
      (isRule : IsRule rule) : IsRule (wholeLine rule)
  | oneOf
      {α : Type} [StandsFor α] {rules : List (GrammarRule α)}
      (areRules : ∀ rule ∈ rules, IsRule rule) : IsRule (Rule.oneOf rules)
  | literal (expected : String) : IsRule (Rule.literal expected)
  | blanks : IsRule blanks
  | lineEnd : IsRule lineEnd
  | textEnd : IsRule textEnd
  | endOfLine : IsRule endOfLine
  | blankLines : IsRule blankLines
  | skipBlankSpace : IsRule skipBlankSpace
  | restOfLine : IsRule restOfLine
  | skipLine : IsRule skipLine
  | name : IsRule name
  | dash : IsRule dash
  | dashes : IsRule dashes
  | identifier : IsRule identifier
  | label : IsRule label
  | keyword (word : String) : IsRule (keyword word)
  | callArguments : IsRule callArguments
  | parameter : IsRule parameter
  | parameters : IsRule parameters
  | optionalParameters : IsRule optionalParameters
  | arrow : IsRule arrow
  | targetPath : IsRule targetPath
  | target : IsRule target
  | thread : IsRule thread
  | diverts : IsRule diverts
  | singleDivert : IsRule singleDivert
  | textStop : IsRule textStop
  | plainText : IsRule plainText
  | text : IsRule text
  | glue : IsRule glue
  | tagStart : IsRule tagStart
  | openTag : IsRule openTag
  | proseEnding : IsRule proseEnding
  | prose : IsRule prose
  | mixedProse : IsRule mixedProse
  | proseLine : IsRule proseLine
  | notWord : IsRule notWord
  | infixOperator : IsRule infixOperator
  | sign : IsRule sign
  | divertValue : IsRule divertValue
  | floatLiteral : IsRule floatLiteral
  | intLiteral : IsRule intLiteral
  | boolLiteral : IsRule boolLiteral
  | stringLiteral : IsRule stringLiteral
  | literalValue : IsRule literalValue
  | functionCall : IsRule functionCall
  | reference : IsRule reference
  | parenthesised : IsRule parenthesised
  | listMember : IsRule listMember
  | listLiteral : IsRule listLiteral
  | bareOperand (sign : Option UnaryOp) : IsRule (bareOperand sign)
  | operand : IsRule operand
  | rightSide (left : NodeId) (operator : Infix) : IsRule (rightSide left operator)
  | expressionAbove (weakerThan : Nat) : IsRule (expressionAbove weakerThan)
  | expression : IsRule expression
  | symbolAnnotation : IsRule symbolAnnotation
  | sequenceWord : IsRule sequenceWord
  | wordAnnotation : IsRule wordAnnotation
  | sequenceAnnotation : IsRule sequenceAnnotation
  | barSeparated : IsRule barSeparated
  | inlineAlternatives : IsRule inlineAlternatives
  | dashedAlternative : IsRule dashedAlternative
  | dashedAlternatives : IsRule dashedAlternatives
  | alternatives : IsRule alternatives
  | unannotatedSequence : IsRule unannotatedSequence
  | elseMark : IsRule elseMark
  | condition : IsRule condition
  | inlineBranches : IsRule inlineBranches
  | dashedBranch : IsRule dashedBranch
  | dashedBranches : IsRule dashedBranches
  | undashedBranches : IsRule undashedBranches
  | blockBranches (subject : Option NodeId) : IsRule (blockBranches subject)
  | settledBranches (subject : Option NodeId) : IsRule (settledBranches subject)
  | branches (subject : Option NodeId) : IsRule (branches subject)
  | conditional : IsRule conditional
  | annotatedSequence (type : SequenceType) : IsRule (annotatedSequence type)
  | braceContent : IsRule braceContent
  | braces : IsRule braces
  | choiceMark : IsRule choiceMark
  | guardSpace : IsRule guardSpace
  | bullets (bullet : String) : IsRule (bullets bullet)
  | guardCondition : IsRule guardCondition
  | choiceGuard : IsRule choiceGuard
  | choiceText : IsRule choiceText
  | choice : IsRule choice
  | gather : IsRule gather
  | declarationWord (word : String) : IsRule (declarationWord word)
  | variableDeclaration : IsRule variableDeclaration
  | constantDeclaration : IsRule constantDeclaration
  | elementValue : IsRule elementValue
  | elementSeparator : IsRule elementSeparator
  | listElement : IsRule listElement
  | listDefinition : IsRule listDefinition
  | listDeclaration : IsRule listDeclaration
  | externalName : IsRule externalName
  | externalDeclaration : IsRule externalDeclaration
  | reminder : IsRule reminder
  | temporaryWord : IsRule temporaryWord
  | returnStatement : IsRule returnStatement
  | assignment : IsRule assignment
  | logicLine : IsRule logicLine
  | knotMark : IsRule knotMark
  | stitchKeyword : IsRule stitchKeyword
  | functionName : IsRule functionName
  | knotName : IsRule knotName
  | knotHeader : IsRule knotHeader
  | stitchHeader : IsRule stitchHeader
  | missingContent : IsRule missingContent
  | knot : IsRule knot
  | stitch : IsRule stitch
  | inclusion : IsRule inclusion
  | statement (place : Place) : IsRule (statement place)
  | statementRun (place : Place) : IsRule (statementRun place)
  | statementsEnd (place : Place) : IsRule (statementsEnd place)
  | statements (place : Place) : IsRule (statements place)
  | skipUnexpected : IsRule skipUnexpected
  | scriptContent : IsRule scriptContent
  | script : IsRule script

/-- Every rule of the grammar leaves older nodes alone. -/
theorem IsRule.adds
    {α : Type}
    [StandsFor α]
    {rule : GrammarRule α}
    (isRule : IsRule rule) :
    rule.Adds := by
  induction isRule with
  | spaced _ inductionHypothesis =>
      refine .bind asks_skipBlanks.adds fun _ => ?_
      exact inductionHypothesis.parse.before asks_skipBlanks
  | wholeLine _ inductionHypothesis =>
      exact inductionHypothesis.parse.before (by simp)
  | oneOf _ inductionHypothesis =>
      exact (Rule.adds_firstOf inductionHypothesis).parse
  | literal expected =>
      exact (Rule.asks_literal expected).adds
  | blanks =>
      exact asks_blanks.adds
  | lineEnd =>
      exact asks_lineEnd.adds
  | textEnd =>
      exact asks_textEnd.adds
  | endOfLine =>
      exact asks_endOfLine.adds
  | blankLines =>
      exact asks_blankLines.adds
  | skipBlankSpace =>
      exact asks_skipBlankSpace.adds
  | restOfLine =>
      exact asks_restOfLine.adds
  | skipLine =>
      exact asks_skipLine.adds
  | name =>
      exact asks_name.adds
  | dash =>
      exact asks_dash.adds
  | dashes =>
      exact asks_dashes.adds
  | identifier =>
      exact builds_identifier.adds
  | label =>
      exact builds_label.adds
  | keyword word =>
      exact (asks_keyword word).adds
  | callArguments =>
      exact builds_callArguments.adds
  | parameter =>
      exact asks_parameter.adds
  | parameters =>
      exact asks_parameters.adds
  | optionalParameters =>
      exact asks_optionalParameters.adds
  | arrow =>
      exact asks_arrow.adds
  | targetPath =>
      exact builds_targetPath.adds
  | target =>
      exact builds_target.adds
  | thread =>
      exact builds_thread.adds
  | diverts =>
      exact builds_diverts.adds
  | singleDivert =>
      exact builds_singleDivert.adds
  | textStop =>
      exact asks_textStop.adds
  | plainText =>
      exact asks_plainText.adds
  | text =>
      exact builds_text.adds
  | glue =>
      exact builds_glue.adds
  | tagStart =>
      exact builds_tagStart.adds
  | openTag =>
      exact builds_openTag.adds
  | proseEnding =>
      exact builds_proseEnding.adds
  | prose =>
      exact builds_prose.adds
  | mixedProse =>
      exact builds_mixedProse.adds
  | proseLine =>
      exact builds_proseLine.adds
  | notWord =>
      exact asks_notWord.adds
  | infixOperator =>
      exact asks_infixOperator.adds
  | sign =>
      exact asks_sign.adds
  | divertValue =>
      exact builds_divertValue.adds
  | floatLiteral =>
      exact builds_floatLiteral.adds
  | intLiteral =>
      exact builds_intLiteral.adds
  | boolLiteral =>
      exact builds_boolLiteral.adds
  | stringLiteral =>
      exact builds_stringLiteral.adds
  | literalValue =>
      exact builds_literalValue.adds
  | functionCall =>
      exact builds_functionCall.adds
  | reference =>
      exact builds_reference.adds
  | parenthesised =>
      exact builds_parenthesised.adds
  | listMember =>
      exact builds_listMember.adds
  | listLiteral =>
      exact builds_listLiteral.adds
  | bareOperand sign =>
      exact (builds_bareOperand sign).adds
  | operand =>
      exact builds_operand.adds
  | rightSide left operator =>
      exact adds_rightSide left operator
  | expressionAbove weakerThan =>
      exact (builds_expressionAbove weakerThan).adds
  | expression =>
      exact builds_expression.adds
  | symbolAnnotation =>
      exact asks_symbolAnnotation.adds
  | sequenceWord =>
      exact asks_sequenceWord.adds
  | wordAnnotation =>
      exact asks_wordAnnotation.adds
  | sequenceAnnotation =>
      exact asks_sequenceAnnotation.adds
  | barSeparated =>
      exact builds_barSeparated.adds
  | inlineAlternatives =>
      exact builds_inlineAlternatives.adds
  | dashedAlternative =>
      exact builds_dashedAlternative.adds
  | dashedAlternatives =>
      exact builds_dashedAlternatives.adds
  | alternatives =>
      exact builds_alternatives.adds
  | unannotatedSequence =>
      exact builds_unannotatedSequence.adds
  | elseMark =>
      exact asks_elseMark.adds
  | condition =>
      exact builds_condition.adds
  | inlineBranches =>
      exact builds_inlineBranches.adds
  | dashedBranch =>
      exact builds_dashedBranch.adds
  | dashedBranches =>
      exact builds_dashedBranches.adds
  | undashedBranches =>
      exact builds_undashedBranches.adds
  | blockBranches subject =>
      exact (builds_blockBranches subject).adds
  | settledBranches subject =>
      exact (builds_settledBranches subject).adds
  | branches subject =>
      exact (builds_branches subject).adds
  | conditional =>
      exact builds_conditional.adds
  | annotatedSequence type =>
      exact (builds_annotatedSequence type).adds
  | braceContent =>
      exact builds_braceContent.adds
  | braces =>
      exact builds_braces.adds
  | choiceMark =>
      exact asks_choiceMark.adds
  | guardSpace =>
      exact asks_guardSpace.adds
  | bullets bullet =>
      exact (asks_bullets bullet).adds
  | guardCondition =>
      exact builds_guardCondition.adds
  | choiceGuard =>
      exact builds_choiceGuard.adds
  | choiceText =>
      exact builds_choiceText.adds
  | choice =>
      exact builds_choice.adds
  | gather =>
      exact builds_gather.adds
  | declarationWord word =>
      exact (asks_declarationWord word).adds
  | variableDeclaration =>
      exact builds_variableDeclaration.adds
  | constantDeclaration =>
      exact builds_constantDeclaration.adds
  | elementValue =>
      exact builds_elementValue.adds
  | elementSeparator =>
      exact asks_elementSeparator.adds
  | listElement =>
      exact builds_listElement.adds
  | listDefinition =>
      exact builds_listDefinition.adds
  | listDeclaration =>
      exact builds_listDeclaration.adds
  | externalName =>
      exact builds_externalName.adds
  | externalDeclaration =>
      exact builds_externalDeclaration.adds
  | reminder =>
      exact builds_reminder.adds
  | temporaryWord =>
      exact asks_temporaryWord.adds
  | returnStatement =>
      exact builds_returnStatement.adds
  | assignment =>
      exact builds_assignment.adds
  | logicLine =>
      exact builds_logicLine.adds
  | knotMark =>
      exact asks_knotMark.adds
  | stitchKeyword =>
      exact asks_stitchKeyword.adds
  | functionName =>
      exact builds_functionName.adds
  | knotName =>
      exact builds_knotName.adds
  | knotHeader =>
      exact builds_knotHeader.adds
  | stitchHeader =>
      exact builds_stitchHeader.adds
  | missingContent =>
      exact builds_missingContent.adds
  | knot =>
      exact builds_knot.adds
  | stitch =>
      exact builds_stitch.adds
  | inclusion =>
      exact builds_inclusion.adds
  | statement place =>
      exact (builds_statement place).adds
  | statementRun place =>
      exact (builds_statementRun place).adds
  | statementsEnd place =>
      exact (builds_statementsEnd place).adds
  | statements place =>
      exact (builds_statements place).adds
  | skipUnexpected =>
      exact asks_skipUnexpected.adds
  | scriptContent =>
      exact builds_scriptContent.adds
  | script =>
      exact builds_script.adds

end Grammar

end InkSyntax
