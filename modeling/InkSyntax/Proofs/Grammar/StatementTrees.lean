import InkSyntax.Proofs.Grammar.ExpressionTrees

namespace InkSyntax.Grammar

/-!
# The trees that statements make

Choices, gathers, declarations, lines of logic, knots and whole scripts.  A script
gives one tree: its content is arranged into a weave and flows below one node.
-/

open Rule (attempt parse literal ifThere ofStep Names)

attribute [local simp] Covers NodeKind.children

variable {known : List NodeId}

section Choices

@[simp] theorem asks_bullets
    (bullet : String) :
    (bullets bullet).Asks known := by
  simp [bullets, Rule.asks_alternate]

@[simp] theorem asks_choiceMark :
    choiceMark.Asks known := by
  refine Rule.asks_bind.mpr ⟨by simp, fun found => ?_⟩
  split <;> simp

theorem builds_guardCondition :
    guardCondition.Builds fun id => [id] := by
  refine .ask (by simp) fun _ => ?_
  refine .then (builds_expression.expect _) fun found => ?_
  refine .ask (asks_refuseStep (by simp)) fun _ => ?_
  refine .ask (by simp) fun _ => ?_
  exact .pure (by simp)

@[simp] theorem asks_guardSpace :
    guardSpace.Asks known := by
  simp [guardSpace]

theorem builds_choiceGuard :
    choiceGuard.Builds fun id => [id] := by
  have conditions :
      (Rule.alternate (Rule.single guardCondition)
        (Rule.dropped guardSpace)).Builds fun ids => ids :=
    .alternateNodes builds_guardCondition.single (.dropped (by simp))
  refine .then conditions fun found => ?_
  split
  · exact .pure (by simp)
  · exact .make (by simp) (by simp)

theorem owns_closeTagIn
    (content : Option (List NodeId)) :
    (closeTagIn content).Owns (content.getD []) (·.getD []) := by
  cases content with
  | none =>
      refine .read (Rule.reads_setFlag _ _) fun _ => ?_
      exact .pure (by simp)
  | some content =>
      refine .then builds_closeTag fun markers => ?_
      exact .pure (by grind)

/-- All nodes in the parts of a choice. -/
def ChoiceText.nodes (parts : ChoiceText) : List NodeId :=
  parts.start.getD [] ++ parts.choiceOnly.getD [] ++ parts.inner.getD []

theorem builds_choiceText :
    choiceText.Builds ChoiceText.nodes := by
  refine .then builds_prose.triedNodes fun start => ?_
  refine .ask (by simp) fun hasBrackets => ?_
  split
  · refine .using [] (owns_closeTagIn start) (by simp) fun start => ?_
    refine .then builds_prose.triedNodes fun choiceOnly => ?_
    refine .ask (by simp) fun _ => ?_
    refine
      .using (start.getD []) (owns_closeTagIn choiceOnly) (by grind)
        fun choiceOnly => ?_
    refine .then builds_prose.triedNodes fun inner => ?_
    exact .pure (by grind [ChoiceText.nodes])
  · exact .pure (by simp [ChoiceText.nodes])

theorem owns_closeLastTag
    (parts : ChoiceText) :
    (closeLastTag parts).Owns parts.nodes ChoiceText.nodes := by
  unfold closeLastTag
  split
  next inner isInner =>
    refine
      .using (parts.start.getD [] ++ parts.choiceOnly.getD [])
        (owns_closeTagIn parts.inner) (by grind [ChoiceText.nodes]) fun inner => ?_
    exact .pure (by grind [ChoiceText.nodes])
  next =>
    refine
      .using (parts.choiceOnly.getD [] ++ parts.inner.getD [])
        (owns_closeTagIn parts.start) (by grind [ChoiceText.nodes]) fun start => ?_
    exact .pure (by grind [ChoiceText.nodes])

theorem builds_choiceParts :
    choiceParts.Builds fun (parts, ending) => parts.nodes ++ ending.getD [] := by
  refine .then builds_choiceText fun parts => ?_
  refine .ask (by simp) fun _ => ?_
  refine .using [] (owns_closeLastTag parts) (by simp) fun parts => ?_
  refine .then builds_diverts.triedNodes fun ending => ?_
  exact .pure (by grind)

theorem asks_isEmptyDivert
    {id : NodeId}
    (isKnown : id ∈ known) :
    (isEmptyDivert id).Asks known := by
  refine Rule.asks_bind.mpr ⟨asks_kindOf.mpr isKnown, fun kind => ?_⟩
  split <;> trivial

theorem owns_leadingDiverts
    (ids : List NodeId) :
    (leadingDiverts ids).Owns ids fun found => found := by
  induction ids with
  | nil =>
      exact .pure (by simp)
  | cons id others inductionHypothesis =>
      unfold leadingDiverts
      refine .using [id] inductionHypothesis (by grind) fun rest => ?_
      refine .ask (asks_isEmptyDivert (by simp)) fun isEmpty => ?_
      refine .pure ?_
      split <;> grind

theorem owns_contentListOf
    (content : Option (List NodeId)) :
    (contentListOf content).Owns (content.getD []) Option.toList := by
  cases content with
  | none =>
      exact .pure (by simp)
  | some content =>
      refine .bind (.make (by simp) (by simp)) fun list => ?_
      exact .pure (by simp)

@[simp] theorem asks_warnIfBlank
    (parts : ChoiceText)
    (hasDiverts : Bool) :
    (warnIfBlank parts hasDiverts).Asks known := by
  unfold warnIfBlank
  split
  · exact Rule.asks_warning _
  · split
    · exact Rule.asks_warning _
    · trivial

/-- The nodes of the head of a choice. -/
@[simp, grind =] def ChoiceHead.nodes (head : ChoiceHead) : List NodeId :=
  head.name.toList ++ head.condition.toList

theorem builds_choiceHead :
    choiceHead.Builds ChoiceHead.nodes := by
  refine .ask asks_choiceMark fun (depth, onceOnly) => ?_
  refine .then builds_label.triedNode fun name => ?_
  refine .ask (by simp) fun _ => ?_
  refine .then builds_choiceGuard.triedNode fun condition => ?_
  refine .ask (by simp) fun _ => ?_
  exact .pure (by grind)

theorem owns_choiceOf
    (head : ChoiceHead)
    (parts : ChoiceText)
    (ending : Option (List NodeId)) :
    (choiceOf head parts ending).Owns
      ((parts.nodes ++ ending.getD []) ++ head.nodes) fun id => [id] := by
  refine .ask (by simp) fun _ => ?_
  refine .ask (by simp) fun _ => ?_
  refine .then builds_closeTag fun markers => ?_
  refine
    .using (markers ++ parts.nodes ++ head.nodes)
      (owns_leadingDiverts (ending.getD [])) (by grind) fun leading => ?_
  refine .then (builds_makeText _) fun lineFeed => ?_
  let inner := parts.inner.getD [] ++ markers ++ leading ++ [lineFeed]
  refine
    .using (head.nodes ++ parts.choiceOnly.getD [] ++ inner)
      (owns_contentListOf parts.start) (by grind [ChoiceText.nodes]) fun start => ?_
  refine
    .using (start.toList ++ head.nodes ++ inner)
      (owns_contentListOf parts.choiceOnly) (by grind) fun choiceOnly => ?_
  refine
    .using (choiceOnly.toList ++ start.toList ++ head.nodes)
      (owns_contentListOf (some inner)) (by grind) fun innerContent => ?_
  exact .make (by grind [NodeKind.children]) (by simp)

theorem builds_choice :
    choice.Builds fun id => [id] := by
  refine .then builds_choiceHead fun head => ?_
  refine .read (Rule.reads_setInChoice true) fun _ => ?_
  refine .then builds_choiceParts fun (parts, ending) => ?_
  refine .read (Rule.reads_setInChoice false) fun _ => ?_
  rw [List.append_nil]
  exact owns_choiceOf head parts ending

theorem builds_gather :
    gather.Builds fun id => [id] := by
  refine .ask (by simp) fun depth => ?_
  refine .then builds_label.triedNode fun name => ?_
  refine .ask (by simp) fun _ => ?_
  exact .make (by simp) (by simp)

end Choices

section Declarations

theorem builds_initialValue
    {name : NodeId}
    {given : List NodeId}
    (isGiven : name ∈ given) :
    (initialValue name).Owns given fun value => value :: given := by
  refine .ask (asks_identifierName isGiven) fun written => ?_
  exact (builds_expression.expect _).frame given

theorem reads_refuseLogicIn
    {value : NodeId}
    (isKnown : value ∈ known) :
    (refuseLogicIn value).Reads known := by
  refine .bind (asks_kindOf.mpr isKnown).reads fun kind => ?_
  split
  · refine .bind (reads_isPlainString isKnown) fun isPlain => ?_
    apply Rule.Asks.reads
    split <;> simp
  · exact (Rule.asks_pure _).reads

theorem builds_variableDeclaration :
    variableDeclaration.Builds fun id => [id] := by
  refine .ask (by simp) fun _ => ?_
  refine .then (builds_identifier.expect _) fun name => ?_
  refine .ask (by simp) fun _ => ?_
  refine .ask (by simp) fun _ => ?_
  refine .ask (by simp) fun _ => ?_
  refine .bind (builds_initialValue (by simp)) fun value => ?_
  refine .ask (by simp) fun kind => ?_
  refine .remark (by simp) fun _ => ?_
  refine .ask (by simp) fun comma => ?_
  have made :
      (make (.assignment name (some value) true false)).Owns [value, name]
        fun id => [id] :=
    .make (by grind [NodeKind.children]) (by simp)
  split
  · exact .ask (by simp) fun _ => made
  · exact .read (reads_refuseLogicIn (by simp)) fun _ => made

theorem builds_constantDeclaration :
    constantDeclaration.Builds fun id => [id] := by
  refine .ask (by simp) fun _ => ?_
  refine .then (builds_identifier.expect _) fun name => ?_
  refine .ask (by simp) fun _ => ?_
  refine .ask (by simp) fun _ => ?_
  refine .ask (by simp) fun _ => ?_
  refine .bind (builds_initialValue (by simp)) fun value => ?_
  refine .ask (by simp) fun kind => ?_
  have made :
      (make (.constant name value)).Owns [value, name] fun id => [id] :=
    .make (by grind [NodeKind.children]) (by simp)
  split
  · exact .read (reads_refuseLogicIn (by simp)) fun _ => made
  · exact .ask (by simp) fun _ => made

/-- The number of an element is read off its node, which is dropped. -/
theorem builds_elementValue :
    elementValue.Builds fun _ => [] := by
  refine .ask (by simp) fun _ => ?_
  refine
    .then ((builds_intLiteral.expect _).attempt Option.toList rfl)
      fun found => ?_
  split
  · exact .pure (by simp)
  · refine .ask (by simp) fun kind => ?_
    split <;> exact .pure (by simp)

@[simp] theorem asks_closesEarly
    (selected : Bool) :
    (closesEarly selected).Asks known := by
  cases selected <;> simp [closesEarly]

@[simp] theorem asks_closesLate
    (isOpen : Bool) :
    (closesLate isOpen).Asks known := by
  cases isOpen <;> simp [closesLate]

theorem builds_listElement :
    listElement.Builds fun id => [id] := by
  refine .ask (by simp) fun selected => ?_
  refine .ask (by simp) fun _ => ?_
  refine .then builds_identifier.parse fun name => ?_
  refine .ask (by simp) fun _ => ?_
  refine .ask (by simp) fun closedEarly => ?_
  refine .ask (by simp) fun hasValue => ?_
  split
  · refine .then builds_elementValue fun value => ?_
    refine .ask (by simp) fun _ => ?_
    exact .make (by simp) (by simp)
  · refine .remark (by simp) fun _ => ?_
    exact .make (by simp) (by simp)

@[simp] theorem asks_elementSeparator :
    elementSeparator.Asks known := by
  simp [elementSeparator]

theorem builds_listDefinition :
    listDefinition.Builds fun id => [id] := by
  refine .ask (by simp) fun _ => ?_
  have elements :
      (Rule.separated listElement elementSeparator).Builds fun ids => ids := by
    simpa using builds_listElement.separated (by simp)
  refine .then elements fun found => ?_
  exact .make (by simp) (by simp)

theorem builds_listDeclaration :
    listDeclaration.Builds fun id => [id] := by
  refine .ask (by simp) fun _ => ?_
  refine .then (builds_identifier.expect _) fun name => ?_
  refine .ask (by simp) fun _ => ?_
  refine .ask (by simp) fun _ => ?_
  refine .ask (by simp) fun _ => ?_
  refine .then (builds_listDefinition.expect _) fun definition => ?_
  exact .make (by grind [NodeKind.children]) (by simp)

theorem builds_externalName :
    externalName.Builds fun id => [id] := by
  refine
    .then ((builds_identifier.expect _).attempt Option.toList rfl)
      fun found => ?_
  split
  · exact .pure (by simp)
  · exact builds_missingIdentifier

theorem builds_externalDeclaration :
    externalDeclaration.Builds fun id => [id] := by
  refine .ask (by simp) fun _ => ?_
  refine .then builds_externalName fun name => ?_
  refine .ask (by simp) fun _ => ?_
  refine .ask (asks_identifierName (by simp)) fun written => ?_
  refine .ask (by simp) fun found => ?_
  exact .make (by simp) (by simp)

theorem builds_reminder :
    reminder.Builds fun id => [id] := by
  refine .ask (by simp) fun _ => ?_
  refine .ask (by simp) fun _ => ?_
  refine .ask (by simp) fun _ => ?_
  refine .ask (by simp) fun written => ?_
  refine .ask (by simp) fun _ => ?_
  exact builds_leaf rfl (by simp)

end Declarations

section Logic

theorem builds_returnStatement :
    returnStatement.Builds fun id => [id] := by
  refine .ask (by simp) fun _ => ?_
  refine .ask (by simp) fun word => ?_
  refine .ask (by simp) fun _ => ?_
  refine .ask (by simp) fun _ => ?_
  refine .then builds_expression.triedNode fun value => ?_
  exact .make (by simp) (by simp)

@[simp] theorem asks_temporaryWord :
    temporaryWord.Asks known := by
  simp [temporaryWord]

theorem builds_assignedName
    (isTemporary : Bool) :
    (assignedName isTemporary).Builds fun id => [id] := by
  unfold assignedName
  split
  · exact builds_identifier.expect _
  · exact builds_identifier.parse

theorem owns_assignedValue
    (name : NodeId)
    (isTemporary isIncrement isDecrement : Bool) :
    (assignedValue name isTemporary isIncrement isDecrement).Owns [name]
      fun id => [id] := by
  refine .ask (by simp) fun isAssigned => ?_
  split
  · refine
      .then ((builds_expression.expect _).attempt Option.toList rfl)
        fun value => ?_
    split <;> exact .make (by grind [NodeKind.children]) (by simp)
  · refine .remark (by simp) fun _ => ?_
    exact .fail

theorem builds_assignment :
    assignment.Builds fun id => [id] := by
  refine .ask (by simp) fun _ => ?_
  refine .ask (by simp) fun temporary => ?_
  refine .ask (by simp) fun _ => ?_
  refine .then (builds_assignedName _) fun name => ?_
  refine .ask (by simp) fun _ => ?_
  refine .ask (by simp) fun isIncrement => ?_
  refine .ask (by simp) fun isDecrement => ?_
  refine .remark (by simp) fun _ => ?_
  exact owns_assignedValue _ _ _ _

theorem asks_containsCall
    {id : NodeId}
    (isKnown : id ∈ known) :
    (containsCall id).Asks known := by
  simp [containsCall, isKnown]

theorem reads_refuseIdle
    {id : NodeId}
    (isKnown : id ∈ known) :
    (refuseIdle id).Reads known := by
  refine .kindOf isKnown fun kind => ?_
  apply Rule.Asks.reads
  split
  · trivial
  · trivial
  next only =>
    refine Rule.asks_bind.mpr ⟨asks_identifierName (by simp), fun name => ?_⟩
    split <;> exact Rule.asks_error _
  · split
    · exact Rule.asks_error _
    · trivial

theorem owns_withPrintedLine
    (id : NodeId) :
    (withPrintedLine id).Owns [id] fun output => [output] := by
  refine .ask (asks_containsCall (by simp)) fun calls => ?_
  split
  · refine .then (builds_makeText _) fun lineFeed => ?_
    exact .make (by grind [NodeKind.children]) (by simp)
  · exact .pure (by simp)

theorem builds_logicLine :
    logicLine.Builds fun ids => ids := by
  refine .ask (by simp) fun _ => ?_
  refine .ask (by simp) fun _ => ?_
  refine .ask (by simp) fun _ => ?_
  have logic :
      (Rule.oneOf [returnStatement, assignment, expression]).Builds
        fun id => [id] := by
    apply Rule.Builds.oneOf
    simp [builds_returnStatement, builds_assignment, builds_expression]
  refine .then logic.triedNode fun found => ?_
  split
  · refine .ask (by simp) fun _ => ?_
    refine .ask (by simp) fun _ => ?_
    refine .then (builds_leaf rfl (by simp)) fun empty => ?_
    exact .pure (by simp)
  next id =>
    refine .read (reads_refuseIdle (by simp)) fun _ => ?_
    refine .bind (.amend (by simp) (by simp)) fun _ => ?_
    refine .using [] (owns_withPrintedLine id) (by simp) fun output => ?_
    refine .ask (by simp) fun _ => ?_
    exact .pure (by simp)

end Logic

section Flows

theorem builds_functionName :
    functionName.Builds Option.toList := by
  refine .ask (by simp) fun _ => ?_
  exact builds_identifier.triedNode

theorem builds_knotName :
    knotName.Builds fun (_, found) => found.toList := by
  refine .then builds_identifier.triedNode fun found => ?_
  split
  next id =>
    refine .ask (asks_identifierName (by simp)) fun word => ?_
    split
    · refine .then builds_functionName fun name => ?_
      exact .pure (by grind)
    · exact .pure (by simp)
  next =>
    exact .pure (by simp)

theorem owns_requiredName
    (isFunction : Bool)
    (found : Option NodeId) :
    (requiredName isFunction found).Owns found.toList fun id => [id] := by
  cases found with
  | none =>
      refine .ask (by simp [Rule.error]) fun _ => ?_
      exact builds_missingIdentifier
  | some name =>
      exact .pure (by simp)

/-- The node of a header. -/
def FlowHeader.nodes (header : FlowHeader) : List NodeId :=
  [header.name]

theorem builds_knotHeader :
    knotHeader.Builds FlowHeader.nodes := by
  refine .ask (by simp) fun _ => ?_
  refine .ask (by simp) fun _ => ?_
  refine .ask (by simp) fun _ => ?_
  refine .then builds_knotName fun (isFunction, found) => ?_
  refine .using [] (owns_requiredName isFunction found) (by simp) fun name => ?_
  refine .ask (by simp) fun parameters => ?_
  refine .ask (by simp) fun _ => ?_
  exact .pure (by simp [FlowHeader.nodes])

theorem builds_stitchHeader :
    stitchHeader.Builds FlowHeader.nodes := by
  refine .ask (by simp) fun _ => ?_
  refine .ask (by simp) fun _ => ?_
  refine .ask (by simp) fun isKnot => ?_
  split
  · exact .fail
  · refine .ask (by simp) fun _ => ?_
    refine .ask (by simp) fun isFunction => ?_
    refine .then builds_identifier.parse fun name => ?_
    refine .ask (by simp) fun parameters => ?_
    exact .pure (by simp [FlowHeader.nodes])

theorem builds_missingContent :
    missingContent.Builds fun ids => ids := by
  refine .read (.attempt (.textUntil builds_knotHeader.reads_peek)) fun _ => ?_
  refine .then (builds_makeText _) fun content => ?_
  exact .pure (by simp)

theorem owns_flow
    (level : FlowLevel)
    (header : FlowHeader)
    (content : List NodeId) :
    (flow level header content).Owns (header.name :: content)
      fun id => [id] := by
  refine .using [header.name] (.weave content) (by grind) fun woven => ?_
  exact .make (by grind [NodeKind.children]) (by simp)

theorem builds_knot :
    knot.Builds fun id => [id] := by
  refine .then builds_knotHeader.parse fun header => ?_
  refine .ask (by simp) fun _ => ?_
  refine
    .then ((builds_statements .knot).expectOr builds_missingContent _)
      fun content => ?_
  exact
    (owns_flow .knot header content).weaken (by grind [FlowHeader.nodes])
      fun _ _ => Nat.le_refl _

theorem builds_stitch :
    stitch.Builds fun id => [id] := by
  refine .then builds_stitchHeader.parse fun header => ?_
  refine .ask (by simp) fun _ => ?_
  refine
    .then ((builds_statements .stitch).expectOr builds_missingContent _)
      fun content => ?_
  exact
    (owns_flow .stitch header content).weaken (by grind [FlowHeader.nodes])
      fun _ _ => Nat.le_refl _

end Flows

section Inclusions

/-- An included story is one that reading files may give. -/
theorem builds_includedFile
    {file : String}
    (unbroken : Unbroken file) :
    (do make (.includedFile (← includedStory file))).Builds
      fun id => [id] := by
  refine Rule.owns_assoc.mpr ?_
  intro origin admits read include_ supplies machine low nodes reaches low_le
    holds
  refine Rule.guarantees_bind.mpr ?_
  refine (supplies.include_ file machine unbroken).mono ?_ ?_
  · intro inclusion middle ⟨proceeds, same, admitted⟩
    have further : low ≤ middle.cursor.offset :=
      Nat.le_trans low_le proceeds.cursor.offset_le
    have holdsMiddle :
        middle.host.draft.Holds origin admits low middle.cursor.offset []
          nodes := by
      rw [same]
      exact holds.mono (Nat.le_refl _) proceeds.cursor.offset_le
    have without
        {remark : GrammarRule Unit}
        (asks : remark.Asks []) :
        ((remark >>= fun _ => Pure.pure none) >>= fun found =>
          make (.includedFile found)).Builds fun id => [id] :=
      Rule.owns_assoc.mpr
        (.ask asks fun _ => builds_leaf rfl (by simp))
    have resumed
        {rule : GrammarRule NodeId}
        (builds : rule.Builds fun id => [id]) :
        (rule.run (Workshop.handle read include_) middle).Guarantees
          (fun id after =>
            machine.Proceeds after ∧
              Draft.Gains origin admits low after.cursor.offset nodes
                machine.host.draft after.host.draft [id])
          (machine.Leads nodes) := by
      have ran :=
        builds supplies middle low nodes (reaches.trans proceeds.cursor) further
          holdsMiddle
      rw [same] at ran
      refine ran.mono ?_ ?_
      · rintro id after ⟨proceedsThen, gains⟩
        exact ⟨proceeds.trans proceedsThen, gains⟩
      · rintro after ⟨proceedsThen, spares⟩
        rw [same] at spares
        exact ⟨proceeds.trans proceedsThen, spares⟩
    cases inclusion with
    | story story =>
        have gains :
            Draft.Gains origin admits low middle.cursor.offset nodes
              machine.host.draft
              (middle.host.draft.add (.includedFile (some story))).2
              [(middle.host.draft.add (.includedFile (some story))).1] := by
          rw [← same]
          exact
            Draft.Holds.gains_add holdsMiddle
              (by simpa using admitted story rfl) (by simp)
        exact ⟨proceeds.trans (.work middle _), gains⟩
    | recursive path =>
        exact resumed (without (by simp))
    | missing =>
        exact resumed (without (by simp))
  · intro after leads
    exact leads.mono (List.nil_subset _)

theorem builds_inclusion :
    inclusion.Builds fun id => [id] := by
  refine .ask (by simp) fun _ => ?_
  refine .ask (by simp) fun _ => ?_
  refine .ask (by simp) fun _ => ?_
  refine
    .askKnowing (yields_restOfLine.expect _).attempt (by simp)
      fun written unbroken => ?_
  split
  · exact builds_leaf rfl (by simp)
  next written =>
    exact builds_includedFile (unbroken_trimEnd (unbroken written rfl))

end Inclusions

section Statements

variable {place : Place}

theorem builds_single
    {rule : GrammarRule NodeId}
    (builds : rule.Builds fun id => [id]) :
    (single rule).Builds fun ids => ids :=
  .then builds fun id => .pure (by simp)

theorem mem_onlyIf
    {α : Type 1}
    {applies : Bool}
    {rule only : α} :
    rule ∈ onlyIf applies only ↔ applies = true ∧ rule = only := by
  cases applies <;> simp [onlyIf]

theorem builds_statementRules
    (place : Place)
    {rule : GrammarRule (List NodeId)}
    (member : rule ∈ statementRules place) :
    rule.Builds fun ids => ids := by
  simp only [statementRules, List.mem_append, List.mem_map, List.mem_cons,
    List.not_mem_nil, or_false, mem_onlyIf] at member
  rcases member with
    (((((rfl | ⟨-, rfl⟩) | rfl | rfl) | ⟨-, rfl⟩) | ⟨-, rfl⟩) |
      ⟨line, isLine, rfl⟩) | rfl | rfl
  · exact builds_wholeLine builds_diverts
  · exact builds_single builds_knot
  · exact builds_single (builds_wholeLine builds_choice)
  · exact builds_single (builds_wholeLine builds_reminder)
  · exact builds_single builds_gather
  · exact builds_single builds_stitch
  · apply builds_single (builds_wholeLine _)
    rcases isLine with rfl | rfl | rfl | rfl | rfl
    · exact builds_listDeclaration
    · exact builds_variableDeclaration
    · exact builds_constantDeclaration
    · exact builds_externalDeclaration
    · exact builds_inclusion
  · exact builds_logicLine
  · exact builds_proseLine

theorem asks_isReturn
    {id : NodeId}
    (isKnown : id ∈ known) :
    (isReturn id).Asks known := by
  refine Rule.asks_bind.mpr ⟨asks_kindOf.mpr isKnown, fun kind => ?_⟩
  split <;> trivial

theorem builds_statement
    (place : Place) :
    (statement place).Builds fun ids => ids := by
  have anyStatement :
      (Rule.oneOf (statementRules place)).Builds fun ids => ids :=
    .oneOf fun rule member => builds_statementRules place member
  refine .then anyStatement fun nodes => ?_
  extract_lets rest
  have ends (value : Unit) : (rest value).Owns nodes fun ids => ids :=
    .pure (by simp)
  rw [List.append_nil]
  split
  · refine .ask (asks_anyNode fun id member => asks_isReturn member) fun returns => ?_
    exact .remark (by simp) ends
  · exact ends ()

theorem builds_ignored
    {α : Type}
    {rule : GrammarRule α}
    {gives : α → List NodeId}
    (builds : rule.Builds gives) :
    (ignored rule).Builds fun _ => [] :=
  .then builds fun _ => .pure (by simp)

theorem builds_statementsEnd
    (place : Place) :
    (statementsEnd place).Builds fun _ => [] := by
  refine .ask (by simp) fun _ => ?_
  apply Rule.Builds.oneOf
  intro rule member
  simp only [breakRules, List.mem_append, mem_onlyIf] at member
  rcases member with (⟨-, rfl⟩ | ⟨-, rfl⟩) | inBlock
  · exact builds_ignored builds_knotHeader
  · exact builds_ignored builds_stitchHeader
  · split at inBlock
    · simp only [List.mem_cons, List.not_mem_nil, or_false] at inBlock
      rcases inBlock with rfl | rfl
      · exact (Rule.Asks.owns asks_dash (by simp))
      · exact (Rule.Asks.owns (Rule.asks_literal _) (by simp))
    · cases inBlock

theorem builds_statementRun
    (place : Place) :
    (statementRun place).Builds fun ids => ids := by
  have many :
      (do return .many (← statement place) : GrammarRule (Step NodeId)).Builds
        (ofStep fun id => [id]) :=
    .then (builds_statement place) fun ids => .pure (by simp [Step.values])
  have run :
      (Rule.alternateUntil (Rule.optionallyDropped blankLines)
        (do return .many (← statement place)) (statementsEnd place)).Builds
          fun ids => ids := by
    simpa using
      Rule.Builds.alternateUntil (.optionallyDropped (by simp)) many
        fun _ => (builds_statementsEnd place).reads_peek
  unfold statementRun
  extract_lets rest
  split
  · refine .ask (by simp) fun dashed => ?_
    exact .remark (by simp [Rule.error]) fun _ => run
  · exact run

end Statements

section Scripts

/-- The rule of each construct gives the nodes of the construct. -/
theorem builds_rule
    {α : Type}
    (construct : Construct α) :
    (rule construct).Builds construct.nodes := by
  cases construct with
  | expression weakerThan =>
      exact builds_expressionAbove weakerThan
  | operand =>
      exact builds_operand
  | prose =>
      exact builds_mixedProse
  | statements place =>
      exact builds_statementRun place

@[simp] theorem asks_skipUnexpected :
    skipUnexpected.Asks known := by
  simp [skipUnexpected]

theorem builds_scriptContent :
    scriptContent.Builds fun ids => ids := by
  have statementsTried :
      (attempt (statements .top)).Builds (·.getD []) :=
    (builds_statements .top).attempt _ rfl
  refine .then statementsTried fun first => ?_
  rw [List.append_nil]
  refine .loop (fun content => content) (fun content => ?_) (first.getD [])
  refine .ask (by simp) fun _ => ?_
  refine .ask (by simp) fun isEnd => ?_
  split
  · exact .pure (by simp)
  · refine .ask (by simp) fun _ => ?_
    refine .then statementsTried fun more => ?_
    exact .pure (by grind)

theorem builds_script :
    script.Builds fun id => [id] := by
  refine .then builds_scriptContent fun content => ?_
  rw [List.append_nil]
  refine .bind (.weave content) fun woven => ?_
  exact .make (by simp) (by simp)

end Scripts

end InkSyntax.Grammar
