import InkSyntax.Proofs.Grammar.CastExpressions
import InkSyntax.Proofs.Grammar.StatementTrees

namespace InkSyntax.Grammar

/-!
# The roles in statements

Gathers and flows are made only where their place allows them; everything else may
stand anywhere among text.  A choice is made with an inner list that a line feed
ends, and with a depth that counts one bullet at least.
-/

open Rule (attempt parse literal ifThere ofStep NamesParts)

attribute [local simp] Covers NodeKind.parts

variable {known : List NodeId}

section Choices

theorem casts_guardCondition :
    guardCondition.Casts [] fun id => [(id, .expression)] := by
  refine .ask (by simp) fun _ => ?_
  refine .then (casts_expression.expect _) fun found => ?_
  refine .ask (asks_refuseStep (by simp)) fun _ => ?_
  refine .ask (by simp) fun _ => ?_
  exact .pure (by simp)

theorem casts_choiceGuard :
    choiceGuard.Casts [] fun id => [(id, .expression)] := by
  have conditions :
      (Rule.alternate (Rule.single guardCondition)
        (Rule.dropped guardSpace)).Casts [] Role.expression.parts :=
    .alternateNodes casts_guardCondition.single (.dropped (by simp))
  refine .then conditions fun found => ?_
  split
  · exact .pure (by simp)
  · exact .make ⟨rfl, .inr trivial⟩ (by simp [Role.demands])

theorem casts_closeTagIn
    (content : Option (List NodeId)) :
    (closeTagIn content).Casts (Role.content.parts (content.getD []))
      fun found => Role.content.parts (found.getD []) := by
  cases content with
  | none =>
      refine .read (Rule.reads_setFlag _ _) fun _ => ?_
      exact .pure (by simp)
  | some content =>
      refine .then casts_closeTag fun markers => ?_
      exact .pure (by simp; omega)

/-- All nodes in the parts of a choice, as content. -/
def ChoiceText.parts (text : ChoiceText) : List Part :=
  Role.content.parts text.nodes

theorem casts_choiceText :
    choiceText.Casts [] ChoiceText.parts := by
  refine .then casts_prose.triedNodes fun start => ?_
  refine .ask (by simp) fun hasBrackets => ?_
  split
  · refine .using [] (casts_closeTagIn start) (by simp) fun start => ?_
    refine .then casts_prose.triedNodes fun choiceOnly => ?_
    refine .ask (by simp) fun _ => ?_
    refine
      .using (Role.content.parts (start.getD [])) (casts_closeTagIn choiceOnly)
        (by simp) fun choiceOnly => ?_
    refine .then casts_prose.triedNodes fun inner => ?_
    exact .pure (by simp [ChoiceText.parts, ChoiceText.nodes]; omega)
  · exact .pure (by simp [ChoiceText.parts, ChoiceText.nodes])

theorem casts_closeLastTag
    (text : ChoiceText) :
    (closeLastTag text).Casts text.parts ChoiceText.parts := by
  unfold closeLastTag
  split
  next inner isInner =>
    refine
      .using (Role.content.parts (text.start.getD [] ++ text.choiceOnly.getD []))
        (casts_closeTagIn text.inner)
        (by simp [ChoiceText.parts, ChoiceText.nodes]; omega) fun inner => ?_
    exact .pure (by simp [ChoiceText.parts, ChoiceText.nodes]; omega)
  next =>
    refine
      .using (Role.content.parts (text.choiceOnly.getD [] ++ text.inner.getD []))
        (casts_closeTagIn text.start)
        (by simp [ChoiceText.parts, ChoiceText.nodes]) fun start => ?_
    exact .pure (by simp [ChoiceText.parts, ChoiceText.nodes])

theorem casts_choiceParts :
    choiceParts.Casts []
      fun (text, ending) => text.parts ++ Role.content.parts (ending.getD []) := by
  refine .then casts_choiceText fun text => ?_
  refine .ask (by simp) fun _ => ?_
  refine .using [] (casts_closeLastTag text) (by simp) fun text => ?_
  refine .then casts_diverts.triedNodes fun ending => ?_
  exact .pure (by simp; omega)

theorem casts_leadingDiverts
    (ids : List NodeId) :
    (leadingDiverts ids).Casts (Role.content.parts ids) Role.content.parts := by
  induction ids with
  | nil =>
      exact .pure (by simp)
  | cons id others inductionHypothesis =>
      unfold leadingDiverts
      refine
        .using [(id, .content)] inductionHypothesis (by simp [List.count_cons])
          fun rest => ?_
      refine .ask (asks_isEmptyDivert (by simp)) fun isEmpty => ?_
      refine .pure ?_
      split <;> simp [List.count_cons]

theorem casts_contentListOf
    (content : Option (List NodeId)) :
    (contentListOf content).Casts (Role.content.parts (content.getD []))
      fun found => Role.list.parts found.toList := by
  cases content with
  | none =>
      exact .pure (by simp)
  | some content =>
      refine .bind (casts_contentList content) fun list => ?_
      exact .pure (by simp)

/-- A content list that a line feed ends. -/
theorem casts_line
    (content : List NodeId)
    (lineFeed : NodeId) :
    (make (.contentList (content ++ [lineFeed]))).Casts
      ((lineFeed, .lineFeed) :: Role.content.parts content)
      fun id => [(id, .line)] :=
  .make ⟨by simp [Role.suits], .inr trivial⟩
    (by simp [Role.demands, List.count_cons])

/-- The parts of the head of a choice. -/
@[simp] def ChoiceHead.parts (head : ChoiceHead) : List Part :=
  Role.identifier.parts head.name.toList ++
    Role.expression.parts head.condition.toList

theorem casts_choiceHead :
    choiceHead.Casts [] ChoiceHead.parts := by
  refine .ask asks_choiceMark fun (depth, onceOnly) => ?_
  refine .then casts_label.triedNode fun name => ?_
  refine .ask (by simp) fun _ => ?_
  refine .then casts_choiceGuard.triedNode fun condition => ?_
  refine .ask (by simp) fun _ => ?_
  exact .pure (by simp; omega)

theorem yields_bullets
    (bullet : String) :
    (bullets bullet).Yields (1 ≤ ·) :=
  .bind (Rule.yields_alternate _ _) fun _ notEmpty =>
    .pure (List.length_pos_of_ne_nil notEmpty)

/-- One bullet at least marks a choice. -/
theorem yields_choiceMark :
    choiceMark.Yields fun (depth, _) => 1 ≤ depth := by
  refine .bind (yields_bullets "*").attempt fun found counts => ?_
  split
  next depth =>
    exact .pure (counts depth rfl)
  next =>
    exact .bind (yields_bullets "+") fun depth counts => .pure counts

theorem yields_choiceHead :
    choiceHead.Yields fun head => 1 ≤ head.depth :=
  .bind yields_choiceMark fun _ counts => .behind fun _ => .behind fun _ =>
    .behind fun _ => .behind fun _ => .pure counts

theorem casts_choiceOf
    {head : ChoiceHead}
    (counts : 1 ≤ head.depth)
    (text : ChoiceText)
    (ending : Option (List NodeId)) :
    (choiceOf head text ending).Casts
      ((text.parts ++ Role.content.parts (ending.getD [])) ++ head.parts)
      fun id => [(id, .content)] := by
  refine .ask (by simp) fun _ => ?_
  refine .ask (by simp) fun _ => ?_
  refine .then casts_closeTag fun markers => ?_
  refine
    .using (Role.content.parts markers ++ text.parts ++ head.parts)
      (casts_leadingDiverts (ending.getD [])) (by simp; omega) fun leading => ?_
  have lineFeed : (makeText "\n").Casts [] fun id => [(id, .lineFeed)] :=
    casts_leaf ⟨rfl, .inr trivial⟩ rfl
  refine .then lineFeed fun lineFeed => ?_
  let inner := text.inner.getD [] ++ markers ++ leading
  let innerParts := (lineFeed, Role.lineFeed) :: Role.content.parts inner
  refine
    .using (head.parts ++ Role.content.parts (text.choiceOnly.getD []) ++ innerParts)
      (casts_contentListOf text.start)
      (by simp [innerParts, inner, ChoiceText.parts, ChoiceText.nodes, List.count_cons]; omega)
      fun start => ?_
  refine
    .using (Role.list.parts start.toList ++ head.parts ++ innerParts)
      (casts_contentListOf text.choiceOnly) (by simp; omega) fun choiceOnly => ?_
  refine Rule.casts_assoc.mpr ?_
  refine
    .using
      (Role.list.parts choiceOnly.toList ++ Role.list.parts start.toList ++ head.parts)
      (casts_line inner lineFeed)
      (by simp [innerParts, List.count_cons]; omega) fun innerContent => ?_
  refine .certain ?_
  exact
    .make ⟨rfl, .inr ⟨counts, by simp⟩⟩
      (by simp [Role.demands, List.count_cons]; omega)

theorem casts_choice :
    choice.Casts [] fun id => [(id, .content)] := by
  refine .thenKnowing yields_choiceHead casts_choiceHead fun head counts => ?_
  refine .read (Rule.reads_setInChoice true) fun _ => ?_
  refine .then casts_choiceParts fun (text, ending) => ?_
  refine .read (Rule.reads_setInChoice false) fun _ => ?_
  rw [List.append_nil]
  exact casts_choiceOf counts text ending

theorem yields_dashes :
    dashes.Yields (1 ≤ ·) := by
  refine .behind fun _ => .behind fun count => ?_
  refine .bind (Rule.yields_require _) fun _ isCount => .pure ?_
  have notZero : count ≠ 0 := by simpa using isCount
  exact Nat.pos_of_ne_zero notZero

/-- A gather stands where its place allows gathers. -/
theorem casts_gather
    {place : Place}
    (isAllowed : allowsGathers place = true) :
    gather.Casts [] fun id => [(id, .statement place)] := by
  refine .askKnowing yields_dashes.parse (by simp) fun depth counts => ?_
  refine .then casts_label.triedNode fun name => ?_
  refine .ask (by simp) fun _ => ?_
  exact .make ⟨isAllowed, .inr counts⟩ (by simp [Role.demands])

end Choices

section Declarations

theorem casts_initialValue
    {name : NodeId}
    {given : List Part}
    (isGiven : name ∈ given.map Prod.fst) :
    (initialValue name).Casts given fun value => (value, .expression) :: given := by
  refine .ask (asks_identifierName isGiven) fun written => ?_
  exact (casts_expression.expect _).frame given

/-- A variable is made from its name and its value. -/
theorem casts_variable
    {role : Role}
    (serves : role.Serves .value)
    (name value : NodeId)
    (isGlobal isTemporary : Bool) :
    (make (.assignment name (some value) isGlobal isTemporary)).Casts
      [(value, role), (name, .identifier)] fun id => [(id, .content)] :=
  .offerNode .value
    (.make ⟨rfl, .inr trivial⟩
      (by simp [Role.demands, List.count_cons, Nat.add_comm]))
    serves

theorem casts_variableDeclaration :
    variableDeclaration.Casts [] fun id => [(id, .content)] := by
  refine .ask (by simp) fun _ => ?_
  refine .then (casts_identifier.expect _) fun name => ?_
  refine .ask (by simp) fun _ => ?_
  refine .ask (by simp) fun _ => ?_
  refine .ask (by simp) fun _ => ?_
  refine .bind (casts_initialValue (by simp)) fun value => ?_
  refine .ask (by simp) fun kind => ?_
  refine .remark (by simp) fun _ => ?_
  refine .ask (by simp) fun comma => ?_
  have made := casts_variable .expression_value name value true false
  split
  · exact .ask (by simp) fun _ => made
  · exact .read (reads_refuseLogicIn (by simp)) fun _ => made

theorem casts_constantDeclaration :
    constantDeclaration.Casts [] fun id => [(id, .content)] := by
  refine .ask (by simp) fun _ => ?_
  refine .then (casts_identifier.expect _) fun name => ?_
  refine .ask (by simp) fun _ => ?_
  refine .ask (by simp) fun _ => ?_
  refine .ask (by simp) fun _ => ?_
  refine .bind (casts_initialValue (by simp)) fun value => ?_
  refine .ask (by simp) fun kind => ?_
  have made :
      (make (.constant name value)).Casts
        [(value, .expression), (name, .identifier)]
        fun id => [(id, .content)] :=
    .make ⟨rfl, .inr trivial⟩
      (by simp [Role.demands, List.count_cons, Nat.add_comm])
  split
  · exact .read (reads_refuseLogicIn (by simp)) fun _ => made
  · exact .ask (by simp) fun _ => made

/-- The number of an element is read off its node, which is dropped. -/
theorem casts_elementValue :
    elementValue.Casts [] fun _ => [] := by
  refine .ask (by simp) fun _ => ?_
  refine
    .then
      ((casts_intLiteral.expect _).attempt
        (fun found => Role.expression.parts found.toList) rfl)
      fun found => ?_
  split
  · exact .pure (by simp)
  · refine .ask (by simp) fun kind => ?_
    split <;> exact .pure (by simp)

theorem casts_listElement :
    listElement.Casts [] fun id => [(id, .element)] := by
  refine .ask (by simp) fun selected => ?_
  refine .ask (by simp) fun _ => ?_
  refine .then casts_identifier.parse fun name => ?_
  refine .ask (by simp) fun _ => ?_
  refine .ask (by simp) fun closedEarly => ?_
  refine .ask (by simp) fun hasValue => ?_
  have made
      (value : Option Int) :
      (make (.listElement name selected value)).Casts [(name, .identifier)]
        fun id => [(id, .element)] :=
    .make ⟨rfl, .inr trivial⟩ (by simp [Role.demands])
  split
  · refine .then casts_elementValue fun value => ?_
    refine .ask (by simp) fun _ => ?_
    exact made value
  · refine .remark (by simp) fun _ => ?_
    exact made none

theorem casts_listDefinition :
    listDefinition.Casts [] fun id => [(id, .value)] := by
  refine .ask (by simp) fun _ => ?_
  refine .then (casts_listElement.separated (by simp)) fun found => ?_
  exact .make ⟨rfl, .inr trivial⟩ (by simp [Role.demands])

theorem casts_listDeclaration :
    listDeclaration.Casts [] fun id => [(id, .content)] := by
  refine .ask (by simp) fun _ => ?_
  refine .then (casts_identifier.expect _) fun name => ?_
  refine .ask (by simp) fun _ => ?_
  refine .ask (by simp) fun _ => ?_
  refine .ask (by simp) fun _ => ?_
  refine .then (casts_listDefinition.expect _) fun definition => ?_
  exact casts_variable (.refl _) name definition true false

theorem casts_externalName :
    externalName.Casts [] fun id => [(id, .identifier)] := by
  refine
    .then
      ((casts_identifier.expect _).attempt
        (fun found => Role.identifier.parts found.toList) rfl)
      fun found => ?_
  split
  · exact .pure (by simp)
  · exact casts_missingIdentifier

theorem casts_externalDeclaration :
    externalDeclaration.Casts [] fun id => [(id, .content)] := by
  refine .ask (by simp) fun _ => ?_
  refine .then casts_externalName fun name => ?_
  refine .ask (by simp) fun _ => ?_
  refine .ask (asks_identifierName (by simp)) fun written => ?_
  refine
    .askKnowing (yields_parameters.expect _).attempt (by simp)
      fun found unbroken => ?_
  refine .make ⟨rfl, .inr ?_⟩ (by simp [Role.demands])
  cases found with
  | none => exact List.forall_mem_nil _
  | some found => exact List.forall_mem_map.mpr (unbroken found rfl)

theorem casts_reminder :
    reminder.Casts [] fun id => [(id, .content)] := by
  refine .ask (by simp) fun _ => ?_
  refine .ask (by simp) fun _ => ?_
  refine .ask (by simp) fun _ => ?_
  refine .ask (by simp) fun written => ?_
  refine .ask (by simp) fun _ => ?_
  exact casts_leaf ⟨rfl, .inr trivial⟩ rfl

end Declarations

section Logic

theorem casts_returnStatement :
    returnStatement.Casts [] fun id => [(id, .content)] := by
  refine .ask (by simp) fun _ => ?_
  refine .ask (by simp) fun word => ?_
  refine .ask (by simp) fun _ => ?_
  refine .ask (by simp) fun _ => ?_
  refine .then casts_expression.triedNode fun value => ?_
  exact .make ⟨rfl, .inr trivial⟩ (by simp [Role.demands])

theorem casts_assignedName
    (isTemporary : Bool) :
    (assignedName isTemporary).Casts [] fun id => [(id, .identifier)] := by
  unfold assignedName
  split
  · exact casts_identifier.expect _
  · exact casts_identifier.parse

theorem casts_assignedValue
    (name : NodeId)
    (isTemporary isIncrement isDecrement : Bool) :
    (assignedValue name isTemporary isIncrement isDecrement).Casts
      [(name, .identifier)] fun id => [(id, .content)] := by
  refine .ask (by simp) fun isAssigned => ?_
  split
  · refine
      .then
        ((casts_expression.expect _).attempt
          (fun found => Role.expression.parts found.toList) rfl)
        fun value => ?_
    split
    · exact
        .make ⟨rfl, .inr trivial⟩
          (by simp [Role.demands, List.count_cons])
    · have made :
          (make (.assignment name value false isTemporary)).Casts
            (Role.value.parts value.toList ++ [(name, .identifier)])
            fun id => [(id, .content)] :=
        .make ⟨rfl, .inr trivial⟩ (by simp [Role.demands, List.count_cons])
      refine made.offer ?_
      cases value with
      | none =>
          exact .cons ⟨rfl, .refl _⟩ .nil
      | some value =>
          exact .cons ⟨rfl, .expression_value⟩ (.cons ⟨rfl, .refl _⟩ .nil)
  · refine .remark (by simp) fun _ => ?_
    exact .fail

theorem casts_assignment :
    assignment.Casts [] fun id => [(id, .content)] := by
  refine .ask (by simp) fun _ => ?_
  refine .ask (by simp) fun temporary => ?_
  refine .ask (by simp) fun _ => ?_
  refine .then (casts_assignedName _) fun name => ?_
  refine .ask (by simp) fun _ => ?_
  refine .ask (by simp) fun isIncrement => ?_
  refine .ask (by simp) fun isDecrement => ?_
  refine .remark (by simp) fun _ => ?_
  exact casts_assignedValue _ _ _ _

/-- A call whose result is dropped is content as before. -/
theorem turns_dropResult :
    Amendment.dropResult.Turns [] .content .content := by
  intro kind admits
  cases kind with
  | functionCall name arguments dropsResult =>
      exact ⟨⟨rfl, .inr trivial⟩, (List.append_nil _).symm⟩
  | _ =>
      exact ⟨admits, (List.append_nil _).symm⟩

theorem casts_withPrintedLine
    (id : NodeId) :
    (withPrintedLine id).Casts [(id, .content)]
      fun output => [(output, .content)] := by
  refine .ask (asks_containsCall (by simp)) fun calls => ?_
  split
  · refine .then (casts_makeText _) fun lineFeed => ?_
    exact
      .make ⟨rfl, .inr trivial⟩
        (by simp [Role.demands, List.count_cons, Nat.add_comm])
  · exact .pure (by simp)

theorem casts_logicLine :
    logicLine.Casts [] Role.content.parts := by
  refine .ask (by simp) fun _ => ?_
  refine .ask (by simp) fun _ => ?_
  refine .ask (by simp) fun _ => ?_
  have logic :
      (Rule.oneOf [returnStatement, assignment, expression]).Casts []
        fun id => [(id, .content)] := by
    have bare := casts_expression.serveNode (.expression_statement .block)
    apply Rule.Casts.oneOf
    simp [casts_returnStatement, casts_assignment, bare]
  refine .then logic.triedNode fun found => ?_
  split
  · refine .ask (by simp) fun _ => ?_
    refine .ask (by simp) fun _ => ?_
    have empty :
        (make (.contentList [])).Casts [] fun id => [(id, .content)] :=
      casts_leaf ⟨rfl, .inr trivial⟩ rfl
    refine .then empty fun empty => ?_
    exact .pure (by simp)
  next id =>
    refine .read (reads_refuseIdle (by simp)) fun _ => ?_
    refine .bind (.amendAmong (by simp) turns_dropResult) fun _ => ?_
    refine .using [] (casts_withPrintedLine id) (by simp) fun output => ?_
    refine .ask (by simp) fun _ => ?_
    exact .pure (by simp)

end Logic

section Flows

theorem casts_functionName :
    functionName.Casts [] fun found => Role.identifier.parts found.toList := by
  refine .ask (by simp) fun _ => ?_
  exact casts_identifier.triedNode

theorem casts_knotName :
    knotName.Casts [] fun (_, found) => Role.identifier.parts found.toList := by
  refine .then casts_identifier.triedNode fun found => ?_
  split
  next id =>
    refine .ask (asks_identifierName (by simp)) fun word => ?_
    split
    · refine .then casts_functionName fun name => ?_
      exact .pure (by simp)
    · exact .pure (by simp)
  next =>
    exact .pure (by simp)

theorem casts_requiredName
    (isFunction : Bool)
    (found : Option NodeId) :
    (requiredName isFunction found).Casts (Role.identifier.parts found.toList)
      fun id => [(id, .identifier)] := by
  cases found with
  | none =>
      refine .ask (by simp [Rule.error]) fun _ => ?_
      exact casts_missingIdentifier
  | some name =>
      exact .pure (by simp)

/-- The name of a flow in its role. -/
def FlowHeader.parts (header : FlowHeader) : List Part :=
  [(header.name, .identifier)]

theorem casts_knotHeader :
    knotHeader.Casts [] FlowHeader.parts := by
  refine .ask (by simp) fun _ => ?_
  refine .ask (by simp) fun _ => ?_
  refine .ask (by simp) fun _ => ?_
  refine .then casts_knotName fun (isFunction, found) => ?_
  refine .using [] (casts_requiredName isFunction found) (by simp) fun name => ?_
  refine .ask (by simp) fun parameters => ?_
  refine .ask (by simp) fun _ => ?_
  exact .pure (by simp [FlowHeader.parts])

theorem casts_stitchHeader :
    stitchHeader.Casts [] FlowHeader.parts := by
  refine .ask (by simp) fun _ => ?_
  refine .ask (by simp) fun _ => ?_
  refine .ask (by simp) fun isKnot => ?_
  split
  · exact .fail
  · refine .ask (by simp) fun _ => ?_
    refine .ask (by simp) fun isFunction => ?_
    refine .then casts_identifier.parse fun name => ?_
    refine .ask (by simp) fun parameters => ?_
    exact .pure (by simp [FlowHeader.parts])

theorem casts_missingContent :
    missingContent.Casts [] Role.content.parts := by
  refine .read (.attempt (.textUntil builds_knotHeader.reads_peek)) fun _ => ?_
  refine .then (casts_makeText _) fun content => ?_
  exact .pure (by simp)

/-- A flow stands where its place allows flows of its level. -/
theorem casts_flow
    {place : Place}
    (level : FlowLevel)
    (isAllowed : level.standsAt place = true)
    {header : FlowHeader}
    (unbroken : header.IsUnbroken)
    (content : List NodeId) :
    (flow level header content).Casts
      (Role.parts (.statement level.place) content ++ header.parts)
      fun id => [(id, .statement place)] := by
  refine
    .using header.parts (.weave level.place content) (fun _ => Nat.le_refl _)
      fun woven => ?_
  exact
    .make ⟨isAllowed, .inr unbroken⟩
      (by simp [Role.demands, FlowHeader.parts, List.count_cons])

theorem casts_knot
    {place : Place}
    (isAllowed : allowsKnots place = true) :
    knot.Casts [] fun id => [(id, .statement place)] := by
  refine
    .thenKnowing yields_knotHeader.parse casts_knotHeader.parse
      fun header unbroken => ?_
  refine .ask (by simp) fun _ => ?_
  have missing := casts_missingContent.serveNodes (.content_statement .knot)
  refine
    .then ((casts_statements .knot).expectOr missing _) fun content => ?_
  rw [List.append_nil]
  exact casts_flow .knot isAllowed unbroken content

theorem casts_stitch
    {place : Place}
    (isAllowed : allowsStitches place = true) :
    stitch.Casts [] fun id => [(id, .statement place)] := by
  refine
    .thenKnowing yields_stitchHeader.parse casts_stitchHeader.parse
      fun header unbroken => ?_
  refine .ask (by simp) fun _ => ?_
  have missing := casts_missingContent.serveNodes (.content_statement .stitch)
  refine
    .then ((casts_statements .stitch).expectOr missing _) fun content => ?_
  rw [List.append_nil]
  exact casts_flow .stitch isAllowed unbroken content

end Flows

section Inclusions

/-- Reading another file makes no node. -/
theorem casts_include
    {file : String}
    (unbroken : Unbroken file) :
    (Rule.effect (.include file) : GrammarRule Inclusion).Casts []
      fun _ => [] := by
  intro origin admits read include_ supplies machine nodes reaches plays
  refine (supplies.supplies.include_ file machine unbroken).mono ?_ ?_
  · rintro inclusion after ⟨proceeds, same, -⟩
    rw [same]
    exact ⟨proceeds, plays.recasts⟩
  · intro after leads
    exact leads.mono (List.nil_subset _)

theorem casts_includedFile
    {file : String}
    (unbroken : Unbroken file) :
    (do make (.includedFile (← includedStory file))).Casts []
      fun id => [(id, .content)] := by
  have made
      (found : Option Story) :
      (make (.includedFile found)).Casts [] fun id => [(id, .content)] :=
    casts_leaf ⟨rfl, .inr trivial⟩ rfl
  refine Rule.casts_assoc.mpr (.bind (casts_include unbroken) fun inclusion => ?_)
  split
  · exact made _
  · exact Rule.casts_assoc.mpr (.ask (by simp) fun _ => made none)
  · exact Rule.casts_assoc.mpr (.ask (by simp) fun _ => made none)

theorem casts_inclusion :
    inclusion.Casts [] fun id => [(id, .content)] := by
  refine .ask (by simp) fun _ => ?_
  refine .ask (by simp) fun _ => ?_
  refine .ask (by simp) fun _ => ?_
  refine
    .askKnowing (yields_restOfLine.expect _).attempt (by simp)
      fun written unbroken => ?_
  split
  · exact casts_leaf ⟨rfl, .inr trivial⟩ rfl
  next written =>
    exact casts_includedFile (unbroken_trimEnd (unbroken written rfl))

end Inclusions

section Statements

/-- A rule for one node gives a statement at any place that its node may stand at. -/
theorem casts_single
    {rule : GrammarRule NodeId}
    {role : Role}
    (casts : rule.Casts [] fun id => [(id, role)]) :
    (single rule).Casts [] role.parts :=
  .then casts fun id => .pure (by simp)

theorem casts_statementRules
    (place : Place)
    {rule : GrammarRule (List NodeId)}
    (member : rule ∈ statementRules place) :
    rule.Casts [] (Role.parts (.statement place)) := by
  have ofContent
      {rule : GrammarRule (List NodeId)}
      (casts : rule.Casts [] Role.content.parts) :
      rule.Casts [] (Role.parts (.statement place)) :=
    casts.serveNodes (.content_statement place)
  have ofLine
      {rule : GrammarRule NodeId}
      (casts : rule.Casts [] fun id => [(id, .content)]) :
      (single (wholeLine rule)).Casts [] (Role.parts (.statement place)) :=
    ofContent (casts_single (casts_wholeLine casts))
  simp only [statementRules, List.mem_append, List.mem_map, List.mem_cons,
    List.not_mem_nil, or_false, mem_onlyIf] at member
  rcases member with
    (((((rfl | ⟨isAllowed, rfl⟩) | rfl | rfl) | ⟨isAllowed, rfl⟩) | ⟨isAllowed, rfl⟩) |
      ⟨line, isLine, rfl⟩) | rfl | rfl
  · exact ofContent (casts_wholeLine casts_diverts)
  · exact casts_single (casts_knot isAllowed)
  · exact ofLine casts_choice
  · exact ofLine casts_reminder
  · exact casts_single (casts_gather isAllowed)
  · exact casts_single (casts_stitch isAllowed)
  · rcases isLine with rfl | rfl | rfl | rfl | rfl
    · exact ofLine casts_listDeclaration
    · exact ofLine casts_variableDeclaration
    · exact ofLine casts_constantDeclaration
    · exact ofLine casts_externalDeclaration
    · exact ofLine casts_inclusion
  · exact ofContent casts_logicLine
  · exact ofContent casts_proseLine

theorem casts_statement
    (place : Place) :
    (statement place).Casts [] (Role.parts (.statement place)) := by
  have anyStatement :
      (Rule.oneOf (statementRules place)).Casts []
        (Role.parts (.statement place)) :=
    .oneOf fun rule member => casts_statementRules place member
  refine .then anyStatement fun nodes => ?_
  extract_lets rest
  have ends (value : Unit) :
      (rest value).Casts (Role.parts (.statement place) nodes)
        (Role.parts (.statement place)) :=
    .pure (by simp)
  rw [List.append_nil]
  split
  · refine
      .ask (asks_anyNode fun id member => asks_isReturn (by simpa using member))
        fun returns => ?_
    exact .remark (by simp) ends
  · exact ends ()

theorem casts_statementRun
    (place : Place) :
    (statementRun place).Casts [] (Role.parts (.statement place)) := by
  have many :
      (do return .many (← statement place) : GrammarRule (Step NodeId)).Casts []
        (ofStep fun id => [(id, .statement place)]) :=
    .then (casts_statement place) fun ids =>
      .pure (by simp [ofStep, Step.values, Role.parts_eq_flatMap])
  have run :
      (Rule.alternateUntil (Rule.optionallyDropped blankLines)
        (do return .many (← statement place)) (statementsEnd place)).Casts []
          (Role.parts (.statement place)) := by
    simpa only [← Role.parts_eq_flatMap] using
      Rule.Casts.alternateUntil (.optionallyDropped (by simp)) many
        fun _ => (builds_statementsEnd place).reads_peek
  unfold statementRun
  extract_lets rest
  split
  · refine .ask (by simp) fun dashed => ?_
    exact .remark (by simp [Rule.error]) fun _ => run
  · exact run

end Statements

section Scripts

/-- The rule of each construct gives the parts of the construct. -/
theorem casts_rule
    {α : Type}
    (construct : Construct α) :
    (rule construct).Casts [] construct.parts := by
  cases construct with
  | expression weakerThan =>
      exact casts_expressionAbove weakerThan
  | operand =>
      exact casts_operand
  | prose =>
      exact casts_mixedProse
  | statements place =>
      exact casts_statementRun place

theorem casts_scriptContent :
    scriptContent.Casts [] (Role.parts (.statement .top)) := by
  have statementsTried :
      (attempt (statements .top)).Casts []
        fun found => Role.parts (.statement .top) (found.getD []) :=
    (casts_statements .top).attempt _ rfl
  refine .then statementsTried fun first => ?_
  rw [List.append_nil]
  refine .loop (Role.parts (.statement .top)) (fun content => ?_) (first.getD [])
  refine .ask (by simp) fun _ => ?_
  refine .ask (by simp) fun isEnd => ?_
  split
  · exact .pure (by simp)
  · refine .ask (by simp) fun _ => ?_
    refine .then statementsTried fun more => ?_
    exact .pure (by simp; omega)

theorem casts_script :
    script.Casts [] fun id => [(id, .story)] := by
  refine .then casts_scriptContent fun content => ?_
  rw [List.append_nil]
  refine .bind (.weave .top content) fun woven => ?_
  exact .make ⟨rfl, .inr trivial⟩ (by simp [Role.demands])

end Scripts

end InkSyntax.Grammar
