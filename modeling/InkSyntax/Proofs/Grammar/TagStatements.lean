import InkSyntax.Proofs.Grammar.TagExpressions

namespace InkSyntax.Grammar

/-!
# Tags in statements

A choice ends the tag that is open in each of its parts; lines of prose end theirs.
Flows stand outside of tags, as do all statements that are not in a block.  So a
script whose run is clean comes to a tree in which tags begin and end in turn.
-/

open InkSyntax.Flag (Anyhow Stands Closed Quoted Within Exactly Calm Suits)
open Rule (attempt parse literal ifThere ofStep Carries)

attribute [local simp] NodeKind.children

variable
    {start : Bool}
    {rest : TagTest}

section Choices

theorem carries_guardCondition
    (calm : Calm rest) :
    guardCondition.Carries start rest rest [] fun id => [id] := by
  refine .ask (by simp) fun _ => ?_
  refine .bind ((carries_expression calm).expect _) fun found => ?_
  refine .ask (asks_refuseStep (by simp)) fun _ => ?_
  refine .ask (by simp) fun _ => ?_
  exact .pure rfl

theorem carries_choiceGuard
    (calm : Calm rest) :
    choiceGuard.Carries start rest rest [] fun id => [id] := by
  have conditions :
      (Rule.alternate (Rule.single guardCondition)
        (Rule.dropped guardSpace)).Carries start rest rest [] fun ids => ids :=
    .alternateNodes (carries_guardCondition calm).single
      (Rule.carries_dropped (by simp))
  refine .bind conditions fun found => ?_
  split
  · exact .pure rfl
  · exact .make rfl rfl

/-- Behind the end of a tag in some content one is outside, as it was marked. -/
theorem carries_closeTagIn
    (content : Option (List NodeId)) :
    (closeTagIn content).Carries start Anyhow Closed (content.getD [])
      (·.getD []) := by
  cases content with
  | none =>
      refine ⟨fun balances machine inside anyhow toggles clean => ?_⟩
      obtain rfl := toggles.eq_of_nil
      cases isOpen : machine.isTagOpen with
      | true =>
          exact (clean.marked _ .refl (.unmarked isOpen)).elim
      | false =>
          have clears :
              (closeTagIn none).Carries inside (Within false) Closed []
                (·.getD []) :=
            .bind (Rule.carries_setTagOpen false) fun _ => .pure rfl
          exact
            clears.carrying balances machine (anyhow.trans isOpen) toggles clean
  | some content =>
      exact .then carries_closeTag fun markers => .pure rfl

/-- Where no tag is open, the content stays as it is, also in front of other trees. -/
theorem carries_closeTagIn_closed
    (content : Option (List NodeId))
    (behind : List NodeId) :
    (closeTagIn content).Carries start Closed Closed (content.getD [] ++ behind)
      (·.getD [] ++ behind) := by
  cases content with
  | none =>
      have clears :
          (Rule.setFlag Flag.tagOpen false : GrammarRule Unit).Carries start
            Closed Closed behind fun _ => behind :=
        (Rule.carries_setTagOpen false).mono .of_stands id
      exact clears.bind fun _ => .pure rfl
  | some content =>
      exact .bind (carries_closeTag_closed content behind) fun _ => .pure rfl

theorem carries_choiceText :
    choiceText.Carries start Anyhow Anyhow [] ChoiceText.nodes := by
  have triedProse {start : Bool} :
      (attempt (parse prose)).Carries start Closed Anyhow [] (·.getD []) :=
    carries_prose.triedNodes.mono Flag.calm_closed.tells id
  refine .bind carries_prose.triedNodes fun start => ?_
  refine .ask (by simp) fun hasBrackets => ?_
  split
  · refine .bind (carries_closeTagIn start) fun start => ?_
    refine .then triedProse fun choiceOnly => ?_
    refine .ask (by simp) fun _ => ?_
    refine .bind (.frame (carries_closeTagIn choiceOnly) _) fun choiceOnly => ?_
    refine .then triedProse fun inner => ?_
    exact .pure rfl
  · exact .pure (by simp [ChoiceText.nodes])

variable
    {library : Library}
    {maxDepth files levels : Nat}
    {machine : Machine Workshop}

/-- Without anything behind its brackets, a choice has nothing in them or ends outside of
tags. -/
def ChoiceText.IsSettled (parts : ChoiceText) (flags : UInt32) : Prop :=
  parts.inner = none → parts.choiceOnly = none ∨ Flag.marksTag flags = false

theorem ensures_choiceText
    (balances : Balances library maxDepth files levels) :
    EnsuresCleanly library maxDepth files levels choiceText machine
      (fun parts after => parts.IsSettled after.top.flags) fun _ => True := by
  refine .behind fun start _ => ?_
  refine .behind fun hasBrackets _ => ?_
  split
  · refine .behind fun start _ => ?_
    refine .behind fun choiceOnly _ => ?_
    refine .behind fun _ _ => ?_
    refine
      .bind (.mono (.of_ensures ensures_closeTagIn) ?_ fun _ never => never.elim)
    rintro choiceOnly closed ⟨isClosed, -, -⟩
    have anyhow : Anyhow closed.top.flags false := isClosed.symm
    refine .bind (.attempt ?_)
    refine
      (carries_prose.parse.recovers balances closed anyhow).mono
        (fun _ _ _ => .pure nofun) ?_
    rintro after ⟨sameFlags, -⟩
    refine .pure fun _ => .inr ?_
    rw [sameFlags]
    exact isClosed
  · exact .pure fun _ => .inl rfl

theorem carries_closeLastTag
    (parts : ChoiceText) :
    (closeLastTag parts).Carries start
      (fun flags inside => Anyhow flags inside ∧ parts.IsSettled flags) Closed
      parts.nodes ChoiceText.nodes := by
  obtain ⟨start, hasBrackets, choiceOnly, inner⟩ := parts
  cases inner with
  | some inner =>
      refine
        .bind
          ((Carries.frame (carries_closeTagIn (some inner)) _).mono And.left id)
          fun inner => ?_
      exact .pure rfl
  | none =>
      cases choiceOnly with
      | none =>
          refine
            .bind
              (((carries_closeTagIn start).congr (by simp [ChoiceText.nodes])
                fun _ => rfl).mono And.left id)
              fun start => ?_
          exact .pure (by simp [ChoiceText.nodes])
      | some choiceOnly =>
          have closed
              {flags : UInt32}
              {inside : Bool}
              (held :
                Anyhow flags inside ∧
                  ChoiceText.IsSettled
                    ⟨start, hasBrackets, some choiceOnly, none⟩ flags) :
              Closed flags inside := by
            have isClosed := (held.2 rfl).resolve_left (by simp)
            exact ⟨isClosed, held.1.trans isClosed⟩
          refine
            .bind
              (((carries_closeTagIn_closed start choiceOnly).congr
                (by simp [ChoiceText.nodes]) fun _ => rfl).mono closed id)
              fun start => ?_
          exact .pure (by simp [ChoiceText.nodes])

theorem carries_choiceParts :
    choiceParts.Carries start Anyhow Closed []
      fun (parts, ending) => parts.nodes ++ ending.getD [] := by
  refine
    .bindKnowing ChoiceText.IsSettled carries_choiceText ensures_choiceText
      fun parts => ?_
  refine .ask (by simp) fun _ => ?_
  refine .bind (carries_closeLastTag parts) fun parts => ?_
  refine .then (carries_diverts Flag.calm_closed).triedNodes fun ending => ?_
  exact .pure rfl

/-- An empty divert may be left out. -/
theorem carries_isEmptyDivert
    (id : NodeId)
    (others : List NodeId) :
    (isEmptyDivert id).Carries start rest rest (id :: others)
      fun isEmpty => if isEmpty then others else id :: others := by
  refine .kindOf fun kind => ?_
  split
  next link =>
    cases isEmpty : link.isEmpty with
    | true =>
        have makesWay : Draft.MakesWay id (.divert link) [id] [] :=
          .of_isLevel rfl
        exact ⟨others, makesWay.amid [] others, .pure rfl⟩
    | false =>
        exact ⟨_, .refl, .pure rfl⟩
  next =>
    exact ⟨_, .refl, .pure rfl⟩

theorem carries_leadingDiverts
    (ids : List NodeId) :
    (leadingDiverts ids).Carries start rest rest ids fun found => found := by
  induction ids generalizing start with
  | nil =>
      exact .pure rfl
  | cons id others inductionHypothesis =>
      refine .bind (Carries.frame inductionHypothesis [id]) fun found => ?_
      refine .bind (carries_isEmptyDivert id found) fun isEmpty => ?_
      exact .pure rfl

theorem carries_contentListOf
    (content : Option (List NodeId)) :
    (contentListOf content).Carries start rest rest (content.getD [])
      Option.toList := by
  cases content with
  | none =>
      exact .pure rfl
  | some content =>
      exact .bind (.make rfl rfl) fun list => .pure rfl

/-- Content between other trees may be put into a list. -/
theorem carries_contentListOf_amid
    (content : Option (List NodeId))
    (front behind : List NodeId) :
    (contentListOf content).Carries start rest rest
      (front ++ (content.getD [] ++ behind))
      fun list => front ++ (list.toList ++ behind) :=
  .frame (.behind (carries_contentListOf content) behind) front

theorem carries_choiceHead
    (calm : Calm rest) :
    choiceHead.Carries start rest rest [] ChoiceHead.nodes := by
  refine .ask asks_choiceMark fun (depth, onceOnly) => ?_
  refine .bind carries_label.triedNode fun name => ?_
  refine .ask (by simp) fun _ => ?_
  refine .then (carries_choiceGuard calm).triedNode fun condition => ?_
  refine .ask (by simp) fun _ => ?_
  exact .pure rfl

/-- The parts of a choice go below it in the order in which they were read. -/
theorem carries_choiceOf
    (head : ChoiceHead)
    (parts : ChoiceText)
    (ending : Option (List NodeId)) :
    (choiceOf head parts ending).Carries start Closed Closed
      (head.nodes ++ (parts.nodes ++ ending.getD [])) fun id => [id] := by
  refine .ask (by simp) fun _ => ?_
  refine .ask (by simp) fun _ => ?_
  rw [← List.append_assoc]
  refine .bind (carries_closeTag_closed _ _) fun markers => ?_
  refine
    .bind (.frame (carries_leadingDiverts (ending.getD [])) _) fun leading => ?_
  refine .then (carries_makeText _) fun lineFeed => ?_
  let inner := parts.inner.getD [] ++ markers ++ leading ++ [lineFeed]
  refine
    .bind
      ((carries_contentListOf_amid parts.start head.nodes
        (parts.choiceOnly.getD [] ++ inner)).congr
          (by simp [ChoiceText.nodes, inner]) fun _ => rfl) fun startList => ?_
  refine
    .bind
      ((carries_contentListOf_amid parts.choiceOnly
        (head.nodes ++ startList.toList) inner).congr
          (by simp) fun _ => rfl) fun choiceOnlyList => ?_
  refine
    .bind
      ((carries_contentListOf_amid (some inner)
        (head.nodes ++ startList.toList ++ choiceOnlyList.toList) []).congr
          (by simp) fun _ => rfl) fun innerList => ?_
  exact .make rfl (by simp)

/-- A choice ends the tag that is open in front of it. -/
theorem carries_choice :
    choice.Carries start Anyhow Closed [] fun id => [id] := by
  refine .bind (carries_choiceHead Flag.calm_anyhow) fun head => ?_
  refine .bind (Rule.carries_setInChoice true) fun _ => ?_
  refine .then carries_choiceParts fun (parts, ending) => ?_
  refine .bind (Rule.carries_setInChoice false) fun _ => ?_
  exact carries_choiceOf head parts ending

theorem carries_gather :
    gather.Carries start rest rest [] fun id => [id] := by
  refine .ask (by simp) fun depth => ?_
  refine .bind carries_label.triedNode fun name => ?_
  refine .ask (by simp) fun _ => ?_
  exact .make rfl (by simp)

end Choices

section Declarations

theorem carries_initialValue
    (calm : Calm rest)
    (name : NodeId) :
    (initialValue name).Carries start rest rest [name]
      fun value => [name, value] := by
  refine .ask (asks_identifierName (by simp)) fun written => ?_
  exact Carries.frame ((carries_expression calm).expect _) [name]

theorem carries_refuseLogicIn
    {given : List NodeId}
    (value : NodeId) :
    (refuseLogicIn value).Carries start rest rest given fun _ => given := by
  refine .kindOf fun kind => ⟨given, .refl, ?_⟩
  split
  · have plain :
        (isPlainString value).Carries start rest rest given fun _ => given := by
      refine .kindOf fun kind => ⟨given, .refl, ?_⟩
      split
      · refine .kindOf fun inner => ⟨given, .refl, ?_⟩
        split <;> exact .pure rfl
      · exact .pure rfl
    refine .bind plain fun isPlain => ?_
    split
    · exact (Rule.asks_error _).carries fun _ => rfl
    · exact .pure rfl
  · exact .pure rfl

theorem carries_variableDeclaration
    (calm : Calm rest) :
    variableDeclaration.Carries start rest rest [] fun id => [id] := by
  refine .ask (by simp) fun _ => ?_
  refine .bind (carries_identifier.expect _) fun name => ?_
  refine .ask (by simp) fun _ => ?_
  refine .ask (by simp) fun _ => ?_
  refine .ask (by simp) fun _ => ?_
  refine .bind (carries_initialValue calm name) fun value => ?_
  refine .ask (by simp) fun kind => ?_
  refine .remark (by simp) fun _ => ?_
  refine .ask (by simp) fun comma => ?_
  have made :
      (make (.assignment name (some value) true false)).Carries start rest rest
        [name, value] fun id => [id] :=
    .make rfl rfl
  split
  · exact .ask (by simp) fun _ => made
  · exact .bind (carries_refuseLogicIn value) fun _ => made

theorem carries_constantDeclaration
    (calm : Calm rest) :
    constantDeclaration.Carries start rest rest [] fun id => [id] := by
  refine .ask (by simp) fun _ => ?_
  refine .bind (carries_identifier.expect _) fun name => ?_
  refine .ask (by simp) fun _ => ?_
  refine .ask (by simp) fun _ => ?_
  refine .ask (by simp) fun _ => ?_
  refine .bind (carries_initialValue calm name) fun value => ?_
  refine .ask (by simp) fun kind => ?_
  have made :
      (make (.constant name value)).Carries start rest rest [name, value]
        fun id => [id] :=
    .make rfl rfl
  split
  · exact .bind (carries_refuseLogicIn value) fun _ => made
  · exact .ask (by simp) fun _ => made

/-- The number of an element is put below no other node. -/
theorem carries_elementValue :
    elementValue.Carries start rest rest [] fun _ => [] := by
  have number :
      intLiteral.Carries start rest rest [] fun _ => [] :=
    .ask (by simp) fun value => Rule.carries_spare _
  have tried :
      (attempt
        (Rule.expect intLiteral
          "value to be assigned to list item")).Carries start rest rest []
            fun _ => [] :=
    number.triedExpect _
  refine .ask (by simp) fun _ => ?_
  refine .bind tried fun found => ?_
  split
  · exact .pure rfl
  next number =>
    refine .askAbout (asks_kindOf.mpr (List.mem_singleton_self number)) fun kind => ?_
    split <;> exact .pure rfl

theorem carries_listElement :
    listElement.Carries start rest rest [] fun id => [id] := by
  refine .ask (by simp) fun selected => ?_
  refine .ask (by simp) fun _ => ?_
  refine .bind carries_identifier.parse fun name => ?_
  refine .ask (by simp) fun _ => ?_
  refine .ask (by simp) fun closedEarly => ?_
  refine .ask (by simp) fun hasValue => ?_
  split
  · refine .then carries_elementValue fun value => ?_
    refine .ask (by simp) fun _ => ?_
    exact .make rfl rfl
  · refine .remark (by simp) fun _ => ?_
    exact .make rfl rfl

theorem carries_listDefinition :
    listDefinition.Carries start rest rest [] fun id => [id] := by
  refine .ask (by simp) fun _ => ?_
  have elements :
      (Rule.separated listElement elementSeparator).Carries start rest rest []
        fun ids => ids := by
    simpa using Carries.separated carries_listElement (by simp)
  refine .bind elements fun found => ?_
  exact .make rfl rfl

theorem carries_listDeclaration :
    listDeclaration.Carries start rest rest [] fun id => [id] := by
  refine .ask (by simp) fun _ => ?_
  refine .bind (carries_identifier.expect _) fun name => ?_
  refine .ask (by simp) fun _ => ?_
  refine .ask (by simp) fun _ => ?_
  refine .ask (by simp) fun _ => ?_
  refine .then (carries_listDefinition.expect _) fun definition => ?_
  exact .make rfl rfl

theorem carries_externalName :
    externalName.Carries start rest rest [] fun id => [id] := by
  have tried :
      (attempt
        (Rule.expect identifier "name of external function")).Carries start rest
          rest [] Option.toList :=
    carries_identifier.triedExpect _
  refine .bind tried fun found => ?_
  split
  · exact .pure rfl
  · exact carries_missingIdentifier

theorem carries_externalDeclaration :
    externalDeclaration.Carries start rest rest [] fun id => [id] := by
  refine .ask (by simp) fun _ => ?_
  refine .bind carries_externalName fun name => ?_
  refine .ask (by simp) fun _ => ?_
  refine .ask (asks_identifierName (by simp)) fun written => ?_
  refine .ask (by simp) fun found => ?_
  exact .make rfl rfl

theorem carries_reminder :
    reminder.Carries start rest rest [] fun id => [id] := by
  refine .ask (by simp) fun _ => ?_
  refine .ask (by simp) fun _ => ?_
  refine .ask (by simp) fun _ => ?_
  refine .ask (by simp) fun written => ?_
  refine .ask (by simp) fun _ => ?_
  exact carries_leaf rfl rfl

end Declarations

section Logic

theorem carries_returnStatement
    (calm : Calm rest) :
    returnStatement.Carries start rest rest [] fun id => [id] := by
  refine .ask (by simp) fun _ => ?_
  refine .ask (by simp) fun word => ?_
  refine .ask (by simp) fun _ => ?_
  refine .ask (by simp) fun _ => ?_
  refine .bind (carries_expression calm).triedNode fun value => ?_
  exact .make rfl rfl

theorem carries_assignedName
    (isTemporary : Bool) :
    (assignedName isTemporary).Carries start rest rest [] fun id => [id] := by
  unfold assignedName
  split
  · exact carries_identifier.expect _
  · exact carries_identifier.parse

theorem carries_assignedValue
    (calm : Calm rest)
    (name : NodeId)
    (isTemporary isIncrement isDecrement : Bool) :
    (assignedValue name isTemporary isIncrement isDecrement).Carries start rest
      rest [name] fun id => [id] := by
  refine .ask (by simp) fun isAssigned => ?_
  split
  · have tried
        {start : Bool}
        (description : String) :
        (attempt (Rule.expect expression description)).Carries start rest rest
          [] Option.toList :=
      (carries_expression calm).triedExpect description
    refine .then (tried _) fun value => ?_
    split <;> exact .make rfl rfl
  · refine .remark (by simp) fun _ => ?_
    exact .fail

theorem carries_assignment
    (calm : Calm rest) :
    assignment.Carries start rest rest [] fun id => [id] := by
  refine .ask (by simp) fun _ => ?_
  refine .ask (by simp) fun temporary => ?_
  refine .ask (by simp) fun _ => ?_
  refine .bind (carries_assignedName _) fun name => ?_
  refine .ask (by simp) fun _ => ?_
  refine .ask (by simp) fun isIncrement => ?_
  refine .ask (by simp) fun isDecrement => ?_
  refine .remark (by simp) fun _ => ?_
  exact carries_assignedValue calm _ _ _ _

theorem carries_refuseIdle
    {given : List NodeId}
    (id : NodeId) :
    (refuseIdle id).Carries start rest rest given fun _ => given := by
  have complains (message : String) :
      (Rule.error message : GrammarRule Unit).Carries start rest rest given
        fun _ => given :=
    (Rule.asks_error message).carries fun _ => rfl
  refine .kindOf fun kind => ⟨given, .refl, ?_⟩
  split
  · exact .pure rfl
  · exact .pure rfl
  next only =>
    refine .askAbout (asks_identifierName (List.mem_singleton_self only)) fun name => ?_
    split <;> exact complains _
  · split
    · exact complains _
    · exact .pure rfl

theorem carries_withPrintedLine
    (id : NodeId) :
    (withPrintedLine id).Carries start rest rest [id]
      fun output => [output] := by
  refine .ask (asks_containsCall (by simp)) fun calls => ?_
  split
  · refine .then (carries_makeText _) fun lineFeed => ?_
    exact .make rfl rfl
  · exact .pure rfl

theorem carries_logicLine
    (calm : Calm rest) :
    logicLine.Carries start rest rest [] fun ids => ids := by
  refine .ask (by simp) fun _ => ?_
  refine .ask (by simp) fun _ => ?_
  refine .ask (by simp) fun _ => ?_
  have logic :
      (Rule.oneOf [returnStatement, assignment, expression]).Carries start rest
        rest [] fun id => [id] := by
    apply Carries.oneOf
    simp [carries_returnStatement calm, carries_assignment calm,
      carries_expression calm]
  refine .bind logic.triedNode fun found => ?_
  split
  · exact .reportExpected
  next id =>
    refine .bind (carries_refuseIdle id) fun _ => ?_
    refine .bind (.amend id (by simp)) fun _ => ?_
    refine .bind (carries_withPrintedLine id) fun output => ?_
    refine .ask (by simp) fun _ => ?_
    exact .pure rfl

end Logic

section Flows

theorem carries_functionName :
    functionName.Carries start rest rest [] Option.toList := by
  refine .ask (by simp) fun _ => ?_
  exact carries_identifier.triedNode

/-- The word for functions is no name, so its node is put below no other. -/
theorem carries_functionWord
    (id : NodeId) :
    (identifierName id).Carries start rest rest [id]
      fun word => if word == "function" then [] else [id] := by
  refine .kindOf fun kind => ?_
  split
  next word =>
    by_cases isWord : (word == "function") = true
    · refine ⟨[], .of_leaf rfl (by simp), ?_⟩
      exact .pure (if_pos isWord).symm
    · exact ⟨_, .refl, .pure (if_neg isWord).symm⟩
  next =>
    exact ⟨_, .refl, .pure (if_neg (by decide)).symm⟩

theorem carries_knotName :
    knotName.Carries start rest rest [] fun (_, found) => found.toList := by
  refine .bind carries_identifier.triedNode fun found => ?_
  split
  next id =>
    refine .bind (carries_functionWord id) fun word => ?_
    split
    · exact .bind carries_functionName fun name => .pure rfl
    · exact .pure rfl
  next =>
    exact .pure rfl

theorem carries_requiredName
    (isFunction : Bool)
    (found : Option NodeId) :
    (requiredName isFunction found).Carries start rest rest found.toList
      fun id => [id] := by
  cases found with
  | none =>
      exact .error
  | some name =>
      exact .pure rfl

theorem carries_knotHeader :
    knotHeader.Carries start rest rest [] FlowHeader.nodes := by
  refine .ask (by simp) fun _ => ?_
  refine .ask (by simp) fun _ => ?_
  refine .ask (by simp) fun _ => ?_
  refine .bind carries_knotName fun (isFunction, found) => ?_
  refine .bind (carries_requiredName isFunction found) fun name => ?_
  refine .ask (by simp) fun parameters => ?_
  refine .ask (by simp) fun _ => ?_
  exact .pure rfl

theorem carries_stitchHeader :
    stitchHeader.Carries start rest rest [] FlowHeader.nodes := by
  refine .ask (by simp) fun _ => ?_
  refine .ask (by simp) fun _ => ?_
  refine .ask (by simp) fun isKnot => ?_
  split
  · exact .fail
  · refine .ask (by simp) fun _ => ?_
    refine .ask (by simp) fun isFunction => ?_
    refine .bind carries_identifier.parse fun name => ?_
    refine .ask (by simp) fun parameters => ?_
    exact .pure rfl

/-- Statements that do not stand in a block are outside of tags. -/
theorem suits_closed
    (place : Place) :
    Suits place Closed :=
  ⟨Flag.calm_closed, fun _ => id⟩

theorem carries_flow
    (level : FlowLevel)
    (header : FlowHeader)
    (content : List NodeId) :
    (flow level header content).Carries false Closed Closed
      (header.nodes ++ content) fun id => [id] := by
  refine .bind (.frame (Rule.carries_weave content) header.nodes) fun woven => ?_
  refine .makeFitting ?_ rfl
  rintro flags inside ⟨-, rfl⟩
  exact .of_isFlow rfl

/-- A header with its content below it; a flow begins and ends outside of tags. -/
theorem carries_flowOf
    {header : GrammarRule FlowHeader}
    {ending : GrammarRule Unit}
    {missing : GrammarRule (List NodeId)}
    {description : String}
    {level : FlowLevel}
    {place : Place}
    (head : ∀ {start}, header.Carries start Closed Closed [] FlowHeader.nodes)
    (ends : ∀ {known}, ending.Asks known) :
    (do
      let header ← parse header
      let _ ← attempt ending
      let content ← Rule.expectOr (statements place) description missing
      flow level header content).Carries start Closed Closed [] fun id => [id] := by
  refine .of_outside ?_
  refine .bind head.parse fun header => ?_
  refine .ask (Rule.asks_attempt.mpr ends) fun _ => ?_
  refine
    .then ((carries_statements (suits_closed place)).expectOr description)
      fun content => ?_
  exact carries_flow level header content

theorem carries_knot :
    knot.Carries start Closed Closed [] fun id => [id] :=
  carries_flowOf carries_knotHeader (by simp)

theorem carries_stitch :
    stitch.Carries start Closed Closed [] fun id => [id] :=
  carries_flowOf carries_stitchHeader (by simp)

end Flows

section Inclusions

variable
    {library : Library}
    {maxDepth files levels : Nat}
    {machine : Machine Workshop}

/-- In a clean run the story of a file is there, and tags alternate in it. -/
theorem ensures_includedStory
    (balances : Balances library maxDepth files levels)
    (file : String) :
    EnsuresKeeping library maxDepth files levels (includedStory file) machine
      fun found after =>
        machine.Rests after ∧
          ∀ story, found = some story → story.TagsAlternateThroughout := by
  refine .bind (EnsuresCleanly.mono (balances.include_ file machine) ?_ ?_)
  · rintro inclusion after ⟨rests, alternates⟩
    refine ⟨.of_kinds rests.kinds, ?_⟩
    cases inclusion with
    | story story =>
        refine .pure ⟨rests, ?_⟩
        rintro _ ⟨⟩
        exact alternates story rfl
    | recursive path =>
        exact EnsuresCleanly.bind .error
    | missing =>
        exact EnsuresCleanly.bind .error
  · exact fun _ never => never.elim

theorem carries_includedFile
    (file : String) :
    (do make (.includedFile (← includedStory file))).Carries start rest rest []
      fun id => [id] := by
  refine ⟨fun balances machine inside passes toggles => ?_⟩
  refine .bind ((ensures_includedStory balances file).mono ?_)
  rintro found middle - ⟨rests, alternates⟩
  have made :
      (make (.includedFile found)).Carries start rest rest [] fun id => [id] := by
    cases found with
    | none =>
        exact carries_leaf rfl rfl
    | some story =>
        exact .makeFitting (fun _ => .of_includes (alternates story rfl)) rfl
  refine
    made.carrying balances middle ?_ (toggles.kept (.of_kinds rests.kinds))
  rw [rests.flags]
  exact passes

theorem carries_inclusion :
    inclusion.Carries start rest rest [] fun id => [id] := by
  refine .ask (by simp) fun _ => ?_
  refine .ask (by simp) fun _ => ?_
  refine .ask (by simp) fun _ => ?_
  refine .ask (by simp) fun written => ?_
  split
  · exact carries_leaf rfl rfl
  · exact carries_includedFile _

end Inclusions

section Statements

variable {place : Place}

theorem carries_single
    {rule : GrammarRule NodeId}
    (carries : rule.Carries start rest rest [] fun id => [id]) :
    (single rule).Carries start rest rest [] fun ids => ids :=
  .bind carries fun _ => .pure rfl

theorem carries_statementRules
    (suits : Suits place rest)
    {rule : GrammarRule (List NodeId)}
    (member : rule ∈ statementRules place) :
    rule.Carries start rest rest [] fun ids => ids := by
  have calm := suits.calm
  simp only [statementRules, List.mem_append, List.mem_map, List.mem_cons,
    List.not_mem_nil, or_false, mem_onlyIf] at member
  rcases member with
    (((((rfl | ⟨isAllowed, rfl⟩) | rfl | rfl) | ⟨-, rfl⟩) | ⟨isAllowed, rfl⟩) |
      ⟨line, isLine, rfl⟩) | rfl | rfl
  · exact carries_wholeLine (carries_diverts calm)
  · have isOutside : place ≠ .block := by
      rintro rfl
      cases isAllowed
    exact carries_single (.suited suits isOutside carries_knot)
  · exact carries_single (carries_wholeLine (.calmed calm carries_choice))
  · exact carries_single (carries_wholeLine carries_reminder)
  · exact carries_single carries_gather
  · have isOutside : place ≠ .block := by
      rintro rfl
      cases isAllowed
    exact carries_single (.suited suits isOutside carries_stitch)
  · apply carries_single (carries_wholeLine _)
    rcases isLine with rfl | rfl | rfl | rfl | rfl
    · exact carries_listDeclaration
    · exact carries_variableDeclaration calm
    · exact carries_constantDeclaration calm
    · exact carries_externalDeclaration
    · exact carries_inclusion
  · exact carries_logicLine calm
  · exact .calmed calm carries_proseLine

theorem carries_statement
    (suits : Suits place rest) :
    (statement place).Carries start rest rest [] fun ids => ids := by
  have anyStatement :
      (Rule.oneOf (statementRules place)).Carries start rest rest []
        fun ids => ids :=
    .oneOf fun rule member => carries_statementRules suits member
  refine .bind anyStatement fun nodes => ?_
  extract_lets rest'
  have ends (value : Unit) :
      (rest' value).Carries start rest rest nodes fun ids => ids :=
    .pure rfl
  split
  · refine .ask (asks_anyNode fun id member => asks_isReturn member) fun returns => ?_
    exact .remark (by simp) ends
  · exact ends ()

theorem carries_statementsUpToEnd
    (suits : Suits place rest) :
    (Rule.alternateUntil (Rule.optionallyDropped blankLines)
      (do return .many (← statement place)) (statementsEnd place)).Carries start
        rest rest [] fun ids => ids := by
  have many {start : Bool} :
      (do return .many (← statement place) :
        GrammarRule (Step NodeId)).Carries start rest rest []
          (ofStep fun id => [id]) :=
    .bind (carries_statement suits) fun ids => .pure (by simp [ofStep, Step.values])
  simpa using
    Carries.alternateUntil (Rule.carries_optionallyDropped (by simp)) many
      (Rule.carries_peek (builds_statementsEnd place).adds)

/-- Statements may stand wherever one is inside of tags and outside, if that suits their
place. -/
theorem carries_statementRun
    (suits : Suits place rest) :
    (statementRun place).Carries start rest rest [] fun ids => ids := by
  unfold statementRun
  extract_lets upToEnd
  split
  · refine .ask (by simp) fun dashed => ?_
    exact .remark (by simp [Rule.error]) fun _ => carries_statementsUpToEnd suits
  · exact carries_statementsUpToEnd suits

theorem recovers_statementsUpToEnd
    (suits : Suits place rest) :
    (Rule.alternateUntil (Rule.optionallyDropped blankLines)
      (do return .many (← statement place)) (statementsEnd place)).Recovers start
        rest :=
  (carries_statementsUpToEnd suits).recovers

/-- If there are no statements, nothing is left of what was tried. -/
theorem recovers_statementRun
    (suits : Suits place rest) :
    (statementRun place).Recovers start rest := by
  unfold statementRun
  extract_lets upToEnd
  split
  · refine .ask (by simp) fun dashed => ?_
    split
    · exact .ask (by simp [Rule.error]) fun _ => recovers_statementsUpToEnd suits
    · exact recovers_statementsUpToEnd suits
  · exact recovers_statementsUpToEnd suits

end Statements

section Scripts

theorem carries_scriptContent :
    scriptContent.Carries start Closed Closed [] fun ids => ids := by
  have statementsTried {start : Bool} :
      (attempt (statements .top)).Carries start Closed Closed [] (·.getD []) :=
    .attempt _ (carries_statements (suits_closed .top))
      (recovers_statements (suits_closed .top)) rfl id
  refine .bind statementsTried fun first => ?_
  refine .loop (fun content => content) (fun content => ?_) (first.getD [])
  refine .ask (by simp) fun _ => ?_
  refine .ask (by simp) fun isEnd => ?_
  split
  · exact .pure rfl
  · refine .ask (by simp) fun _ => ?_
    refine .then statementsTried fun more => ?_
    exact .pure rfl

theorem carries_script :
    script.Carries start Closed Closed [] fun id => [id] := by
  refine .bind carries_scriptContent fun content => ?_
  refine .bind (Rule.carries_weave content) fun woven => ?_
  exact .make rfl rfl

end Scripts

end InkSyntax.Grammar
