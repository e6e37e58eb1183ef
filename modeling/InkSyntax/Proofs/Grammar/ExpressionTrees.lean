import InkSyntax.Proofs.Grammar.Joining
import InkSyntax.Proofs.Grammar.Trees

namespace InkSyntax.Grammar

/-!
# The trees that expressions and logic in braces make

Some nodes are read only to be dropped again: the number behind a sign, the
reference that a step is applied to, the number of an element of a list.  What is
dropped stays in the draft, but in no tree; only the names below a reference are
used once more.
-/

open Rule (attempt parse literal ifThere ofStep Names)

attribute [local simp] Covers NodeKind.children

variable {known : List NodeId}

section Operands

@[simp] theorem asks_notWord :
    notWord.Asks known := by
  simp [notWord]

theorem builds_divertValue :
    divertValue.Builds fun id => [id] := by
  refine .ask (by simp) fun _ => ?_
  refine .then builds_singleDivert.parse fun divert => ?_
  refine .ask (by simp) fun kind => ?_
  split
  · refine .ask (by simp) fun _ => ?_
    refine .ask (by simp) fun _ => ?_
    exact .make (by simp) (by simp)
  · refine .ask asks_skipBlanks fun _ => ?_
    exact .make (by simp) (by simp)

theorem builds_floatLiteral :
    floatLiteral.Builds fun id => [id] := by
  refine .ask (by simp) fun digits => ?_
  exact builds_leaf rfl (by simp)

theorem builds_intLiteral :
    intLiteral.Builds fun id => [id] := by
  refine .ask (by simp) fun value => ?_
  exact builds_leaf rfl (by simp)

theorem builds_boolLiteral :
    boolLiteral.Builds fun id => [id] := by
  refine .ask (by simp) fun word => ?_
  split
  · exact builds_leaf rfl (by simp)
  · exact builds_leaf rfl (by simp)
  · exact .fail

theorem asks_anyNode
    {test : NodeId → GrammarRule Bool}
    {ids : List NodeId}
    (asks : ∀ id ∈ ids, (test id).Asks known) :
    (anyNode test ids).Asks known := by
  induction ids with
  | nil =>
      trivial
  | cons id others inductionHypothesis =>
      refine Rule.asks_bind.mpr ⟨asks id List.mem_cons_self, fun holds => ?_⟩
      split
      · trivial
      · exact
          inductionHypothesis fun other member =>
            asks other (List.mem_cons_of_mem _ member)

theorem builds_stringLiteral :
    stringLiteral.Builds fun id => [id] := by
  refine .ask (by simp) fun _ => ?_
  refine .read (Rule.reads_setFlag _ _) fun _ => ?_
  refine .then builds_prose.triedNodes fun content => ?_
  refine .ask (by simp) fun _ => ?_
  refine .read (Rule.reads_setFlag _ _) fun _ => ?_
  split
  · refine .then (builds_makeText _) fun empty => ?_
    exact .make (by simp) (by simp)
  next content =>
    refine .ask (asks_anyNode fun id member => asks_isDivert (by simpa using member)) fun _ => ?_
    refine .remark (by simp) fun _ => ?_
    exact .make (by simp) (by simp)

/-- A string is looked into to tell whether it is plain text. -/
theorem reads_isPlainString
    {id : NodeId}
    (isKnown : id ∈ known) :
    (isPlainString id).Reads known := by
  refine .kindOf isKnown fun kind => ?_
  split
  next only =>
    refine .kindOf (by simp) fun inner => ?_
    split <;> exact (Rule.asks_pure _).reads
  next =>
    exact (Rule.asks_pure _).reads

theorem builds_literalValue :
    literalValue.Builds fun id => [id] := by
  apply Rule.Builds.oneOf
  simp [builds_floatLiteral, builds_intLiteral, builds_boolLiteral,
    builds_stringLiteral]

theorem builds_functionCall :
    functionCall.Builds fun id => [id] := by
  refine .then builds_identifier fun function => ?_
  refine .ask (by simp) fun _ => ?_
  refine .then builds_callArguments.parse fun arguments => ?_
  exact .make (by grind [NodeKind.children]) (by simp)

theorem builds_reference :
    reference.Builds fun id => [id] := by
  have path :
      (Rule.alternate (Rule.single identifier)
        (Rule.dropped (spaced (literal ".")))).Builds fun ids => ids :=
    .alternateNodes builds_identifier.single (.dropped (by simp))
  refine .then path fun path => ?_
  split
  next first isFirst =>
    refine .ask (asks_identifierName ?_) fun first => ?_
    · simpa using List.mem_of_head? isFirst
    · refine .ask (by simp) fun _ => ?_
      exact .make (by simp) (by simp)
  next =>
    refine .ask (by simp) fun _ => ?_
    refine .ask (by simp) fun _ => ?_
    exact .make (by simp) (by simp)

theorem builds_parenthesised :
    parenthesised.Builds fun id => [id] := by
  refine .ask (by simp) fun _ => ?_
  refine .then builds_expression.parse fun inner => ?_
  refine .ask (by simp) fun _ => ?_
  refine .ask (by simp) fun _ => ?_
  exact .pure (by simp)

theorem builds_listMember :
    listMember.Builds fun id => [id] := by
  refine .ask (by simp) fun _ => ?_
  refine .ask (by simp) fun first => ?_
  refine .ask (by simp) fun hasPoint => ?_
  split
  · refine .ask (by simp) fun element => ?_
    refine .ask (by simp) fun full => ?_
    refine .ask (by simp) fun _ => ?_
    exact builds_leaf rfl (by simp)
  · refine .ask (by simp) fun full => ?_
    refine .ask (by simp) fun _ => ?_
    exact builds_leaf rfl (by simp)

theorem builds_listLiteral :
    listLiteral.Builds fun id => [id] := by
  refine .ask (by simp) fun _ => ?_
  refine .ask (by simp) fun _ => ?_
  refine .ask (by simp) fun _ => ?_
  have members :
      (Rule.separated listMember (spaced (literal ","))).Builds fun ids => ids := by
    simpa using builds_listMember.separated (by simp)
  refine .then (members.attempt (·.getD []) rfl) fun items => ?_
  refine .ask (by simp) fun _ => ?_
  refine .ask (by simp) fun _ => ?_
  exact .make (by simp) (by simp)

/-- The sign of a number becomes part of a new one; the old one is dropped. -/
theorem owns_signed
    (op : UnaryOp)
    (inner : NodeId) :
    (signed op inner).Owns [inner] fun id => [id] := by
  refine .ask (by simp) fun kind => ?_
  split <;> exact .make (by simp) (by simp)

theorem asks_identifierNames
    {ids : List NodeId}
    (areKnown : ids ⊆ known) :
    (identifierNames ids).Asks known := by
  induction ids with
  | nil =>
      trivial
  | cons id others inductionHypothesis =>
      obtain ⟨isKnown, othersKnown⟩ := List.cons_subset.mp areKnown
      refine Rule.asks_bind.mpr ⟨asks_identifierName isKnown, fun name => ?_⟩
      exact Rule.asks_bind.mpr ⟨inductionHypothesis othersKnown, by simp⟩

/-- The names of a path may be used once more. -/
theorem owns_joinedIdentifier
    (path : List NodeId) :
    (joinedIdentifier path).Owns path fun id => [id] := by
  unfold joinedIdentifier
  split
  · exact .pure (by simp)
  · refine .ask (asks_identifierNames (List.Subset.refl path)) fun names => ?_
    exact .make (by simp) (by simp)

@[simp] theorem asks_sign :
    sign.Asks known := by
  refine Rule.asks_bind.mpr ⟨Rule.asks_oneOf (by simp) fun _ => rfl, fun mark => ?_⟩
  split <;> simp

theorem builds_bareOperand
    (sign : Option UnaryOp) :
    (bareOperand sign).Builds fun id => [id] := by
  have term :
      (Rule.oneOf [listLiteral, parenthesised, functionCall, reference,
        literalValue]).Builds fun id => [id] := by
    apply Rule.Builds.oneOf
    simp [builds_listLiteral, builds_parenthesised, builds_functionCall,
      builds_reference, builds_literalValue]
  have operand :
      (Rule.effect (.read .operand)).Builds fun id => [id] :=
    Rule.builds_construct .operand
  refine .then (term.attempt Option.toList rfl) fun found => ?_
  split
  · exact .pure (by simp)
  · exact operand.parse
  · exact .fail

/-- A step takes the names out of the reference that it is applied to. -/
theorem owns_stepAfter
    (value : NodeId) :
    (stepAfter value).Owns [value] fun id => [id] := by
  refine .ask (Rule.asks_oneOf (by simp) fun _ => rfl) fun step => ?_
  split
  · exact .pure (by simp)
  · refine .kindOf [] (by simp) fun kind => ?_
    split
    next path =>
      right
      refine .using [] (owns_joinedIdentifier path) (by simp) fun name => ?_
      exact .make (by simp) (by simp)
    next =>
      left
      refine .ask (asks_survey.mpr (by simp)) fun draft => ?_
      refine .ask (by simp) fun _ => ?_
      exact .pure (by simp)

theorem builds_operand :
    operand.Builds fun id => [id] := by
  refine .then builds_divertValue.triedNode ?_
  rintro (_ | value)
  · refine .ask (by simp) fun sign => ?_
    refine .ask (by simp) fun _ => ?_
    refine .then (builds_bareOperand sign) fun bare => ?_
    split
    next op =>
      refine .using [] (owns_signed op bare) (by simp) fun value => ?_
      refine .ask (by simp) fun _ => ?_
      exact owns_stepAfter value
    next =>
      refine .certain ?_
      refine .ask (by simp) fun _ => ?_
      exact owns_stepAfter bare
  · exact .pure (by simp)

end Operands

section Sequences

@[simp] theorem asks_symbolAnnotation :
    symbolAnnotation.Asks known := by
  simp [ symbolAnnotation]

@[simp] theorem asks_sequenceWord :
    sequenceWord.Asks known := by
  refine Rule.asks_bind.mpr ⟨asks_name, fun word => ?_⟩
  split <;> simp

@[simp] theorem asks_wordAnnotation :
    wordAnnotation.Asks known := by
  simp [ wordAnnotation, Rule.asks_alternate]

@[simp] theorem asks_sequenceAnnotation :
    sequenceAnnotation.Asks known := by
  refine Rule.asks_bind.mpr ⟨by simp, fun found => ?_⟩
  split <;> simp

/-- The nodes of a piece, unless it is a bar. -/
def BarPiece.nodes : BarPiece → List NodeId
  | .content nodes => nodes
  | .bar => []

/-- Bars part content without losing or repeating any of it. -/
theorem flatten_alternativesOf
    (afterContent : Bool)
    (pieces : List BarPiece) :
    (alternativesOf afterContent pieces).flatten =
      pieces.flatMap BarPiece.nodes := by
  induction pieces generalizing afterContent with
  | nil =>
      cases afterContent <;> rfl
  | cons piece rest inductionHypothesis =>
      cases piece <;> cases afterContent <;>
        simp [alternativesOf, BarPiece.nodes, inductionHypothesis]

theorem builds_barSeparated :
    barSeparated.Builds List.flatten := by
  have content :
      (do return BarPiece.content (← prose) : GrammarRule BarPiece).Builds
        BarPiece.nodes :=
    .then builds_prose fun nodes => .pure (by simp [BarPiece.nodes])
  have bar :
      (do
        literal "|"
        return BarPiece.bar : GrammarRule BarPiece).Builds BarPiece.nodes :=
    .ask (by simp) fun _ => .pure (by simp [BarPiece.nodes])
  have pieces :
      (Rule.alternate (Rule.optionally do return BarPiece.content (← prose))
        (Rule.single do
          literal "|"
          return BarPiece.bar)).Builds fun found =>
            found.flatMap BarPiece.nodes :=
    .alternate content.optionally bar.single
  refine .then pieces fun found => ?_
  exact .pure (by simp [flatten_alternativesOf])

theorem owns_trimmedLists
    (contents : List (List NodeId)) :
    (trimmedLists contents).Owns contents.flatten fun ids => ids := by
  induction contents with
  | nil =>
      exact .pure (by simp)
  | cons content others inductionHypothesis =>
      unfold trimmedLists
      refine
        .using others.flatten (owns_trimContentStart content) (by simp)
          fun fromStart => ?_
      refine
        .using others.flatten (owns_trimContentEnd fromStart) (by simp)
          fun trimmed => ?_
      refine
        .using others.flatten (.make (Nat.le_refl <| List.count · trimmed) (by simp)) (by simp)
          fun list => ?_
      refine .using [list] inductionHypothesis (by grind) fun rest => ?_
      exact .pure (by grind)

theorem builds_inlineAlternatives :
    inlineAlternatives.Builds fun ids => ids := by
  refine .then builds_barSeparated fun contents => ?_
  rw [List.append_nil]
  exact owns_trimmedLists contents

theorem builds_dashedAlternative :
    dashedAlternative.Builds fun id => [id] := by
  refine .ask (by simp) fun _ => ?_
  refine .ask (by simp) fun isArrow => ?_
  split
  · exact .fail
  · refine .ask (by simp) fun _ => ?_
    refine .ask (by simp) fun _ => ?_
    refine .then ((builds_statements .block).attempt (·.getD []) rfl) ?_
    rintro (_ | content)
    · refine .ask (by simp) fun _ => ?_
      exact .make (by simp) (by simp)
    · refine .then (builds_makeText _) fun lineFeed => ?_
      exact .make (by grind [NodeKind.children]) (by simp)

theorem builds_dashedAlternatives :
    dashedAlternatives.Builds fun ids => ids := by
  refine .ask (by simp) fun _ => ?_
  simpa using builds_dashedAlternative.oneOrMore

theorem builds_alternatives :
    alternatives.Builds fun ids => ids := by
  refine .ask (by simp) fun lineEnds => ?_
  split
  · exact builds_dashedAlternatives.parse
  · exact builds_inlineAlternatives.parse

theorem builds_unannotatedSequence :
    unannotatedSequence.Builds fun id => [id] := by
  refine .ask (by simp) fun _ => ?_
  refine .ask (by simp) fun annotation => ?_
  refine .then builds_alternatives.parse fun found => ?_
  refine .ask (by simp) fun _ => ?_
  exact .make (by simp) (by simp)

end Sequences

section Conditionals

theorem asks_branchOf
    {id : NodeId}
    (isKnown : id ∈ known) :
    (branchOf id).Asks known := by
  refine Rule.asks_bind.mpr ⟨asks_kindOf.mpr isKnown, fun kind => ?_⟩
  split <;> trivial

theorem asks_refuseStep
    {id : NodeId}
    (isKnown : id ∈ known) :
    (refuseStep id).Asks known := by
  refine Rule.asks_bind.mpr ⟨asks_kindOf.mpr isKnown, fun kind => ?_⟩
  split <;> simp

theorem builds_condition :
    condition.Builds fun id => [id] := by
  refine .then builds_expression.parse fun found => ?_
  refine .ask (asks_refuseStep (by simp)) fun _ => ?_
  refine .ask (by simp) fun _ => ?_
  refine .ask (by simp) fun _ => ?_
  exact .pure (by simp)

@[simp] theorem asks_elseMark :
    elseMark.Asks known := by
  simp [elseMark]

theorem builds_inlineBranches :
    inlineBranches.Builds fun ids => ids := by
  refine .then builds_barSeparated fun contents => ?_
  split
  · exact .pure (by simp)
  next held =>
    refine .bind (.make (by simp) (by simp)) fun only => ?_
    exact .pure (by simp)
  next held otherwise =>
    refine
      .using otherwise (.make (Nat.le_refl <| List.count · held) (by simp))
        (by simp) fun first => ?_
    refine
      .using [first] (.make (Nat.le_refl <| List.count · otherwise) (by simp))
        (by grind) fun second => ?_
    exact .pure (by grind)
  · refine .ask (by simp) fun _ => ?_
    exact .pure (by simp)

theorem builds_ownCondition
    (isElse : Bool) :
    (ownCondition isElse).Builds Option.toList := by
  unfold ownCondition
  split
  · exact .pure (by simp)
  · exact builds_condition.triedNode

theorem builds_branchContent
    (own : Option NodeId) :
    (branchContent own).Builds fun ids => ids := by
  refine
    .then ((builds_statements .block).attempt (·.getD []) rfl) fun found => ?_
  split
  · exact .pure (by simp)
  · split
    · refine .ask (by simp) fun _ => ?_
      refine .then (builds_makeText _) fun empty => ?_
      exact .pure (by simp)
    · exact .pure (by simp)

theorem builds_dashedBranch :
    dashedBranch.Builds fun id => [id] := by
  refine .ask (by simp) fun _ => ?_
  refine .ask (by simp) fun isArrow => ?_
  split
  · exact .fail
  · refine .ask (by simp) fun _ => ?_
    refine .ask (by simp) fun _ => ?_
    refine .ask (by simp) fun elseMark => ?_
    refine .then (builds_ownCondition _) fun own => ?_
    refine .then (builds_branchContent own) fun content => ?_
    refine .ask (by simp) fun _ => ?_
    exact .make (by grind [NodeKind.children]) (by simp)

theorem builds_dashedBranches :
    dashedBranches.Builds fun ids => ids := by
  refine .ask (by simp) fun _ => ?_
  refine .then builds_dashedBranch.oneOrMore fun branches => ?_
  refine .ask (by simp) fun _ => ?_
  exact .pure (by simp)

theorem owns_requireElse
    {second : NodeId}
    {given : List NodeId}
    (isGiven : second ∈ given) :
    (requireElse second).Owns given fun _ => given := by
  refine .ask (asks_branchOf isGiven) fun arm => ?_
  split
  · refine .ask (asks_errorAt isGiven _) fun _ => ?_
    exact .amend isGiven (by simp)
  · exact .pure (by simp)

theorem builds_undashedBranches :
    undashedBranches.Builds fun ids => ids := by
  refine .then (builds_statements .block) fun content => ?_
  refine .bind (.make (by simp) (by simp)) fun first => ?_
  refine .then builds_dashedBranch.triedNode ?_
  rintro (_ | second)
  · exact .pure (by simp)
  · refine .bind (owns_requireElse (by simp)) fun _ => ?_
    exact .pure (by grind)

theorem asks_onlyElse
    {branches : List NodeId}
    (areKnown : branches ⊆ known) :
    (onlyElse branches).Asks known := by
  unfold onlyElse
  split
  · refine Rule.asks_bind.mpr ⟨asks_branchOf (areKnown (by simp)), by simp⟩
  · trivial

theorem builds_blockBranches
    (subject : Option NodeId) :
    (blockBranches subject).Builds fun ids => ids := by
  refine .then builds_dashedBranches.triedNodes fun found => ?_
  split
  · refine .ask (asks_onlyElse (by simp)) fun isElse => ?_
    split
    · refine .then (builds_leaf rfl (by simp)) fun added => ?_
      exact .pure (by simp)
    · exact .pure (by simp)
  · split
    · exact .fail
    · exact builds_undashedBranches

theorem owns_settleComparedBranch
    {id : NodeId}
    {given : List NodeId}
    (isGiven : id ∈ given)
    (count earlier : Nat)
    (earlierConditions isLast : Bool)
    (arm : Branch) :
    (settleComparedBranch count earlier earlierConditions isLast id arm).Owns
      given fun _ => given := by
  have amends
      (isTrueBranch isElse matchingEquality : Bool) :
      (amend id (.role isTrueBranch isElse matchingEquality)).Owns given
        fun _ => given :=
    .amend isGiven (by simp)
  unfold settleComparedBranch
  split
  · exact amends _ _ _
  · split
    · exact amends _ _ _
    · split
      · exact (asks_errorAt isGiven _).owns (by simp)
      · split
        · exact amends _ _ _
        · exact amends _ _ _

theorem owns_settleCompared
    {branches given : List NodeId}
    (areGiven : branches ⊆ given)
    (count earlier : Nat)
    (earlierConditions : Bool) :
    (settleCompared count earlier earlierConditions branches).Owns given
      fun _ => given := by
  induction branches generalizing earlier earlierConditions with
  | nil =>
      exact .pure (by simp)
  | cons id rest inductionHypothesis =>
      obtain ⟨isGiven, restGiven⟩ := List.cons_subset.mp areGiven
      refine .ask (asks_branchOf isGiven) fun arm => ?_
      refine .bind (owns_settleComparedBranch isGiven _ _ _ _ _) fun _ => ?_
      exact inductionHypothesis restGiven _ _

theorem owns_settleConditionBranch
    {last id : NodeId}
    {given : List NodeId}
    (lastGiven : last ∈ given)
    (isGiven : id ∈ given)
    (isLast : Bool)
    (arm : Branch) :
    (settleConditionBranch last isLast id arm).Owns given
      fun _ => given := by
  unfold settleConditionBranch
  split
  · split
    · exact .amend isGiven (by simp)
    · split
      · refine .ask (asks_branchOf lastGiven) fun arm => ?_
        split
        · exact (asks_errorAt lastGiven _).owns (by simp)
        · exact (asks_errorAt isGiven _).owns (by simp)
      · exact (asks_errorAt isGiven _).owns (by simp)
  · exact .pure (by simp)

theorem owns_settleConditions
    {last : NodeId}
    {branches given : List NodeId}
    (lastGiven : last ∈ given)
    (areGiven : branches ⊆ given) :
    (settleConditions last branches).Owns given fun _ => given := by
  induction branches with
  | nil =>
      exact .pure (by simp)
  | cons id rest inductionHypothesis =>
      obtain ⟨isGiven, restGiven⟩ := List.cons_subset.mp areGiven
      refine .ask (asks_branchOf isGiven) fun arm => ?_
      refine .bind (owns_settleConditionBranch lastGiven isGiven _ _) fun _ => ?_
      exact inductionHypothesis restGiven

theorem owns_settleBranches
    (subject : Option NodeId)
    (branches : List NodeId) :
    (settleBranches subject branches).Owns branches fun _ => branches := by
  unfold settleBranches
  split
  · exact owns_settleCompared (List.Subset.refl branches) _ _ _
  next last isLast =>
    exact
      owns_settleConditions (List.mem_of_getLast? isLast)
        (List.Subset.refl branches)
  · exact .pure (by simp)

theorem owns_amendAll
    {amendment : Amendment}
    {ids given : List NodeId}
    (appendsNone : ∀ child, amendment ≠ .append child)
    (areGiven : ids ⊆ given) :
    (amendAll amendment ids).Owns given fun _ => given := by
  induction ids with
  | nil =>
      exact .pure (by simp)
  | cons id others inductionHypothesis =>
      obtain ⟨isGiven, othersGiven⟩ := List.cons_subset.mp areGiven
      refine .bind (.amend isGiven appendsNone) fun _ => ?_
      exact inductionHypothesis othersGiven

theorem builds_settledBranches
    (subject : Option NodeId) :
    (settledBranches subject).Builds fun ids => ids := by
  refine .then (builds_blockBranches subject) fun found => ?_
  rw [List.append_nil]
  refine .bind (owns_settleBranches subject found) fun _ => ?_
  exact .pure (by simp)

theorem builds_branches
    (subject : Option NodeId) :
    (branches subject).Builds fun ids => ids := by
  refine .ask (by simp) fun lineEnds => ?_
  extract_lets isInline
  split
  · exact .fail
  · refine
      .either (fun ids => ids) builds_inlineBranches
        (builds_settledBranches subject) fun found => ?_
    refine .bind (owns_amendAll (by simp) (List.Subset.refl found)) fun _ => ?_
    exact .pure (by simp)

theorem builds_conditional :
    conditional.Builds fun id => [id] := by
  refine .then builds_condition.triedNode fun subject => ?_
  refine .then (builds_branches subject).parse fun found => ?_
  exact .make (by grind [NodeKind.children]) (by simp)

end Conditionals

section Braces

theorem builds_annotatedSequence
    (type : SequenceType) :
    (annotatedSequence type).Builds fun id => [id] := by
  refine .then (builds_alternatives.expect _) fun found => ?_
  exact .make (by simp) (by simp)

theorem owns_conditionalOn
    (subject : NodeId) :
    (conditionalOn subject).Owns [subject] fun id => [id] := by
  refine .then ((builds_branches (some subject)).expect _) fun found => ?_
  exact .make (by grind [NodeKind.children]) (by simp)

theorem builds_upToBrace
    {rule : GrammarRule NodeId}
    (builds : rule.Builds fun id => [id]) :
    (upToBrace rule).Builds fun id => [id] := by
  refine .then builds.parse fun found => ?_
  refine .ask (by simp) fun _ => ?_
  exact .pure (by simp)

theorem builds_braceContent :
    braceContent.Builds fun id => [id] := by
  refine .ask (by simp) fun _ => ?_
  refine .ask (by simp) fun annotation => ?_
  split
  · exact builds_annotatedSequence _
  · refine .then builds_condition.triedNode fun subject => ?_
    split
    next subject =>
      exact owns_conditionalOn subject
    next =>
      apply Rule.Builds.firstOf
      simp [builds_upToBrace builds_conditional,
        builds_upToBrace builds_unannotatedSequence,
        builds_upToBrace builds_expression]

theorem owns_asContentList
    (id : NodeId) :
    (asContentList id).Owns [id] fun list => [list] := by
  refine .ask (by simp) fun kind => ?_
  split
  · exact .pure (by simp)
  · exact .make (by simp) (by simp)

/-- The end of a tag has neither span nor children, so any list can take it. -/
theorem owns_appendMarker
    (list : NodeId) :
    ((do
        let marker ← make (.tag false)
        Rule.setFlag Flag.tagOpen false
        return [marker]) >>=
      appendTo list : GrammarRule Unit).Owns [list] fun _ => [list] := by
  intro origin admits read include_ supplies machine low nodes reaches low_le
    holds
  let marked : Machine Workshop :=
    { machine with
      stack :=
        machine.stack.modifyTop (·.setFlag Flag.tagOpen false)
      host :=
        { machine.host with
          draft := (machine.host.draft.add (.tag false)).2 } }
  have isOld : list.index < machine.host.draft.size :=
    holds.forest.lt_size (holds.forest.mem_of_root List.mem_cons_self)
  have isThere : marked.host.draft.missingAmong? [list] = none := by
    refine Draft.missingAmong?_eq_none_iff.mpr fun id member => ?_
    rw [List.mem_singleton.mp member]
    exact
      Nat.lt_of_lt_of_le isOld
        (Draft.spares_add machine.host.draft (.tag false) none).size_le
  change
    (((amend list (.append ⟨machine.host.draft.size⟩)).run
        (Workshop.handle read include_) marked).andThen
      fun _ => .matched ()).Guarantees _ _
  rw [Rule.run_amend isThere]
  refine
    ⟨(Machine.Proceeds.work machine _).trans
      ((Machine.Proceeds.setFlag _ Flag.tagOpen false).trans (.work _ _)), ?_⟩
  apply holds.gains_append rfl (by simp)
  · intro kind
    cases kind <;> simp [Amendment.apply]
  · intro kind story included
    exact Rule.includedFile_of_apply included

theorem owns_closeTagInto
    (list : NodeId) :
    (do appendTo list (← closeTag)).Owns [list] fun _ => [list] := by
  refine Rule.owns_assoc.mpr (.ask (by simp) fun isOpen => ?_)
  split
  · exact owns_appendMarker list
  · exact .pure (by simp)

theorem builds_braces :
    braces.Builds fun id => [id] := by
  refine .ask (by simp) fun _ => ?_
  refine .ask (by simp) fun inString => ?_
  refine .ask (by simp) fun tagOpen => ?_
  refine .ask (by simp) fun _ => ?_
  refine
    .then ((builds_braceContent.expect _).attempt Option.toList rfl)
      fun found => ?_
  split
  · refine .read (Rule.reads_setFlag _ _) fun _ => ?_
    exact .fail
  next logic =>
    refine .ask (asks_refuseStep (by simp)) fun _ => ?_
    refine .using [] (owns_asContentList logic) (by simp) fun list => ?_
    refine .ask (by simp) fun _ => ?_
    refine .ask (by simp) fun _ => ?_
    refine .read (Rule.reads_setFlag _ _) fun _ => ?_
    split
    · exact
        Rule.owns_assoc.mp
          (.bind (owns_closeTagInto list) fun _ => .pure (by simp))
    · exact .pure (by simp)

theorem builds_mixedProse :
    mixedProse.Builds fun ids => ids :=
  builds_proseOf builds_braces

end Braces

end InkSyntax.Grammar
