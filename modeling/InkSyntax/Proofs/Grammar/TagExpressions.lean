import InkSyntax.Proofs.Grammar.TagProse

namespace InkSyntax.Grammar

/-!
# Tags in expressions and in logic in braces

An expression changes where one is only through what it contains: prose in a string,
and diverts.  Logic in braces that stands outside of tags ends outside of them, since
the end of a tag that was begun inside is put at the end of what the braces hold.
-/

open InkSyntax.Flag (Anyhow Stands Closed Quoted Within Exactly Calm Suits)
open Rule (attempt parse literal Carries)
open Reading (Site)

attribute [local simp] NodeKind.children

variable
    {start : Bool}
    {rest : TagTest}

section Operands

theorem carries_divertValue
    (calm : Calm rest) :
    divertValue.Carries start rest rest [] fun id => [id] := by
  refine .ask (by simp) fun _ => ?_
  refine .bind (carries_singleDivert calm).parse fun divert => ?_
  refine .ask (by simp) fun kind => ?_
  split
  · refine .ask (by simp) fun _ => ?_
    refine .ask (by simp) fun _ => ?_
    exact .make rfl rfl
  · refine .ask asks_skipBlanks fun _ => ?_
    exact .make rfl rfl

theorem carries_floatLiteral :
    floatLiteral.Carries start rest rest [] fun id => [id] := by
  refine .ask (by simp) fun digits => ?_
  exact carries_leaf rfl rfl

theorem carries_intLiteral :
    intLiteral.Carries start rest rest [] fun id => [id] := by
  refine .ask (by simp) fun value => ?_
  exact carries_leaf rfl rfl

theorem carries_boolLiteral :
    boolLiteral.Carries start rest rest [] fun id => [id] := by
  refine .ask (by simp) fun word => ?_
  split
  · exact carries_leaf rfl rfl
  · exact carries_leaf rfl rfl
  · exact .fail

/-- What a string holds is read as prose that ends at a quotation mark. -/
theorem carries_stringLiteral_of
    {quoted post : TagTest}
    (enters :
      ∀ {flags inside later},
        rest flags inside →
        Flag.marksTag later = Flag.marksTag flags →
        Flag.marksString later = true →
        quoted later inside)
    (content : ∀ {start}, prose.Carries start quoted post [] fun ids => ids)
    (stays : ∀ {flags inside}, quoted flags inside → post flags inside)
    (leaves :
      ∀ {flags inside later},
        post flags inside →
        Flag.marksTag later = Flag.marksTag flags →
        rest later inside) :
    stringLiteral.Carries start rest rest [] fun id => [id] := by
  refine .ask (by simp) fun _ => ?_
  refine .bind (Rule.carries_setInString true enters) fun _ => ?_
  refine
    .bind (.attempt (·.getD []) content.parse content.parse.recovers rfl stays)
      fun content => ?_
  refine .ask (by simp) fun _ => ?_
  refine
    .bind (Rule.carries_setInString false fun passes same _ => leaves passes same)
      fun _ => ?_
  split
  · exact .bind (carries_makeText _) fun empty => .make rfl rfl
  next content =>
    refine .ask (asks_anyNode fun id member => asks_isDivert (by simpa using member)) fun _ => ?_
    exact .remark (by simp) fun _ => .make rfl rfl

theorem carries_stringLiteral
    (calm : Calm rest) :
    stringLiteral.Carries start rest rest [] fun id => [id] := by
  refine .of_calm calm ?_ ?_
  · have quoted {start : Bool} :
        prose.Carries start Quoted Closed [] fun ids => ids :=
      ⟨fun balances => balances.quoted⟩
    refine carries_stringLiteral_of ?_ quoted (·.1) ?_
    · exact fun closed same isString => ⟨⟨same.trans closed.1, closed.2⟩, isString⟩
    · exact fun closed same => ⟨same.trans closed.1, closed.2⟩
  · refine carries_stringLiteral_of ?_ carries_prose id ?_
    · exact fun tells same _ => tells.trans same.symm
    · exact fun tells same => tells.trans same.symm

theorem carries_literalValue
    (calm : Calm rest) :
    literalValue.Carries start rest rest [] fun id => [id] := by
  apply Carries.oneOf
  simp [carries_floatLiteral, carries_intLiteral, carries_boolLiteral,
    carries_stringLiteral calm]

theorem carries_functionCall
    (calm : Calm rest) :
    functionCall.Carries start rest rest [] fun id => [id] := by
  refine .bind carries_identifier fun function => ?_
  refine .ask (by simp) fun _ => ?_
  refine .then (carries_callArguments calm).parse fun arguments => ?_
  exact .make rfl rfl

/-- Names do not change where one is, so a reference may be taken apart. -/
theorem carries_reference :
    reference.Carries start rest rest [] fun id => [id] := by
  refine .of_exactly fun {flags inside} => ?_
  have path :
      (Rule.alternate (Rule.single identifier)
        (Rule.dropped (spaced (literal ".")))).Carries inside
          (Exactly flags inside) (Exactly flags inside) [] fun ids => ids :=
    .alternateNodes carries_identifier.single (Rule.carries_dropped (by simp))
  have made (path : List NodeId) :
      (make (.reference path)).Carries inside (Exactly flags inside)
        (Exactly flags inside) path fun id => [id] := by
    refine .makeFitting ?_ rfl
    rintro _ _ ⟨-, rfl⟩
    exact .of_isLevel rfl
  refine .bind path fun path => ?_
  split
  next first isFirst =>
    refine .ask (asks_identifierName ?_) fun first => ?_
    · simpa using List.mem_of_head? isFirst
    · exact .ask (by simp) fun _ => made path
  next =>
    refine .ask (by simp) fun _ => ?_
    exact .ask (by simp) fun _ => made path

theorem carries_parenthesised
    (calm : Calm rest) :
    parenthesised.Carries start rest rest [] fun id => [id] := by
  refine .ask (by simp) fun _ => ?_
  refine .bind (carries_expression calm).parse fun inner => ?_
  refine .ask (by simp) fun _ => ?_
  refine .ask (by simp) fun _ => ?_
  exact .pure rfl

theorem carries_listMember :
    listMember.Carries start rest rest [] fun id => [id] := by
  refine .ask (by simp) fun _ => ?_
  refine .ask (by simp) fun first => ?_
  refine .ask (by simp) fun hasPoint => ?_
  split
  · refine .ask (by simp) fun element => ?_
    refine .ask (by simp) fun full => ?_
    refine .ask (by simp) fun _ => ?_
    exact carries_leaf rfl rfl
  · refine .ask (by simp) fun full => ?_
    refine .ask (by simp) fun _ => ?_
    exact carries_leaf rfl rfl

theorem carries_listLiteral :
    listLiteral.Carries start rest rest [] fun id => [id] := by
  refine .ask (by simp) fun _ => ?_
  refine .ask (by simp) fun _ => ?_
  refine .ask (by simp) fun _ => ?_
  have members :
      (Rule.separated listMember (spaced (literal ","))).Carries start rest rest
        [] fun ids => ids := by
    simpa using Carries.separated carries_listMember (by simp)
  refine
    .bind (.attempt (·.getD []) members carries_listMember.recovers_separated rfl id)
      fun items => ?_
  refine .ask (by simp) fun _ => ?_
  refine .ask (by simp) fun _ => ?_
  exact .make rfl rfl

/-- The sign of a number becomes part of a new one; the old one is dropped. -/
theorem carries_signed
    (op : UnaryOp)
    (inner : NodeId) :
    (signed op inner).Carries start rest rest [inner] fun id => [id] := by
  refine .kindOf fun kind => ?_
  split
  · exact ⟨[], .of_leaf rfl (by simp), .make rfl rfl⟩
  · exact ⟨[], .of_leaf rfl (by simp), .make rfl rfl⟩
  · exact ⟨[], .of_leaf rfl (by simp), .make rfl rfl⟩
  · exact ⟨[], .of_leaf rfl (by simp), .make rfl rfl⟩
  · exact ⟨[], .of_leaf rfl (by simp), .make rfl rfl⟩
  · exact ⟨[inner], .refl, .make rfl rfl⟩

/-- The name below a reference is used once more, or a new one is made of several. -/
theorem exists_carries_joinedIdentifier
    (value : NodeId)
    (path : List NodeId) :
    ∃ left,
      Draft.MakesWay value (.reference path) [value] left ∧
        (joinedIdentifier path).Carries start rest rest left fun id => [id] := by
  unfold joinedIdentifier
  split
  next single =>
    exact ⟨[single], .apart (by simp), .pure rfl⟩
  next =>
    refine ⟨[], .of_isLevel rfl, ?_⟩
    refine
      .askAbout (asks_identifierNames (List.Subset.refl path)) fun names => ?_
    exact .make rfl rfl

theorem carries_bareOperand
    (calm : Calm rest)
    (sign : Option UnaryOp) :
    (bareOperand sign).Carries start rest rest [] fun id => [id] := by
  have term :
      (Rule.oneOf [listLiteral, parenthesised, functionCall, reference,
        literalValue]).Carries start rest rest [] fun id => [id] := by
    apply Carries.oneOf
    simp [carries_listLiteral, carries_parenthesised calm,
      carries_functionCall calm, carries_reference, carries_literalValue calm]
  have operand {start : Bool} :
      (Rule.effect (.read .operand) : GrammarRule NodeId).Carries start rest
        rest [] fun id => [id] :=
    ⟨fun balances => balances.operand calm⟩
  refine .bind (.attempt Option.toList term term.recovers rfl id) fun found => ?_
  split
  · exact .pure rfl
  · exact operand.parse
  · exact .fail

theorem carries_stepAfter
    (value : NodeId) :
    (stepAfter value).Carries start rest rest [value] fun id => [id] := by
  refine .ask (Rule.asks_oneOf (by simp) fun _ => rfl) fun step => ?_
  split
  · exact .pure rfl
  · refine .kindOf fun kind => ?_
    split
    next path =>
      obtain ⟨left, makesWay, joins⟩ := exists_carries_joinedIdentifier value path
      exact ⟨left, makesWay, .bind joins fun name => .make rfl rfl⟩
    next =>
      exact ⟨_, .refl, .ask (asks_survey.mpr (by simp)) fun draft => .error⟩

theorem carries_operand
    (calm : Calm rest) :
    operand.Carries start rest rest [] fun id => [id] := by
  refine .bind (carries_divertValue calm).triedNode ?_
  rintro (_ | value)
  · refine .ask (by simp) fun sign => ?_
    refine .ask (by simp) fun _ => ?_
    refine .then (carries_bareOperand calm sign) fun bare => ?_
    split
    next op =>
      refine .bind (carries_signed op bare) fun value => ?_
      refine .ask (by simp) fun _ => ?_
      exact carries_stepAfter value
    next =>
      refine .certain ?_
      refine .ask (by simp) fun _ => ?_
      exact carries_stepAfter bare
  · exact .pure rfl

/-- What an attempt to extend an expression carries on. -/
def Extension.whole (left : NodeId) : Extension → List NodeId
  | .grown expression => [expression]
  | _ => [left]

theorem carries_rightSide
    (calm : Calm rest)
    (left : NodeId)
    (operator : Infix) :
    (rightSide left operator).Carries start rest rest [left] fun id => [id] := by
  refine .ask (by simp) fun _ => ?_
  have right {start : Bool} :
      (Rule.effect (.read (.expression operator.strength)) :
        GrammarRule NodeId).Carries start rest rest [] fun id => [id] :=
    ⟨fun balances => balances.expression _ calm⟩
  exact .then right.parse fun right => .makeSpanning rfl rfl

theorem carries_extend
    (calm : Calm rest)
    (weakerThan : Nat)
    (left : NodeId) :
    (extend weakerThan left).Carries start rest rest [left]
      (Extension.whole left) := by
  refine Carries.scope ?_ (fun _ _ _ => rfl) ?_
  · refine .ask (by simp) fun operator => ?_
    split
    · exact .pure rfl
    next operator =>
      split
      · have grows (description : String) :
            (attempt (Rule.expect (rightSide left operator) description)).Carries
              start rest rest [left] fun found => [found.getD left] :=
          .triedExpect (carries_rightSide calm left operator) description
        refine .bind (grows _) ?_
        rintro (_ | binary)
        · exact .pure rfl
        · exact .pure rfl
      · exact .pure rfl
  · rintro (binary | _ | _) fated
    · cases fated
    · exact ⟨rfl, id⟩
    · exact ⟨rfl, id⟩

theorem carries_expressionAbove
    (calm : Calm rest)
    (weakerThan : Nat) :
    (expressionAbove weakerThan).Carries start rest rest [] fun id => [id] := by
  refine .ask (by simp) fun _ => ?_
  have first :
      (Rule.effect (.read .operand) : GrammarRule NodeId).Carries start rest
        rest [] fun id => [id] :=
    ⟨fun balances => balances.operand calm⟩
  refine .bind first.parse fun first => ?_
  refine .ask (by simp) fun _ => ?_
  have rounds
      {round : NodeId → GrammarRule (NodeId ⊕ NodeId)}
      (grows :
        ∀ left,
          (round left).Carries start rest rest [left]
            (Sum.elim (fun id => [id]) fun id => [id])) :
      (Rule.loop first round).Carries start rest rest [first] fun id => [id] :=
    .loop _ grows first
  refine .bind (rounds fun left => ?_) fun whole => ?_
  · refine .bind (carries_extend calm weakerThan left) ?_
    rintro (binary | _ | _)
    · exact .pure rfl
    · exact .fail
    · exact .pure rfl
  · refine .ask (by simp) fun _ => ?_
    exact .pure rfl

end Operands

section Sequences

theorem carries_statements
    {place : Place}
    (suits : Suits place rest) :
    (statements place).Carries start rest rest [] fun ids => ids :=
  ⟨fun balances => balances.statements suits⟩

theorem recovers_statements
    {place : Place}
    (suits : Suits place rest) :
    (statements place).Recovers start rest :=
  fun _ _ _ _ balances => balances.recovers suits

/-- Statements in a block may be read inside and outside of tags. -/
theorem suits_block :
    Suits .block Anyhow :=
  ⟨Flag.calm_anyhow, fun isOther => (isOther rfl).elim⟩

theorem carries_triedBlock :
    (attempt (statements .block)).Carries start Anyhow Anyhow []
      (·.getD []) :=
  .attempt _ (carries_statements suits_block) (recovers_statements suits_block)
    rfl id

theorem carries_barSeparated :
    barSeparated.Carries start Anyhow Anyhow [] List.flatten := by
  have content {start : Bool} :
      (do return BarPiece.content (← prose) : GrammarRule BarPiece).Carries start
        Anyhow Anyhow [] BarPiece.nodes :=
    .bind carries_prose fun nodes => .pure rfl
  have bar {start : Bool} :
      (do
        literal "|"
        return BarPiece.bar : GrammarRule BarPiece).Carries start Anyhow Anyhow []
          BarPiece.nodes :=
    .ask (by simp) fun _ => .pure rfl
  have pieces :
      (Rule.alternate (Rule.optionally do return BarPiece.content (← prose))
        (Rule.single do
          literal "|"
          return BarPiece.bar)).Carries start Anyhow Anyhow [] fun found =>
            found.flatMap BarPiece.nodes :=
    .alternate content.optionally bar.single
  refine .bind pieces fun found => ?_
  exact .pure (flatten_alternativesOf false found).symm

theorem carries_trimmedLists
    (contents : List (List NodeId)) :
    (trimmedLists contents).Carries start rest rest contents.flatten
      fun ids => ids := by
  induction contents generalizing start with
  | nil =>
      exact .pure rfl
  | cons content others inductionHypothesis =>
      unfold trimmedLists
      rw [List.flatten_cons]
      refine .bind (.behind (carries_trimContentStart content) _) fun fromStart => ?_
      refine .bind (.behind (carries_trimContentEnd fromStart) _) fun trimmed => ?_
      refine .bind (.behind (.make rfl rfl) _) fun list => ?_
      refine .bind (Carries.frame inductionHypothesis [list]) fun lists => ?_
      exact .pure rfl

theorem carries_inlineAlternatives :
    inlineAlternatives.Carries start Anyhow Anyhow [] fun ids => ids :=
  .bind carries_barSeparated carries_trimmedLists

theorem carries_dashedAlternative :
    dashedAlternative.Carries start Anyhow Anyhow [] fun id => [id] := by
  refine .ask (by simp) fun _ => ?_
  refine .ask (by simp) fun isArrow => ?_
  split
  · exact .fail
  · refine .ask (by simp) fun _ => ?_
    refine .ask (by simp) fun _ => ?_
    refine .bind carries_triedBlock ?_
    rintro (_ | content)
    · refine .ask (by simp) fun _ => ?_
      exact .make rfl rfl
    · refine .bind (.behind (carries_makeText _) content) fun lineFeed => ?_
      exact .make rfl rfl

theorem carries_dashedAlternatives :
    dashedAlternatives.Carries start Anyhow Anyhow [] fun ids => ids := by
  refine .ask (by simp) fun _ => ?_
  simpa using Carries.oneOrMore carries_dashedAlternative

theorem carries_alternatives :
    alternatives.Carries start Anyhow Anyhow [] fun ids => ids := by
  refine .ask (by simp) fun lineEnds => ?_
  split
  · exact carries_dashedAlternatives.parse
  · exact carries_inlineAlternatives.parse

theorem carries_unannotatedSequence :
    unannotatedSequence.Carries start Anyhow Anyhow [] fun id => [id] := by
  refine .ask (by simp) fun _ => ?_
  refine .ask (by simp) fun annotation => ?_
  refine .bind carries_alternatives.parse fun found => ?_
  refine .ask (by simp) fun _ => ?_
  exact .make rfl rfl

end Sequences

section Conditionals

theorem carries_condition :
    condition.Carries start Anyhow Anyhow [] fun id => [id] := by
  refine .bind (carries_expression Flag.calm_anyhow).parse fun found => ?_
  refine .ask (asks_refuseStep (by simp)) fun _ => ?_
  refine .ask (by simp) fun _ => ?_
  refine .ask (by simp) fun _ => ?_
  exact .pure rfl

theorem carries_inlineBranches :
    inlineBranches.Carries start Anyhow Anyhow [] fun ids => ids := by
  refine .bind carries_barSeparated fun contents => ?_
  split
  · exact .pure rfl
  next held =>
    refine .bind (.make rfl (by simp)) fun only => ?_
    exact .pure rfl
  next held otherwise =>
    rw [List.flatten_cons, List.flatten_singleton]
    refine .bind (.behind (.make rfl rfl) otherwise) fun first => ?_
    refine .bind (Carries.frame (.make rfl rfl) [first]) fun second => ?_
    exact .pure rfl
  · exact .error

theorem carries_ownCondition
    (isElse : Bool) :
    (ownCondition isElse).Carries start Anyhow Anyhow [] Option.toList := by
  unfold ownCondition
  split
  · exact .pure rfl
  · exact carries_condition.triedNode

theorem carries_branchContent
    (own : Option NodeId) :
    (branchContent own).Carries start Anyhow Anyhow [] fun ids => ids := by
  refine .bind carries_triedBlock fun found => ?_
  split
  · exact .pure rfl
  · split
    · exact .error
    · exact .pure rfl

theorem carries_dashedBranch :
    dashedBranch.Carries start Anyhow Anyhow [] fun id => [id] := by
  refine .ask (by simp) fun _ => ?_
  refine .ask (by simp) fun isArrow => ?_
  split
  · exact .fail
  · refine .ask (by simp) fun _ => ?_
    refine .ask (by simp) fun _ => ?_
    refine .ask (by simp) fun elseMark => ?_
    refine .bind (carries_ownCondition _) fun own => ?_
    refine .then (carries_branchContent own) fun content => ?_
    refine .ask (by simp) fun _ => ?_
    exact .make rfl rfl

theorem carries_dashedBranches :
    dashedBranches.Carries start Anyhow Anyhow [] fun ids => ids := by
  refine .ask (by simp) fun _ => ?_
  refine .bind (.oneOrMore carries_dashedBranch) fun branches => ?_
  refine .ask (by simp) fun _ => ?_
  exact .pure (by simp)

theorem carries_requireElse
    {second : NodeId}
    {given : List NodeId}
    (isGiven : second ∈ given) :
    (requireElse second).Carries start rest rest given fun _ => given := by
  refine .ask (asks_branchOf isGiven) fun arm => ?_
  split
  · refine .ask (asks_errorAt isGiven _) fun _ => ?_
    exact .amend second (by simp)
  · exact .pure rfl

theorem carries_undashedBranches :
    undashedBranches.Carries start Anyhow Anyhow [] fun ids => ids := by
  refine .bind (carries_statements suits_block) fun content => ?_
  refine .bind (.make rfl rfl) fun first => ?_
  refine .then carries_dashedBranch.triedNode ?_
  rintro (_ | second)
  · exact .pure rfl
  · refine .bind (carries_requireElse (by simp)) fun _ => ?_
    exact .pure rfl

theorem carries_blockBranches
    (subject : Option NodeId) :
    (blockBranches subject).Carries start Anyhow Anyhow [] fun ids => ids := by
  refine .bind carries_dashedBranches.triedNodes fun found => ?_
  split
  next branches =>
    refine .ask (asks_onlyElse (by simp)) fun isElse => ?_
    split
    · refine .bind (.behind (carries_leaf rfl rfl) branches) fun added => ?_
      exact .pure rfl
    · exact .pure rfl
  · split
    · exact .fail
    · exact carries_undashedBranches

section Settling

variable
    {id : NodeId}
    {branches given : List NodeId}

theorem carries_settleComparedBranch
    (isGiven : id ∈ given)
    (count earlier : Nat)
    (earlierConditions isLast : Bool)
    (arm : Branch) :
    (settleComparedBranch count earlier earlierConditions isLast id arm).Carries
      start rest rest given fun _ => given := by
  have amends
      (isTrueBranch isElse matchingEquality : Bool) :
      (amend id (.role isTrueBranch isElse matchingEquality)).Carries start rest
        rest given fun _ => given :=
    .amend id (by simp)
  unfold settleComparedBranch
  split
  · exact amends _ _ _
  · split
    · exact amends _ _ _
    · split
      · exact (asks_errorAt isGiven _).carries fun _ => rfl
      · split
        · exact amends _ _ _
        · exact amends _ _ _

theorem carries_settleCompared
    (areGiven : branches ⊆ given)
    (count earlier : Nat)
    (earlierConditions : Bool) :
    (settleCompared count earlier earlierConditions branches).Carries start rest
      rest given fun _ => given := by
  induction branches generalizing earlier earlierConditions with
  | nil =>
      exact .pure rfl
  | cons id others inductionHypothesis =>
      obtain ⟨isGiven, othersGiven⟩ := List.cons_subset.mp areGiven
      refine .ask (asks_branchOf isGiven) fun arm => ?_
      refine .bind (carries_settleComparedBranch isGiven _ _ _ _ _) fun _ => ?_
      exact inductionHypothesis othersGiven _ _

theorem carries_settleConditionBranch
    {last : NodeId}
    (lastGiven : last ∈ given)
    (isGiven : id ∈ given)
    (isLast : Bool)
    (arm : Branch) :
    (settleConditionBranch last isLast id arm).Carries start rest rest given
      fun _ => given := by
  unfold settleConditionBranch
  split
  · split
    · exact .amend id (by simp)
    · split
      · refine .ask (asks_branchOf lastGiven) fun arm => ?_
        split
        · exact (asks_errorAt lastGiven _).carries fun _ => rfl
        · exact (asks_errorAt isGiven _).carries fun _ => rfl
      · exact (asks_errorAt isGiven _).carries fun _ => rfl
  · exact .pure rfl

theorem carries_settleConditions
    {last : NodeId}
    (lastGiven : last ∈ given)
    (areGiven : branches ⊆ given) :
    (settleConditions last branches).Carries start rest rest given
      fun _ => given := by
  induction branches with
  | nil =>
      exact .pure rfl
  | cons id others inductionHypothesis =>
      obtain ⟨isGiven, othersGiven⟩ := List.cons_subset.mp areGiven
      refine .ask (asks_branchOf isGiven) fun arm => ?_
      refine .bind (carries_settleConditionBranch lastGiven isGiven _ _) fun _ => ?_
      exact inductionHypothesis othersGiven

theorem carries_settleBranches
    (subject : Option NodeId)
    (branches : List NodeId) :
    (settleBranches subject branches).Carries start rest rest branches
      fun _ => branches := by
  unfold settleBranches
  split
  · exact carries_settleCompared (List.Subset.refl branches) _ _ _
  next last isLast =>
    exact
      carries_settleConditions (List.mem_of_getLast? isLast)
        (List.Subset.refl branches)
  · exact .pure rfl

theorem carries_amendAll
    {amendment : Amendment}
    (appendsNone : ∀ child, amendment ≠ .append child)
    (ids : List NodeId) :
    (amendAll amendment ids).Carries start rest rest given fun _ => given := by
  induction ids with
  | nil =>
      exact .pure rfl
  | cons id others inductionHypothesis =>
      exact .bind (.amend id appendsNone) fun _ => inductionHypothesis

end Settling

theorem carries_settledBranches
    (subject : Option NodeId) :
    (settledBranches subject).Carries start Anyhow Anyhow [] fun ids => ids := by
  refine .bind (carries_blockBranches subject) fun found => ?_
  refine .bind (carries_settleBranches subject found) fun _ => ?_
  exact .pure rfl

theorem carries_branches
    (subject : Option NodeId) :
    (branches subject).Carries start Anyhow Anyhow [] fun ids => ids := by
  refine .ask (by simp) fun lineEnds => ?_
  extract_lets isInline
  split
  · exact .fail
  · refine
      .either (fun ids => ids) carries_inlineBranches
        (carries_settledBranches subject) fun found => ?_
    refine .bind (carries_amendAll (by simp) found) fun _ => ?_
    exact .pure rfl

theorem carries_conditional :
    conditional.Carries start Anyhow Anyhow [] fun id => [id] := by
  refine .bind carries_condition.triedNode fun subject => ?_
  refine .then (carries_branches subject).parse fun found => ?_
  exact .make rfl rfl

end Conditionals

section Braces

theorem carries_annotatedSequence
    (type : SequenceType) :
    (annotatedSequence type).Carries start Anyhow Anyhow [] fun id => [id] := by
  refine .bind (carries_alternatives.expect _) fun found => ?_
  exact .make rfl rfl

theorem carries_conditionalOn
    (subject : NodeId) :
    (conditionalOn subject).Carries start Anyhow Anyhow [subject]
      fun id => [id] := by
  refine .then ((carries_branches (some subject)).expect _) fun found => ?_
  exact .make rfl rfl

theorem carries_upToBrace
    {rule : GrammarRule NodeId}
    (carries : rule.Carries start Anyhow Anyhow [] fun id => [id]) :
    (upToBrace rule).Carries start Anyhow Anyhow [] fun id => [id] := by
  refine .bind carries.parse fun found => ?_
  refine .ask (by simp) fun _ => ?_
  exact .pure rfl

theorem carries_braceContent :
    braceContent.Carries start Anyhow Anyhow [] fun id => [id] := by
  refine .ask (by simp) fun _ => ?_
  refine .ask (by simp) fun annotation => ?_
  split
  · exact carries_annotatedSequence _
  · refine .bind carries_condition.triedNode fun subject => ?_
    split
    next subject =>
      exact carries_conditionalOn subject
    next =>
      apply Carries.firstOf
      simp [carries_upToBrace carries_conditional,
        carries_upToBrace carries_unannotatedSequence,
        carries_upToBrace (carries_expression Flag.calm_anyhow)]

variable
    {library : Library}
    {maxDepth files levels : Nat}
    {machine : Machine Workshop}
    {list : NodeId}
    {inside : Bool}

theorem ensures_made
    {kind : StoryKind}
    {onMatch : NodeId → Machine Workshop → Prop}
    {onFailure : Machine Workshop → Prop}
    (holds :
      ∀ id after,
        after.top.flags = machine.top.flags →
        after.host.draft.kind? id = some kind →
        onMatch id after) :
    Ensures library maxDepth files levels (make kind) machine onMatch
      onFailure :=
  holds _ _ rfl (Draft.kind?_add machine.host.draft kind none)

/-- The end of a tag makes no more than one marker, and leaves the flag for strings alone. -/
theorem ensures_closeTag_marker :
    Ensures library maxDepth files levels closeTag machine
      (fun markers after =>
        Flag.marksString after.top.flags = Flag.marksString machine.top.flags ∧
          (markers = [] ∨
            ∃ marker,
              markers = [marker] ∧
                after.host.draft.kind? marker = some (.tag false)))
      fun _ => True := by
  refine ensures_bind (ensures_hasFlag ?_)
  split
  · refine ensures_bind (ensures_made fun marker made sameFlags isMarker => ?_)
    have apart : Flag.tagOpen &&& Flag.inString = 0 := by decide
    have sameString := made.top.hasFlag_setFlag_of_apart apart false
    refine ensures_bind (ensures_setFlag (ensures_pure ?_))
    rw [← sameFlags]
    exact ⟨sameString, .inr ⟨marker, rfl, isMarker⟩⟩
  · exact ensures_pure ⟨rfl, .inl rfl⟩

/-- A marker put into a content list takes one on from the end of what it held. -/
theorem ensures_appendMarker
    {content : List NodeId}
    {marker : NodeId}
    {after : Bool}
    (isList : machine.host.draft.kind? list = some (.contentList content))
    (isMarker : machine.host.draft.kind? marker = some (.tag false))
    (toggles : machine.host.draft.Toggles start [list] inside)
    (further : machine.host.draft.Toggles inside [marker] after) :
    Ensures library maxDepth files levels (amend list (.append marker)) machine
      (fun _ later =>
        later.top.flags = machine.top.flags ∧
          later.host.draft.Toggles start [list] after)
      fun _ => True := by
  -- Nothing is below a marker, so the list is not.
  have isElsewhere : ¬ machine.host.draft.Reaches marker list := by
    intro reaches
    rcases Relation.ReflTransGen.cases_head reaches with rfl | ⟨child, isChild, -⟩
    · rw [isList] at isMarker
      cases isMarker
    · rw [Draft.childrenOf, isMarker] at isChild
      cases isChild
  change (Workshop.unlessMissing (·.missingAmong? [list]) _ machine).Ensures _ _
  exact
    Workshop.ensures_unlessMissing
      ⟨rfl, toggles.appended isList further isElsewhere⟩

/-- The end of a tag goes to the end of what the braces hold. -/
theorem ensures_closeTagInto
    {content : List NodeId}
    (balances : Balances library maxDepth files levels)
    (isList : machine.host.draft.kind? list = some (.contentList content))
    (anyhow : Anyhow machine.top.flags inside)
    (toggles : machine.host.draft.Toggles start [list] inside) :
    EnsuresCleanly library maxDepth files levels
      (do
        let markers ← closeTag
        appendTo list markers
        return list) machine
      (fun id after =>
        Flag.marksString after.top.flags = Flag.marksString machine.top.flags ∧
          after.Bears Closed start [id])
      fun _ => True := by
  have closes :=
    (carries_closeTag.carrying balances machine anyhow .nil).also
      ensures_closeTag_marker
  refine .bind (EnsuresCleanly.mono closes ?_ fun _ _ => trivial)
  rintro markers closed
    ⟨keeps, ⟨_, isClosed, marked⟩, sameString, markers_eq⟩
  have toggles := toggles.kept keeps
  rcases markers_eq with rfl | ⟨marker, rfl, isMarker⟩
  · obtain rfl := marked.eq_of_nil
    exact .bind (.pure (.pure ⟨sameString, _, isClosed, toggles⟩))
  · obtain ⟨later, isLater, becomes⟩ := keeps list _ isList
    obtain rfl : later = .contentList content := by
      rcases becomes with same | ⟨isAmendable, -⟩
      · exact same
      · cases isAmendable
    have appends :
        Ensures library maxDepth files levels (amend list (.append marker))
          closed _ _ :=
      ensures_appendMarker isLater isMarker toggles marked
    refine .bind (.bind (.of_ensures (appends.mono ?_ fun _ => id)))
    rintro - appended ⟨sameFlags, toggles⟩
    refine .pure (.pure ?_)
    rw [Machine.Bears, sameFlags]
    exact ⟨sameString, _, isClosed, toggles⟩

/-- The flag for strings is as it was in front of braces, and so is that for tags if none
was open. -/
def Resumed (wasString wasOpen : Bool) : TagTest :=
  fun flags inside =>
    Anyhow flags inside ∧
      Flag.marksString flags = wasString ∧
      (wasOpen = false → Flag.marksTag flags = false)

/-- What was read in braces is a content list at their end. -/
theorem ensures_bracesEnd
    {content : List NodeId}
    (wasString wasOpen : Bool)
    (balances : Balances library maxDepth files levels)
    (isList : machine.host.draft.kind? list = some (.contentList content))
    (anyhow : Anyhow machine.top.flags inside)
    (toggles : machine.host.draft.Toggles start [list] inside) :
    EnsuresCleanly library maxDepth files levels
      (do
        skipBlanks
        let _ ← attempt
          (Rule.expect (literal "\x7d") "closing brace '\x7d' for inline logic")
        Rule.setFlag Flag.inString wasString
        if !wasOpen then appendTo list (← closeTag)
        return list) machine
      (fun id after => after.Bears (Resumed wasString wasOpen) start [id])
      fun _ => True := by
  have skips : skipBlanks.Asks [] := by simp
  refine .ask skips (fun _ skipped first => ?_) fun _ _ => trivial
  have closes :
      (attempt
        (Rule.expect (literal "\x7d")
          "closing brace '\x7d' for inline logic")).Asks [] := by simp
  refine .ask closes (fun _ closed second => ?_) fun _ _ => trivial
  have rests := first.trans second
  have isList : closed.host.draft.kind? list = some (.contentList content) := by
    rw [Draft.kind?_eq_getElem?, rests.kinds, ← Draft.kind?_eq_getElem?]
    exact isList
  have toggles := toggles.kept (.of_kinds rests.kinds)
  rw [← rests.flags] at anyhow
  let reset : Machine Workshop :=
    closed.modifyTop fun checkpoint => checkpoint.setFlag Flag.inString wasString
  have sameTag :
      Flag.marksTag reset.top.flags = Flag.marksTag closed.top.flags :=
    closed.top.hasFlag_setFlag_of_apart (by decide) wasString
  have isString : Flag.marksString reset.top.flags = wasString :=
    closed.top.hasFlag_setFlag (by decide) wasString
  have anyhowThen : Anyhow reset.top.flags inside := anyhow.trans sameTag.symm
  refine .bind (.of_ensures (ensures_setFlag ?_))
  change EnsuresCleanly _ _ _ _ _ reset _ _
  cases wasOpen with
  | true =>
      exact .pure ⟨_, ⟨anyhowThen, isString, nofun⟩, toggles⟩
  | false =>
      refine
        EnsuresCleanly.mono
          (ensures_closeTagInto balances isList anyhowThen toggles) ?_
          fun _ => id
      rintro id after ⟨sameString, _, isClosed, toggles⟩
      exact
        ⟨_, ⟨Flag.calm_closed.tells isClosed, sameString.trans isString,
          fun _ => isClosed.1⟩, toggles⟩

theorem ensures_braces
    {wasString wasOpen : Bool}
    (balances : Balances library maxDepth files levels)
    (isString : Flag.marksString machine.top.flags = wasString)
    (isOpen : Flag.marksTag machine.top.flags = wasOpen) :
    EnsuresCleanly library maxDepth files levels braces machine
      (fun id after => after.Bears (Resumed wasString wasOpen) wasOpen [id])
      fun _ => True := by
  have begins : (literal "\x7b" : GrammarRule Unit).Asks [] := by simp
  refine .ask begins (fun _ begun first => ?_) fun _ _ => trivial
  rw [← first.flags] at isString isOpen
  subst isString isOpen
  refine .bind (.of_ensures (ensures_hasFlag ?_))
  refine .bind (.of_ensures (ensures_hasFlag ?_))
  have skips : skipBlanks.Asks [] := by simp
  refine .ask skips (fun _ skipped second => ?_) fun _ _ => trivial
  have anyhow : Anyhow skipped.top.flags (Flag.marksTag begun.top.flags) := by
    rw [second.flags]
    rfl
  have content (description : String) :
      (attempt (Rule.expect braceContent description)).Carries
        (Flag.marksTag begun.top.flags) Anyhow Anyhow [] Option.toList :=
    .triedExpect carries_braceContent description
  refine
    .bind
      (EnsuresCleanly.mono ((content _).carrying balances skipped anyhow .nil) ?_
        fun _ _ => trivial)
  rintro (_ | logic) middle ⟨-, inside, tells, toggles⟩
  · exact .bind (.of_ensures (ensures_setFlag (.of_ensures trivial)))
  · have allows : (refuseStep logic).Asks [logic] := asks_refuseStep (by simp)
    refine .ask allows (fun _ allowed third => ?_) fun _ _ => trivial
    rw [← third.flags] at tells
    have toggles := toggles.kept (.of_kinds third.kinds)
    refine .bind (.kindOf fun kind made => ?_)
    split
    next content =>
      exact .pure (ensures_bracesEnd _ _ balances made tells toggles)
    next =>
      have wraps :
          (make (.contentList [logic])).Carries (Flag.marksTag begun.top.flags)
            Anyhow Anyhow [logic] fun id => [id] :=
        .make rfl rfl
      have makes :=
        (wraps.carrying balances allowed tells toggles).also
          (ensures_made fun _ _ _ isList => isList)
      refine EnsuresCleanly.mono makes ?_ fun _ _ => trivial
      rintro list listed ⟨-, ⟨_, tells, toggles⟩, isList⟩
      exact ensures_bracesEnd _ _ balances isList tells toggles

/-- The list that takes a marker is new, as is all that braces make. -/
theorem carries_braces_of
    (tells : ∀ {flags inside}, rest flags inside → Anyhow flags inside)
    (resumes :
      ∀ {flags inside later state},
        rest flags inside →
        Resumed (Flag.marksString flags) (Flag.marksTag flags) later state →
        rest later state) :
    braces.Carries start rest rest [] fun id => [id] := by
  refine ⟨fun balances machine inside passes toggles => ?_⟩
  obtain rfl := toggles.eq_of_nil
  obtain rfl := tells passes
  refine
    ((ensures_braces balances rfl rfl).and
      (.of_ensures (ensures_adds builds_braces.adds))).mono ?_ ?_
  · rintro id after ⟨⟨_, resumed, toggles⟩, spares, -⟩
    exact ⟨.of_spares spares, _, resumes passes resumed, toggles⟩
  · rintro after ⟨-, spares⟩
    exact .of_spares spares

theorem carries_braces :
    braces.Carries start Anyhow Anyhow [] fun id => [id] :=
  carries_braces_of id fun _ resumed => resumed.1

theorem carries_braces_quoted :
    braces.Carries start Quoted Quoted [] fun id => [id] := by
  refine carries_braces_of (fun quoted => Flag.calm_closed.tells quoted.1) ?_
  rintro flags inside later state ⟨⟨isClosed, -⟩, isString⟩ ⟨tells, sameString, stays⟩
  have closedThen := stays isClosed
  exact ⟨⟨closedThen, tells.trans closedThen⟩, sameString.trans isString⟩

/-- Prose is read inside of tags and outside. -/
theorem carries_mixedProse :
    mixedProse.Carries start Anyhow Anyhow [] fun ids => ids :=
  carries_proseOf id id Flag.calm_closed.tells carries_braces carries_openTag

theorem carries_mixedProse_quoted :
    mixedProse.Carries start Quoted Closed [] fun ids => ids :=
  carries_proseOf (fun quoted => Flag.calm_closed.tells quoted.1) (·.1) id
    carries_braces_quoted carries_openTag_quoted

end Braces

end InkSyntax.Grammar
