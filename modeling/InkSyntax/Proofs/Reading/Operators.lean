import InkSyntax.Proofs.Reading.Words
import InkSyntax.Proofs.Story.Terms

namespace InkSyntax.Grammar

/-!
# Operators on a page

Each operator of the table is read as itself where a blank follows it, although some
spellings begin others.  An expression reads an operand and then goes on as long as an
operator follows that binds tightly enough; where no operator follows, the expression
is its operand.
-/

open Machine (Silent IsReady)
open Reading (Site)

/-- What a node is, among nodes given by what they are. -/
def kindAmong
    (kinds : List StoryKind)
    (id : NodeId) :
    Option StoryKind :=
  kinds[id.index]?

theorem kindAmong_append
    {kinds : List StoryKind}
    (more : List StoryKind)
    (id : NodeId)
    (kind : StoryKind)
    (isKind : kindAmong kinds id = some kind) :
    kindAmong (kinds ++ more) id = some kind := by
  have within : id.index < kinds.length :=
    (List.getElem?_eq_some_iff.mp isKind).1
  rw [kindAmong, List.getElem?_append_left within]
  exact isKind

theorem kindAmong_last
    (kinds : List StoryKind)
    (kind : StoryKind) :
    kindAmong (kinds ++ [kind]) ⟨kinds.length⟩ = some kind := by
  simp [kindAmong]

/-- A binary node behind its operands represents both of them joined. -/
theorem represents_joint
    {leftKinds rightKinds : List StoryKind}
    {left right : Term}
    {leftId rightId : NodeId}
    (op : BinaryOp)
    (isLeft : left.Represents (kindAmong leftKinds) leftId)
    (isRight : right.Represents (kindAmong (leftKinds ++ rightKinds)) rightId) :
    (Term.binary left op right).Represents
      (kindAmong (leftKinds ++ rightKinds ++ [.binary leftId op rightId]))
      ⟨(leftKinds ++ rightKinds).length⟩ := by
  refine ⟨leftId, rightId, kindAmong_last _ _, ?_, ?_⟩
  · rw [List.append_assoc]
    exact isLeft.mono (kindAmong_append _)
  · exact isRight.mono (kindAmong_append _)

section Infixes

variable
    {depth : Nat}
    {kinds : List StoryKind}
    {text rest more : List Char}

/-- The rule for one operator of the table. -/
def infixRule (candidate : Infix) : GrammarRule Infix := do
  Rule.literal candidate.spelling
  if candidate.isWord then blanks
  return candidate

theorem infixOperator_eq :
    infixOperator = (do
      Rule.require (!(← Rule.peek (Rule.literal "->")))
      Rule.oneOf.firstOf (infixes.map infixRule)) :=
  rfl

/-- No operator begins one that stands before it in the table. -/
theorem infixes_pairwise :
    infixes.Pairwise fun first second =>
      ¬ first.spelling.toList <+: second.spelling.toList := by
  decide

theorem space_not_mem_spelling :
    ∀ candidate ∈ infixes, ' ' ∉ candidate.spelling.toList := by
  decide

theorem arrow_not_prefix :
    ∀ candidate ∈ infixes, ¬ "->".toList <+: candidate.spelling.toList := by
  decide

theorem strength_pos :
    ∀ candidate ∈ infixes, 0 < candidate.strength := by
  decide

/-- A text without blanks that stands before a blank stands before it as a whole. -/
theorem prefix_of_prefix_append_space
    {expected spelled : List Char}
    (solid : ' ' ∉ expected)
    (begins : expected <+: spelled ++ ' ' :: more) :
    expected <+: spelled := by
  have spaced : spelled ++ [' '] <+: spelled ++ ' ' :: more := by
    rw [List.prefix_append_right_inj]
    exact List.prefix_iff_eq_append.mpr rfl
  by_cases longer : expected.length ≤ spelled.length
  · exact List.prefix_of_prefix_length_le begins (List.prefix_append _ _) longer
  · have inside : spelled ++ [' '] <+: expected := by
      apply List.prefix_of_prefix_length_le spaced begins
      rw [List.length_append, List.length_singleton]
      omega
    exact absurd (inside.subset (by simp)) solid

/-- An operator of the table is read where a blank follows it. -/
theorem comesTo_infixOperator
    {candidate : Infix}
    (member : candidate ∈ infixes) :
    ∃ left,
      withoutBlanks left = withoutBlanks more ∧
        ComesTo infixOperator (depth + 1)
          ⟨candidate.spelling.toList ++ ' ' :: more, kinds⟩ (some candidate)
          ⟨left, kinds⟩ := by
  have noArrow :
      ¬ "->".toList <+: candidate.spelling.toList ++ ' ' :: more := by
    intro begins
    apply arrow_not_prefix candidate member
    exact prefix_of_prefix_append_space (by decide) begins
  obtain ⟨earlier, later, split⟩ := List.append_of_mem member
  have fail :
      ∀ rule ∈ earlier.map infixRule,
        Fails rule depth
          ⟨candidate.spelling.toList ++ ' ' :: more, kinds⟩ := by
    intro rule isEarlier
    obtain ⟨other, before, rfl⟩ := List.mem_map.mp isEarlier
    apply Fails.bind
    apply fails_literal
    intro begins
    have isInfix : other ∈ infixes := by
      rw [split]
      exact List.mem_append_left _ before
    have ordered := infixes_pairwise
    rw [split] at ordered
    apply (List.pairwise_append.mp ordered).2.2 other before candidate
      List.mem_cons_self
    exact
      prefix_of_prefix_append_space (space_not_mem_spelling other isInfix) begins
  have found :
      ∃ left,
        withoutBlanks left = withoutBlanks more ∧
          ComesTo (infixRule candidate) depth
            ⟨candidate.spelling.toList ++ ' ' :: more, kinds⟩
            (some candidate) ⟨left, kinds⟩ := by
    cases isWord : candidate.isWord with
    | true =>
        refine ⟨withoutBlanks more, ?_, ?_⟩
        · exact withoutBlanks_withoutBlanks more
        · apply (comesTo_literal rfl).bind
          simp only [isWord, ↓reduceIte]
          apply (comesTo_blanks (by simp [isInlineBlank])).bind
          exact comesTo_pure
    | false =>
        refine ⟨' ' :: more, rfl, ?_⟩
        apply (comesTo_literal rfl).bind
        simp only [isWord, Bool.false_eq_true, ↓reduceIte]
        exact comesTo_pure
  obtain ⟨left, same, comes⟩ := found
  refine ⟨left, same, ?_⟩
  rw [infixOperator_eq, split, List.map_append, List.map_cons]
  have ahead := (comesTo_literal_none depth kinds noArrow).peek
  apply ahead.bind
  apply comesTo_require.bind
  exact comes.firstOf _ fail

/-- Where none of their spellings stands, or a word goes on, no operator is read. -/
theorem fails_infixOperator
    (none :
      ∀ candidate ∈ infixes, ∀ left,
        text = candidate.spelling.toList ++ left →
          candidate.isWord = true ∧ StartsWithout isInlineBlank left) :
    Fails infixOperator (depth + 1) ⟨text, kinds⟩ := by
  have noArrow : ¬ "->".toList <+: text := by
    rintro ⟨left, rfl⟩
    have isWord := (none ⟨"-", .subtract, 5, false⟩ (by decide) ('>' :: left) rfl).1
    cases isWord
  have ahead := (comesTo_literal_none depth kinds noArrow).peek
  apply ahead.bind_fails
  apply comesTo_require.bind_fails
  refine ⟨_, comesTo_firstOf_none ?_⟩
  intro rule isRule
  obtain ⟨candidate, member, rfl⟩ := List.mem_map.mp isRule
  by_cases stands : candidate.spelling.toList <+: text
  · obtain ⟨left, rfl⟩ := stands
    obtain ⟨isWord, dark⟩ := none candidate member left rfl
    apply (comesTo_literal rfl).bind_fails
    simp only [isWord, ↓reduceIte]
    have noBlank : Fails blanks depth ⟨left, kinds⟩ :=
      (comesTo_chars_none dark.takeWhile).bind_none.fails
    exact noBlank.bind
  · exact (fails_literal stands).bind

end Infixes

section Expressions

variable
    {depth deeper : Nat}
    {text rest behind : List Char}
    {term left right : Term}

/-- From a text a rule reads a term up to the rest of the text, whatever nodes there are. -/
def ReadsTerm
    (rule : GrammarRule NodeId)
    (depth : Nat)
    (text : List Char)
    (term : Term)
    (rest : List Char) : Prop :=
  ∀ kinds, ∃ id more,
    ComesTo rule depth ⟨text, kinds⟩ (some id) ⟨rest, kinds ++ more⟩ ∧
      term.Represents (kindAmong (kinds ++ more)) id

theorem ReadsTerm.mono
    {rule : GrammarRule NodeId}
    (reads : ReadsTerm rule depth text term rest)
    (depth_le : depth ≤ deeper) :
    ReadsTerm rule deeper text term rest := by
  intro kinds
  obtain ⟨id, more, comes, represents⟩ := reads kinds
  exact ⟨id, more, comes.mono depth_le, represents⟩

/-- A run of the rule for expressions reads a term silently, up to the rest of the text. -/
def ReadsExpression
    (library : Library)
    (maxDepth files levels : Nat)
    (machine : Machine Workshop)
    (term : Term)
    (rest : List Char) : Prop :=
  ∃ id after,
    Site.outcome library maxDepth ⟨files, levels, expression, machine⟩ =
        .matched id after ∧
      Silent machine after ∧
      after.cursor.rest = rest ∧
      term.Represents after.host.draft.kind? id

theorem ReadsTerm.readsExpression
    (reads : ReadsTerm expression depth text term rest)
    {library : Library}
    {maxDepth files levels : Nat}
    {machine : Machine Workshop}
    (ready : machine.IsReady depth levels machine.page)
    (at_ : machine.cursor.rest = text) :
    ReadsExpression library maxDepth files levels machine term rest := by
  subst at_
  obtain ⟨id, more, comes, represents⟩ := reads machine.host.draft.kinds
  obtain ⟨after, silent, atLast, ran⟩ :=
    comes library maxDepth files levels machine ready
  obtain ⟨isRest, areKinds⟩ := Page.mk.inj atLast
  have sameKinds : after.host.draft.kind? = kindAmong (machine.host.draft.kinds ++ more) := by
    funext id
    rw [Draft.kind?_eq_getElem?, areKinds]
    rfl
  refine ⟨id, after, ran, silent, isRest, ?_⟩
  rw [sameKinds]
  exact represents

/-- No operator that binds tighter than some strength begins a text. -/
inductive EndsAbove
    (weakerThan : Nat)
    (text : List Char) : Prop where
  | noOperator
      (none :
        ∀ candidate ∈ infixes, ∀ left,
          text = candidate.spelling.toList ++ left →
            candidate.isWord = true ∧ StartsWithout isInlineBlank left)
  | weak
      {candidate : Infix}
      {more : List Char}
      (member : candidate ∈ infixes)
      (weak : candidate.strength ≤ weakerThan)
      (stands : text = candidate.spelling.toList ++ ' ' :: more)

theorem endsAbove_of_noPrefix
    {weakerThan : Nat}
    (none : ∀ candidate ∈ infixes, ¬ candidate.spelling.toList <+: text) :
    EndsAbove weakerThan text := by
  apply EndsAbove.noOperator
  intro candidate member left stands
  exact absurd ⟨left, stands.symm⟩ (none candidate member)

/-- Where no operator follows that binds tightly enough, an expression ends. -/
theorem EndsAbove.comesTo_extend
    {weakerThan : Nat}
    (ends : EndsAbove weakerThan text)
    (kinds : List StoryKind)
    (left : NodeId) :
    ComesTo (extend weakerThan left) (depth + 2) ⟨text, kinds⟩ (some .ended)
      ⟨text, kinds⟩ := by
  cases ends with
  | noOperator none =>
      obtain ⟨last, comes⟩ := fails_infixOperator none
      apply ComesTo.scope_undo last _ rfl
      exact comes.attempt.bind comesTo_pure
  | @weak candidate more member weak stands =>
      obtain ⟨left, -, comes⟩ := comesTo_infixOperator member
      rw [← stands] at comes
      apply ComesTo.scope_undo ⟨left, kinds⟩ _ rfl
      apply comes.attempt.bind
      simp only [Nat.not_lt_of_le weak, ↓reduceIte]
      exact comesTo_pure

/-- An operator that binds tightly enough joins what stands on either side. -/
theorem comesTo_extend
    (leftId : NodeId)
    {weakerThan : Nat}
    {candidate : Infix}
    {kinds more : List StoryKind}
    {rightId : NodeId}
    (member : candidate ∈ infixes)
    (strong : weakerThan < candidate.strength)
    (dark : withoutBlanks behind = text)
    (reads :
      ComesTo (expressionAbove candidate.strength) depth ⟨text, kinds⟩
        (some rightId) ⟨rest, more⟩) :
    ComesTo (extend weakerThan leftId) (depth + 4)
      ⟨candidate.spelling.toList ++ ' ' :: behind, kinds⟩
      (some (.grown ⟨more.length⟩))
      ⟨rest, more ++ [.binary leftId candidate.op rightId]⟩ := by
  obtain ⟨left, same, comes⟩ := comesTo_infixOperator member
  have joins :
      ComesTo (rightSide leftId candidate) (depth + 2) ⟨left, kinds⟩
        (some ⟨more.length⟩)
        ⟨rest, more ++ [.binary leftId candidate.op rightId]⟩ := by
    apply (comesTo_skipBlanks (same.trans dark)).bind
    apply (ComesTo.read (.expression candidate.strength) reads).parse.bind
    exact comesTo_makeSpanning
  refine ComesTo.scope_keep (comes.attempt.bind ?_) rfl
  simp only [strong, ↓reduceIte]
  apply joins.expect.attempt.bind
  exact comesTo_pure

/-- The loop of an expression, from one left side on. -/
def growth
    (weakerThan : Nat)
    (left : NodeId) :
    GrammarRule (NodeId ⊕ NodeId) := do
  match ← extend weakerThan left with
  | .grown binary => return .inl binary
  | .broken => Rule.fail
  | .ended => return .inr left

theorem expressionAbove_eq
    (weakerThan : Nat) :
    expressionAbove weakerThan = (do
      skipBlanks
      let first ← Rule.parse (Rule.effect (.read .operand))
      skipBlanks
      let whole ← Rule.loop first (growth weakerThan)
      skipBlanks
      return whole) :=
  rfl

theorem EndsAbove.rounds
    {weakerThan : Nat}
    (ends : EndsAbove weakerThan text)
    (depth : Nat)
    (kinds : List StoryKind)
    (left : NodeId) :
    Rounds (growth weakerThan) (depth + 2) left ⟨text, kinds⟩ (some left)
      ⟨text, kinds⟩ :=
  .last ((ends.comesTo_extend kinds left).bind comesTo_pure)

/-- An expression is its first operand with what it grows by. -/
theorem comesTo_expressionAbove
    (rest : List Char)
    {weakerThan : Nat}
    {first whole : NodeId}
    {kinds between more : List StoryKind}
    {middle : List Char}
    (operandComes :
      ComesTo operand depth ⟨text, kinds⟩ (some first) ⟨middle, between⟩)
    (dark : withoutBlanks behind = text)
    (rounds :
      Rounds (growth weakerThan) (depth + 2) first
        ⟨withoutBlanks middle, between⟩ (some whole)
        ⟨withoutBlanks rest, more⟩) :
    ComesTo (expressionAbove weakerThan) (depth + 2) ⟨behind, kinds⟩
      (some whole) ⟨withoutBlanks rest, more⟩ := by
  rw [expressionAbove_eq]
  apply (comesTo_skipBlanks dark).bind
  apply (ComesTo.read .operand operandComes).parse.bind
  apply (comesTo_skipBlanks rfl).bind
  apply rounds.loop.bind
  apply (comesTo_skipBlanks (withoutBlanks_withoutBlanks _)).bind
  exact comesTo_pure

/-- An operand behind which no operator follows is an expression. -/
theorem ReadsTerm.as_expression
    {weakerThan : Nat}
    (reads : ReadsTerm operand depth text term rest)
    (dark : withoutBlanks behind = text)
    (ends : EndsAbove weakerThan (withoutBlanks rest)) :
    ReadsTerm (expressionAbove weakerThan) (depth + 2) behind term
      (withoutBlanks rest) := by
  intro kinds
  obtain ⟨id, more, comes, represents⟩ := reads kinds
  exact
    ⟨id, more, comesTo_expressionAbove rest comes dark (ends.rounds _ _ id), represents⟩

end Expressions

end InkSyntax.Grammar
