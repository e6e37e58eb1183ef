import InkSyntax.Proofs.Reading.Operands
import InkSyntax.Proofs.Story.Grouping

namespace InkSyntax.Grammar

/-!
# Chains of operators

Variables and numbers with operators between them are read as one expression, whatever
operators these are.  An operator takes to its right all that binds tighter, in an
expression of its own, so the result is the grouped tree of the chain.  Expressions
nest no deeper than there are strengths, which bounds the scopes that a chain needs.
-/

open Machine (Silent IsReady)
open Reading (Site)

/-- An operand of a chain. -/
inductive Atom where
  | name
      (word : String)
      (isName : IsName word)
      (notReserved : word ∉ reservedWords)
  | number
      (digits : String)
      (nonempty : digits.toList ≠ [])
      (areDigits : digits.toList.all isDigit = true)
      (small : Rule.digitsValue digits ≤ 2147483647)

/-- An operator of the table and the operand behind it. -/
structure Operation where
  operator : Infix
  isInfix : operator ∈ infixes
  operand : Atom

namespace Atom

/-- An operand as it is written. -/
def written : Atom → String
  | .name word _ _ => word
  | .number digits _ _ _ => digits

/-- The term that an operand is. -/
def term : Atom → Term
  | .name word _ _ => .reference [word]
  | .number digits _ _ _ => .int (Rule.digitsValue digits)

@[simp] theorem joint?_term
    (atom : Atom) :
    atom.term.joint? = none := by
  cases atom <;> rfl

end Atom

/-- A chain as it is written, with single spaces around its operators. -/
def writtenChain
    (first : Atom)
    (operations : List Operation) :
    String :=
  first.written ++
    String.join
      (operations.map fun operation =>
        " " ++ operation.operator.spelling ++ " " ++ operation.operand.written)

/-- The operators of a chain with the operands behind them. -/
def joined (operations : List Operation) : List (BinaryOp × Term) :=
  operations.map fun operation =>
    (operation.operator.op, operation.operand.term)

/-- No operator that binds tighter than some strength comes next. -/
def EndsWith
    (weakerThan : Nat)
    (operations : List Operation) : Prop :=
  ∀ next ∈ operations.head?, next.operator.strength ≤ weakerThan

section Growth

/-- How a term grows by the operators behind it that are stronger than some strength. -/
inductive Grows :
    Nat → Term → List Operation → Term → List Operation → Prop where
  | ends
      {weakerThan : Nat}
      {left : Term}
      {operations : List Operation}
      (ends : EndsWith weakerThan operations) :
      Grows weakerThan left operations left operations
  | joins
      {weakerThan : Nat}
      {left right whole : Term}
      {operation : Operation}
      {operations behind rest : List Operation}
      (strong : weakerThan < operation.operator.strength)
      (takes :
        Grows operation.operator.strength operation.operand.term operations
          right behind)
      (goesOn :
        Grows weakerThan (.binary left operation.operator.op right) behind
          whole rest) :
      Grows weakerThan left (operation :: operations) whole rest

variable
    {weakerThan : Nat}
    {left whole : Term}
    {operations rest : List Operation}

/-- What is left of a chain stands at its end. -/
theorem Grows.suffix
    (grows : Grows weakerThan left operations whole rest) :
    rest <:+ operations := by
  induction grows with
  | ends ends =>
      exact List.suffix_rfl
  | joins strong takes goesOn takesHypothesis goesOnHypothesis =>
      apply goesOnHypothesis.trans
      exact takesHypothesis.trans (List.suffix_cons _ _)

/-- A term grows in some way, whatever comes behind it. -/
theorem exists_grows
    (weakerThan : Nat)
    (left : Term)
    (operations : List Operation) :
    ∃ whole rest, Grows weakerThan left operations whole rest := by
  induction length : operations.length using Nat.strongRecOn
    generalizing weakerThan left operations with
  | ind count inductionHypothesis =>
      cases operations with
      | nil =>
          exact ⟨left, [], .ends nofun⟩
      | cons operation operations =>
          rw [List.length_cons] at length
          by_cases strong : weakerThan < operation.operator.strength
          · obtain ⟨right, behind, takes⟩ :=
              inductionHypothesis operations.length (by omega)
                operation.operator.strength operation.operand.term operations rfl
            have shorter := takes.suffix.length_le
            obtain ⟨whole, rest, goesOn⟩ :=
              inductionHypothesis behind.length (by omega) weakerThan
                (.binary left operation.operator.op right) behind rfl
            exact ⟨whole, rest, .joins strong takes goesOn⟩
          · refine ⟨left, operation :: operations, .ends ?_⟩
            rintro next ⟨⟩
            exact Nat.le_of_not_lt strong

/-- Where a term stops growing, no stronger operator comes next. -/
theorem Grows.endsWith
    (grows : Grows weakerThan left operations whole rest) :
    EndsWith weakerThan rest := by
  induction grows with
  | ends ends =>
      exact ends
  | joins strong takes goesOn takesHypothesis goesOnHypothesis =>
      exact goesOnHypothesis

/-- Operators and operands stay in order. -/
theorem Grows.inorder
    (grows : Grows weakerThan left operations whole rest) :
    whole.inorder.1 = left.inorder.1 ∧
      whole.inorder.2 ++ joined rest = left.inorder.2 ++ joined operations := by
  induction grows with
  | ends ends =>
      exact ⟨rfl, rfl⟩
  | @joins weakerThan left right whole operation operations behind rest strong
      takes goesOn takesHypothesis goesOnHypothesis =>
      obtain ⟨takesFirst, takesRest⟩ := takesHypothesis
      obtain ⟨first, others⟩ := goesOnHypothesis
      have leaf := Term.inorder_of_joint? operation.operand.joint?_term
      rw [leaf] at takesFirst takesRest
      refine ⟨first, ?_⟩
      rw [others, Term.inorder, takesFirst, List.append_assoc, List.cons_append,
        takesRest]
      rfl

/-- The operator at the root of what was taken is stronger than asked for. -/
theorem Grows.stronger
    (grows : Grows weakerThan left operations whole rest)
    {op : BinaryOp}
    (joint : whole.joint? = some op)
    (atStart : ∀ inner, left.joint? = some inner → weakerThan < inner.strength) :
    weakerThan < op.strength := by
  induction grows with
  | ends ends =>
      exact atStart op joint
  | @joins weakerThan left right whole operation operations behind rest strong
      takes goesOn takesHypothesis goesOnHypothesis =>
      apply goesOnHypothesis joint
      rintro inner ⟨⟩
      rw [BinaryOp.strength_op _ operation.isInfix]
      exact strong

/-- A grouped term stays grouped, if what comes next is no stronger than its root. -/
theorem Grows.isGrouped
    (grows : Grows weakerThan left operations whole rest)
    (grouped : left.IsGrouped)
    (atLeast :
      ∀ inner, left.joint? = some inner → EndsWith inner.strength operations) :
    whole.IsGrouped := by
  induction grows with
  | ends ends =>
      exact grouped
  | @joins weakerThan left right whole operation operations behind rest strong
      takes goesOn takesHypothesis goesOnHypothesis =>
      have strength := BinaryOp.strength_op _ operation.isInfix
      have leaf := operation.operand.joint?_term
      have rightGrouped : right.IsGrouped := by
        apply takesHypothesis (Term.isGrouped_of_joint? leaf)
        intro inner joint
        rw [leaf] at joint
        cases joint
      apply goesOnHypothesis
      · refine ⟨grouped, rightGrouped, ?_, ?_⟩
        · intro inner joint
          rw [strength]
          exact atLeast inner joint operation rfl
        · intro inner joint
          rw [strength]
          apply takes.stronger joint
          intro other isOther
          rw [leaf] at isOther
          cases isOther
      · rintro inner ⟨⟩
        rw [strength]
        exact takes.endsWith

end Growth

section Reading

variable
    {depth : Nat}
    {tail rest : List Char}
    {operations : List Operation}

/-- The operators of a chain behind an operand, and what follows the chain. -/
def furtherOperations
    (tail : List Char) :
    List Operation → List Char
  | [] => tail
  | operation :: others =>
      ' ' ::
        (operation.operator.spelling.toList ++
          ' ' ::
            (operation.operand.written.toList ++
              furtherOperations tail others))

theorem toList_writtenChain
    (first : Atom)
    (operations : List Operation) :
    (writtenChain first operations).toList ++ tail =
      first.written.toList ++ furtherOperations tail operations := by
  rw [writtenChain, String.toList_append, List.append_assoc]
  apply congrArg
  induction operations with
  | nil =>
      rfl
  | cons operation others inductionHypothesis =>
      rw [furtherOperations, ← inductionHypothesis, List.map_cons,
        String.join_cons]
      simp

/-- What follows an operand of a chain does not make it longer. -/
theorem endsOperand_furtherOperations
    (ends : EndsLine tail)
    (operations : List Operation) :
    EndsOperand (furtherOperations tail operations) := by
  cases operations with
  | nil =>
      exact endsOperand_of_endsLine ends
  | cons operation others =>
      exact endsOperand_of_infix _ operation.isInfix

theorem withoutBlanks_furtherOperations_cons
    (operation : Operation)
    (others : List Operation) :
    withoutBlanks (furtherOperations tail (operation :: others)) =
      operation.operator.spelling.toList ++
        ' ' ::
          (operation.operand.written.toList ++ furtherOperations tail others) := by
  rw [furtherOperations, withoutBlanks_space]
  exact withoutBlanks_spelling operation.isInfix

/-- What comes next in a chain ends an expression, if it binds no tighter. -/
theorem EndsWith.endsAbove
    {weakerThan : Nat}
    (weak : EndsWith weakerThan operations)
    (ends : EndsLine tail) :
    EndsAbove weakerThan (withoutBlanks (furtherOperations tail operations)) := by
  cases operations with
  | nil =>
      have dark : withoutBlanks tail = tail :=
        (ends.startsWithout rfl rfl).dropWhile
      rw [furtherOperations, dark]
      exact endsAbove_of_endsLine _ ends
  | cons operation others =>
      rw [withoutBlanks_furtherOperations_cons]
      exact .weak operation.isInfix (weak operation rfl) rfl

theorem Atom.beginsBare
    (atom : Atom)
    (ends : EndsOperand rest) :
    BeginsBare (atom.written.toList ++ rest) := by
  cases atom with
  | name word isName notReserved =>
      apply beginsBare_name isName _ ends.word
      rintro rfl
      exact notReserved (by decide)
  | number digits nonempty areDigits small =>
      exact beginsBare_digits nonempty areDigits ends.word

/-- An operand of a chain is read as its term. -/
theorem Atom.readsTerm
    (atom : Atom)
    (ends : EndsOperand rest) :
    ReadsTerm operand (depth + 7) (atom.written.toList ++ rest) atom.term
      (withoutBlanks rest) := by
  have bare :
      ReadsTerm bareTerm (depth + 7) (atom.written.toList ++ rest) atom.term
        rest := by
    cases atom with
    | name word isName notReserved =>
        exact
          readsTerm_bare_reference _ [] (by simpa using isName)
            notReserved ends
    | number digits nonempty areDigits small =>
        have reads :=
          readsTerm_bare_digits depth nonempty areDigits
            (by rwa [String.ofList_toList]) ends
        rwa [String.ofList_toList] at reads
  exact ReadsTerm.as_operand bare (atom.beginsBare ends) ends

theorem length_furtherOperations_le
    (tail : List Char)
    {behind : List Operation}
    (suffix : behind <:+ operations) :
    (furtherOperations tail behind).length ≤
      (furtherOperations tail operations).length := by
  obtain ⟨before, rfl⟩ := suffix
  induction before with
  | nil =>
      exact Nat.le_refl _
  | cons operation others inductionHypothesis =>
      apply Nat.le_trans inductionHypothesis
      simp only [List.cons_append, furtherOperations, List.length_cons,
        List.length_append]
      omega

theorem strength_le
    {candidate : Infix}
    (member : candidate ∈ infixes) :
    candidate.strength ≤ 8 := by
  have all : ∀ candidate ∈ infixes, candidate.strength ≤ 8 := by
    decide
  exact all candidate member

/-- Room for an operand and the operators behind it that are stronger than some strength. -/
def growthRoom (weakerThan : Nat) : Nat :=
  4 * (8 - weakerThan) + 9

theorem growthRoom_add_le
    {candidate : Infix}
    {weakerThan : Nat}
    (member : candidate ∈ infixes)
    (strong : weakerThan < candidate.strength) :
    growthRoom candidate.strength + 4 ≤ growthRoom weakerThan := by
  have bounded := strength_le member
  unfold growthRoom
  omega

/-- What an operation leaves of a chain is shorter than the chain. -/
theorem length_furtherOperations_lt
    (tail : List Char)
    {behind : List Operation}
    (operation : Operation)
    (suffix : behind <:+ operations) :
    (withoutBlanks (furtherOperations tail behind)).length <
      (withoutBlanks (furtherOperations tail (operation :: operations))).length := by
  have stripped := length_withoutBlanks_le (furtherOperations tail behind)
  have kept := length_furtherOperations_le tail suffix
  rw [withoutBlanks_furtherOperations_cons]
  simp only [List.length_append, List.length_cons]
  omega

/-- A term grows on a page as its chain says. -/
theorem Grows.rounds
    {weakerThan : Nat}
    {left whole : Term}
    {behind : List Operation}
    (grows : Grows weakerThan left operations whole behind)
    (ends : EndsLine tail)
    {kinds : List StoryKind}
    {id : NodeId}
    (represents : left.Represents (kindAmong kinds) id) :
    ∃ result more,
      Rounds (growth weakerThan) (growthRoom weakerThan) id
          ⟨withoutBlanks (furtherOperations tail operations), kinds⟩
          (some result)
          ⟨withoutBlanks (furtherOperations tail behind), kinds ++ more⟩ ∧
        whole.Represents (kindAmong (kinds ++ more)) result := by
  induction grows generalizing kinds id with
  | @ends weakerThan left operations weak =>
      have rounds :=
        (weak.endsAbove ends).rounds (4 * (8 - weakerThan) + 7) kinds id
      refine ⟨id, [], ?_, ?_⟩
      · rwa [List.append_nil]
      · rwa [List.append_nil]
  | @joins weakerThan left right whole operation operations behind rest strong
      takes goesOn takesHypothesis goesOnHypothesis =>
      -- The operand is read first, then what it takes, and then the chain goes on.
      obtain ⟨operandId, operandKinds, operandComes, isOperand⟩ :=
        operation.operand.readsTerm
          (endsOperand_furtherOperations ends operations) kinds
      obtain ⟨rightId, rightKinds, rightRounds, isRight⟩ :=
        takesHypothesis isOperand
      have dark :=
        (operation.operand.beginsBare
          (endsOperand_furtherOperations ends operations)).dark.dropWhile
      rw [← withoutBlanks_withoutBlanks (furtherOperations tail operations)]
        at rightRounds
      have rightComes := comesTo_expressionAbove _ operandComes dark rightRounds
      have grown := comesTo_extend id operation.isInfix strong dark rightComes
      rw [← withoutBlanks_furtherOperations_cons] at grown
      have joint :=
        represents_joint operation.operator.op
          (represents.mono (kindAmong_append _)) isRight
      obtain ⟨result, more, rounds, isWhole⟩ := goesOnHypothesis joint
      have shorter := length_furtherOperations_lt tail operation takes.suffix
      refine
        ⟨result,
          operandKinds ++ rightKinds ++
            [.binary id operation.operator.op rightId] ++ more,
          ?_, ?_⟩
      · have enough := growthRoom_add_le operation.isInfix strong
        have round :
            ComesTo (growth weakerThan id) (growthRoom weakerThan)
              ⟨withoutBlanks (furtherOperations tail (operation :: operations)),
                kinds⟩
              _ _ :=
          (grown.mono enough).bind comesTo_pure
        simp only [← List.append_assoc]
        exact .again round shorter rounds
      · simpa only [← List.append_assoc] using isWhole

/-- A chain is read as the term that its first operand grows to. -/
theorem Grows.readsTerm
    {first : Atom}
    {whole : Term}
    (grows : Grows 0 first.term operations whole [])
    (ends : EndsLine tail) :
    ReadsTerm expression 42 ((writtenChain first operations).toList ++ tail)
      whole tail := by
  intro kinds
  have isOperand := endsOperand_furtherOperations ends operations
  obtain ⟨firstId, firstKinds, firstComes, isFirst⟩ :=
    first.readsTerm isOperand kinds
  obtain ⟨id, more, rounds, represents⟩ := grows.rounds ends isFirst
  rw [← withoutBlanks_withoutBlanks (furtherOperations tail operations)] at rounds
  have comes :=
    comesTo_expressionAbove _ firstComes
      (first.beginsBare isOperand).dark.dropWhile rounds
  have dark : withoutBlanks tail = tail :=
    (ends.startsWithout rfl rfl).dropWhile
  rw [furtherOperations, dark, List.append_assoc, ← toList_writtenChain] at comes
  refine ⟨id, firstKinds ++ more, ?_, ?_⟩
  · exact ComesTo.read _ comes
  · rwa [← List.append_assoc]

/-- The whole of a chain grows from its first operand. -/
theorem exists_grows_whole
    (left : Term)
    (operations : List Operation) :
    ∃ whole, Grows 0 left operations whole [] := by
  obtain ⟨whole, rest, grows⟩ := exists_grows 0 left operations
  cases rest with
  | nil =>
      exact ⟨whole, grows⟩
  | cons operation others =>
      have weak := grows.endsWith operation rfl
      have strong := strength_pos operation.operator operation.isInfix
      omega

/--
A chain of operators is read as the one grouped term with its operands and operators in
this order, to the end of the line and silently.  The default stack has room for it,
however long it is.
-/
theorem expression_reads_chain
    (first : Atom)
    (operations : List Operation)
    (ends : EndsLine tail) :
    ∃ tree : Term,
      tree.IsGrouped ∧
        tree.inorder = (first.term, joined operations) ∧
        (∀ other : Term,
          other.IsGrouped →
            other.inorder = (first.term, joined operations) →
            other = tree) ∧
        (∀ library maxDepth files levels machine,
          machine.IsReady 42 levels machine.page →
            machine.cursor.rest =
              (writtenChain first operations).toList ++ tail →
            ReadsExpression library maxDepth files levels machine tree tail) ∧
        ∀ library files host,
          ReadsExpression library defaultMaxDepth files (defaultMaxDepth + 2)
            (.start ((writtenChain first operations).toList ++ tail)
              defaultMaxDepth host)
            tree tail := by
  obtain ⟨tree, grows⟩ := exists_grows_whole first.term operations
  have leaf := first.joint?_term
  have grouped : tree.IsGrouped := by
    apply grows.isGrouped (Term.isGrouped_of_joint? leaf)
    intro inner joint
    rw [leaf] at joint
    cases joint
  have inorder : tree.inorder = (first.term, joined operations) := by
    obtain ⟨firsts, others⟩ := grows.inorder
    rw [Term.inorder_of_joint? leaf] at firsts others
    apply Prod.ext
    · exact firsts
    · simpa [joined] using others
  refine ⟨tree, grouped, inorder, ?_, ?_, ?_⟩
  · intro other otherGrouped same
    apply otherGrouped.eq_of_inorder_eq grouped
    rw [same, inorder]
  · intro library maxDepth files levels machine ready at_
    exact (grows.readsTerm ends).readsExpression ready at_
  · intro library files host
    apply (grows.readsTerm ends).readsExpression _ rfl
    apply IsReady.start
    · decide
    · decide

/-- A chain with a word among its operators, and its operands grouped by their strengths. -/
theorem expression_reads_difference_and_number :
    EndsLine ['\n'] ∧
      ReadsExpression (.ofFiles []) defaultMaxDepth 0 202
        (.start "a - 2 mod b && 3\n".toList defaultMaxDepth
          { file := none, session := {} })
        (.binary
          (.binary (.reference ["a"]) .subtract
            (.binary (.int 2) .modulo (.reference ["b"])))
          .and (.int 3))
        ['\n'] := by
  have ends : EndsLine ['\n'] := by
    rintro character ⟨⟩
    exact .inl rfl
  refine ⟨ends, ?_⟩
  obtain ⟨tree, -, -, unique, -, reads⟩ :=
    expression_reads_chain
      (.name "a" (by decide) (by decide))
      [⟨⟨"-", .subtract, 5, false⟩, by decide,
          .number "2" (by decide) (by decide) (by decide)⟩,
        ⟨⟨"mod", .modulo, 8, true⟩, by decide, .name "b" (by decide) (by decide)⟩,
        ⟨⟨"&&", .and, 1, false⟩, by decide,
          .number "3" (by decide) (by decide) (by decide)⟩]
      ends
  have isTree := unique
    (.binary
      (.binary (.reference ["a"]) .subtract
        (.binary (.int 2) .modulo (.reference ["b"])))
      .and (.int 3))
    (by simp [Term.IsGrouped, Term.joint?, BinaryOp.strength, infixes])
    rfl
  rw [isTree]
  exact reads _ 0 _

end Reading

end InkSyntax.Grammar
