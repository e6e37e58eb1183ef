import InkSyntax.Grammar.Expression
import InkSyntax.Proofs.Story.Terms

namespace InkSyntax

/-!
# Grouping of operators

Operands joined by operators are read from left to right, and each operator takes to
its right whatever binds tighter than itself.  The tree that comes of it is grouped as
the strengths of its operators say, and it is the only grouped tree with these operands
and operators in this order: the operator at its root is the last of the weakest.
-/

/-- The strength of an operator, which all its spellings share. -/
def BinaryOp.strength (op : BinaryOp) : Nat :=
  ((Grammar.infixes.find? (·.op == op)).map (·.strength)).getD 0

theorem BinaryOp.strength_op :
    ∀ candidate ∈ Grammar.infixes, candidate.op.strength = candidate.strength := by
  decide

namespace Term

/-- The operator at the root of a term, if it joins two operands. -/
def joint? : Term → Option BinaryOp
  | binary _ op _ => some op
  | _ => none

/-- The first operand of a term, and its operators with the operands behind them. -/
def inorder : Term → Term × List (BinaryOp × Term)
  | binary left op right =>
      (left.inorder.1,
        left.inorder.2 ++ (op, right.inorder.1) :: right.inorder.2)
  | term => (term, [])

/-- No operator on the left is weaker than the root, and all on the right are stronger. -/
def IsGrouped : Term → Prop
  | binary left op right =>
      left.IsGrouped ∧
        right.IsGrouped ∧
        (∀ inner, left.joint? = some inner → op.strength ≤ inner.strength) ∧
        (∀ inner, right.joint? = some inner → op.strength < inner.strength)
  | _ => True

variable {term left right other : Term}

theorem inorder_of_joint?
    (leaf : term.joint? = none) :
    term.inorder = (term, []) := by
  cases term with
  | binary left op right =>
      cases leaf
  | _ =>
      rfl

theorem isGrouped_of_joint?
    (leaf : term.joint? = none) :
    term.IsGrouped := by
  cases term with
  | binary left op right =>
      cases leaf
  | _ =>
      trivial

/-- In a grouped term no operator is weaker than the one at the root. -/
theorem IsGrouped.strength_le
    (grouped : term.IsGrouped)
    {op : BinaryOp}
    (joint : term.joint? = some op)
    {pair : BinaryOp × Term}
    (member : pair ∈ term.inorder.2) :
    op.strength ≤ pair.1.strength := by
  induction term generalizing op with
  | binary left root right leftHypothesis rightHypothesis =>
      cases joint
      obtain ⟨leftGrouped, rightGrouped, atLeast, stronger⟩ := grouped
      rw [inorder] at member
      rcases List.mem_append.mp member with inLeft | notLeft
      · cases leftJoint : left.joint? with
        | none =>
            rw [inorder_of_joint? leftJoint] at inLeft
            cases inLeft
        | some inner =>
            exact
              Nat.le_trans (atLeast inner leftJoint)
                (leftHypothesis leftGrouped leftJoint inLeft)
      · rcases List.mem_cons.mp notLeft with rfl | inRight
        · exact Nat.le_refl _
        · cases rightJoint : right.joint? with
          | none =>
              rw [inorder_of_joint? rightJoint] at inRight
              cases inRight
          | some inner =>
              exact
                Nat.le_trans (Nat.le_of_lt (stronger inner rightJoint))
                  (rightHypothesis rightGrouped rightJoint inRight)
  | int _ | bool _ | reference _ | list _ | call _ _ _ | unary _ _ _ =>
      cases joint

/-- On the left of the root no operator is weaker, and on the right all are stronger. -/
theorem IsGrouped.around
    {op : BinaryOp}
    (grouped : (binary left op right).IsGrouped) :
    (∀ pair ∈ left.inorder.2, op.strength ≤ pair.1.strength) ∧
      ∀ pair ∈ right.inorder.2, op.strength < pair.1.strength := by
  obtain ⟨leftGrouped, rightGrouped, atLeast, stronger⟩ := grouped
  constructor
  · intro pair member
    cases joint : left.joint? with
    | none =>
        rw [inorder_of_joint? joint] at member
        cases member
    | some inner =>
        exact
          Nat.le_trans (atLeast inner joint)
            (leftGrouped.strength_le joint member)
  · intro pair member
    cases joint : right.joint? with
    | none =>
        rw [inorder_of_joint? joint] at member
        cases member
    | some inner =>
        exact
          Nat.lt_of_lt_of_le (stronger inner joint)
            (rightGrouped.strength_le joint member)

/-- The last of the weakest operators stands at one place only. -/
theorem eq_of_append_cons_eq
    {op otherOp : BinaryOp}
    {operand otherOperand : Term}
    {before after otherBefore otherAfter : List (BinaryOp × Term)}
    (same :
      before ++ (op, operand) :: after =
        otherBefore ++ (otherOp, otherOperand) :: otherAfter)
    (atLeast : ∀ pair ∈ before, op.strength ≤ pair.1.strength)
    (stronger : ∀ pair ∈ after, op.strength < pair.1.strength)
    (otherAtLeast : ∀ pair ∈ otherBefore, otherOp.strength ≤ pair.1.strength)
    (otherStronger : ∀ pair ∈ otherAfter, otherOp.strength < pair.1.strength) :
    before = otherBefore ∧
      (op, operand) = (otherOp, otherOperand) ∧ after = otherAfter := by
  rcases List.append_eq_append_iff.mp same with
    ⟨between, rfl, rest⟩ | ⟨between, rfl, rest⟩
  · cases between with
    | nil =>
        obtain ⟨pair, others⟩ := List.cons.inj rest
        exact ⟨(List.append_nil _).symm, pair, others⟩
    | cons pair between =>
        obtain ⟨rfl, rfl⟩ := List.cons.inj rest
        have le := otherAtLeast (op, operand) (by simp)
        have lt := stronger (otherOp, otherOperand) (by simp)
        exact absurd lt (Nat.not_lt_of_le le)
  · cases between with
    | nil =>
        obtain ⟨pair, others⟩ := List.cons.inj rest
        exact ⟨List.append_nil _, pair.symm, others.symm⟩
    | cons pair between =>
        obtain ⟨rfl, rfl⟩ := List.cons.inj rest
        have le := atLeast (otherOp, otherOperand) (by simp)
        have lt := otherStronger (op, operand) (by simp)
        exact absurd lt (Nat.not_lt_of_le le)

/-- Grouped terms with the same operands and operators in the same order are equal. -/
theorem IsGrouped.eq_of_inorder_eq
    (grouped : term.IsGrouped)
    (otherGrouped : other.IsGrouped)
    (same : term.inorder = other.inorder) :
    term = other := by
  have leaf
      {term other : Term}
      (isLeaf : term.joint? = none)
      (same : term.inorder = other.inorder) :
      term = other := by
    rw [inorder_of_joint? isLeaf] at same
    cases other with
    | binary left op right =>
        have empty := (Prod.mk.inj same).2
        simp at empty
    | _ =>
        exact (Prod.mk.inj same).1
  induction term generalizing other with
  | binary left op right leftHypothesis rightHypothesis =>
      cases other with
      | binary otherLeft otherOp otherRight =>
          obtain ⟨first, rest⟩ := Prod.mk.inj same
          obtain ⟨before, pair, after⟩ :=
            eq_of_append_cons_eq rest grouped.around.1 grouped.around.2
              otherGrouped.around.1 otherGrouped.around.2
          obtain ⟨isOp, isOperand⟩ := Prod.mk.inj pair
          have isLeft :=
            leftHypothesis grouped.1 otherGrouped.1 (Prod.ext first before)
          have isRight :=
            rightHypothesis grouped.2.1 otherGrouped.2.1
              (Prod.ext isOperand after)
          rw [isLeft, isOp, isRight]
      | _ =>
          exact (leaf rfl same.symm).symm
  | int _ | bool _ | reference _ | list _ | call _ _ _ | unary _ _ _ =>
      exact leaf rfl same

end Term

end InkSyntax
