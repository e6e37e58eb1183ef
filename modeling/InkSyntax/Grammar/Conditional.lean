import InkSyntax.Grammar.Expression
import InkSyntax.Grammar.Sequence

namespace InkSyntax.Grammar

/-!
# Conditionals

A conditional has branches, in one line with a bar between them or over several
lines behind dashes.  With a subject in front, the branches are what to do if it
holds and if not, or values to compare it with; without one, each branch has a
condition of its own.
-/

open Rule (attempt parse literal)

/-- What a branch node holds; other nodes count as a branch without anything. -/
def branchOf (id : NodeId) : GrammarRule Branch := do
  match ← kindOf id with
  | .branch arm => return arm
  | _ => return {}

/-- An expression and a colon. -/
def condition : GrammarRule NodeId := do
  let found ← parse expression
  refuseStep found
  skipBlanks
  literal ":"
  return found

/-- The word `else` and a colon. -/
def elseMark : GrammarRule Unit := do
  literal "else"
  skipBlanks
  literal ":"

/-- One branch, or two with a bar between them. -/
def inlineBranches : GrammarRule (List NodeId) := do
  match ← barSeparated with
  | [] => return []
  | [held] => return [← make (.branch { content := held, isTrueBranch := true })]
  | [held, otherwise] =>
      let first ← make (.branch { content := held, isTrueBranch := true })
      let second ← make (.branch { content := otherwise, isElse := true })
      return [first, second]
  | _ =>
      Rule.error "Expected one or two alternatives separated by '|' in inline conditional"
      return []

/-- The condition of a branch; one behind `else` has none. -/
def ownCondition (isElse : Bool) : GrammarRule (Option NodeId) :=
  if isElse then return none else attempt (parse condition)

/-- The statements of a branch; only a condition can do without. -/
def branchContent (own : Option NodeId) : GrammarRule (List NodeId) := do
  match ← attempt (statements .block) with
  | some content => return content
  | none =>
      if own.isNone then
        Rule.error "expected content for the conditional branch following '-'"
        return [← makeText ""]
      else return []

/-- A dash that is not an arrow, a condition or `else`, and statements. -/
def dashedBranch : GrammarRule NodeId := do
  skipBlanks
  if ← optionalLiteral "->" then Rule.fail
  else
    literal "-"
    skipBlanks
    let isElse := (← attempt (parse elseMark)).isSome
    let own ← ownCondition isElse
    let content ← branchContent own
    let _ ← attempt blankLines
    make (.branch { ownCondition := own, content := content, isElse := isElse })

/-- Branches behind dashes. -/
def dashedBranches : GrammarRule (List NodeId) := do
  let _ ← attempt blankLines
  let branches ← Rule.oneOrMore dashedBranch
  let _ ← attempt blankLines
  return branches

/-- Make a second branch the one for a subject that does not hold. -/
def requireElse (second : NodeId) : GrammarRule Unit := do
  let arm ← branchOf second
  if !arm.isElse then
    errorAt second "Expected an '- else:' clause here rather than an extra condition"
    amend second (.role arm.isTrueBranch true arm.matchingEquality)

/-- Statements for a subject that holds, perhaps with a branch for one that does not. -/
def undashedBranches : GrammarRule (List NodeId) := do
  let content ← statements .block
  let first ← make (.branch { content := content })
  match ← attempt (parse dashedBranch) with
  | none => return [first]
  | some second =>
      requireElse second
      return [first, second]

/-- Whether `else` is all that branches say. -/
def onlyElse : List NodeId → GrammarRule Bool
  | [only] => do return (← branchOf only).isElse
  | _ => return false

/-- The branches over several lines. -/
def blockBranches (subject : Option NodeId) : GrammarRule (List NodeId) := do
  match ← attempt (parse dashedBranches) with
  | some branches =>
      if (← onlyElse branches) && subject.isSome then
        return (← make (.branch { isTrueBranch := true })) :: branches
      else return branches
  | none => if subject.isNone then Rule.fail else undashedBranches

/-- Settle the part of one branch under a subject.

Known so far are the number of all branches, how many came before, and whether
one of these has a condition of its own. -/
def settleComparedBranch (count earlier : Nat) (earlierConditions isLast : Bool)
    (id : NodeId) (arm : Branch) : GrammarRule Unit :=
  if arm.ownCondition.isSome then
    amend id (.role arm.isTrueBranch arm.isElse true)
  else if earlierConditions && isLast then amend id (.role arm.isTrueBranch true true)
  else if !isLast && 2 < count then
    errorAt id "Only final branch can be an 'else'. Did you miss a ':'?"
  else if earlier == 0 then amend id (.role true arm.isElse arm.matchingEquality)
  else amend id (.role arm.isTrueBranch true arm.matchingEquality)

/-- Settle the part of each branch under a subject. -/
def settleCompared (count earlier : Nat) (earlierConditions : Bool) :
    List NodeId → GrammarRule Unit
  | [] => return
  | id :: rest => do
      let arm ← branchOf id
      settleComparedBranch count earlier earlierConditions rest.isEmpty id arm
      settleCompared count (earlier + 1) (earlierConditions || arm.ownCondition.isSome) rest

/-- Settle the part of one branch where there is no subject. -/
def settleConditionBranch (last : NodeId) (isLast : Bool) (id : NodeId) (arm : Branch) :
    GrammarRule Unit := do
  if arm.ownCondition.isNone then
    if isLast then amend id (.role arm.isTrueBranch true arm.matchingEquality)
    else if arm.isElse then
      if (← branchOf last).isElse then
        errorAt last "Multiple 'else' cases. Can have a maximum of one, at the end."
      else errorAt id "'else' case in conditional should always be the final one"
    else errorAt id "Branch doesn't have condition. Are you missing a ':'? "

/-- Settle the part of each branch where there is no subject. -/
def settleConditions (last : NodeId) : List NodeId → GrammarRule Unit
  | [] => return
  | id :: rest => do
      let arm ← branchOf id
      settleConditionBranch last rest.isEmpty id arm
      settleConditions last rest

/-- Settle the part of each branch. -/
def settleBranches (subject : Option NodeId) (branches : List NodeId) : GrammarRule Unit :=
  match subject, branches.getLast? with
  | some _, _ => settleCompared branches.length 0 false branches
  | none, some last => settleConditions last branches
  | none, none => return

/-- Make the same amendment to several nodes. -/
def amendAll (amendment : Amendment) : List NodeId → GrammarRule Unit
  | [] => return
  | id :: others => do
      amend id amendment
      amendAll amendment others

/-- The branches over several lines, with their parts settled. -/
def settledBranches (subject : Option NodeId) : GrammarRule (List NodeId) := do
  let found ← blockBranches subject
  settleBranches subject found
  return found

/-- The branches of a conditional, which in one line need a subject. -/
def branches (subject : Option NodeId) : GrammarRule (List NodeId) := do
  let isInline := (← attempt (parse lineEnd)).isNone
  if isInline && subject.isNone then Rule.fail
  else
    let found ← if isInline then inlineBranches else settledBranches subject
    amendAll (.inline isInline) found
    return found

/-- A conditional whose subject, if any, was not read yet. -/
def conditional : GrammarRule NodeId := do
  let subject ← attempt (parse condition)
  let found ← parse (branches subject)
  make (.conditional subject found)

end InkSyntax.Grammar
