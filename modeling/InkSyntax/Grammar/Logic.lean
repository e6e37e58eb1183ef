import InkSyntax.Grammar.Expression

namespace InkSyntax.Grammar

/-!
# Lines of logic

A tilde begins a line that computes instead of showing text: it returns from a
function, assigns to a variable, or evaluates an expression for its effect.
-/

open Rule (attempt parse literal)

/-- The end of a function, perhaps with a value. -/
def returnStatement : GrammarRule NodeId := do
  skipBlanks
  Rule.require ((← name) == "return")
  skipBlanks
  make (.return (← attempt (parse expression)))

/-- The word that declares a temporary variable. -/
def temporaryWord : GrammarRule Unit := do Rule.require ((← name) == "temp")

/-- The name of a variable, which a temporary one cannot do without. -/
def assignedName (isTemporary : Bool) : GrammarRule NodeId :=
  if isTemporary then Rule.expect identifier "variable name" else parse identifier

/-- What is assigned to a variable, or by how much it is changed. -/
def assignedValue (name : NodeId) (isTemporary isIncrement isDecrement : Bool) :
    GrammarRule NodeId := do
  if ← optionalLiteral "=" then
    let value ← attempt (Rule.expect expression "value expression to be assigned")
    if isIncrement || isDecrement then make (.step name value isIncrement)
    else make (.assignment name value false isTemporary)
  else
    if isTemporary then Rule.error "Expected '='"
    Rule.fail

/-- An assignment, perhaps to a new temporary variable, or a change by an amount. -/
def assignment : GrammarRule NodeId := do
  skipBlanks
  let isTemporary := (← attempt (parse temporaryWord)).isSome
  skipBlanks
  let name ← assignedName isTemporary
  skipBlanks
  let isIncrement ← optionalLiteral "+"
  let isDecrement ← optionalLiteral "-"
  if isIncrement && isDecrement then Rule.error "Unexpected sequence '+-'"
  assignedValue name isTemporary isIncrement isDecrement

/-- Whether a function is called in a node, looking at most some levels down. -/
def callsWithin (draft : Draft) : Nat → NodeId → Bool
  | 0, _ => false
  | levels + 1, id =>
      match draft.kind? id with
      | some (.functionCall ..) => true
      | some kind => kind.children.any (callsWithin draft levels)
      | none => false

/-- Whether a function is called somewhere in a node. -/
def containsCall (id : NodeId) : GrammarRule Bool := do
  let draft ← survey id
  return callsWithin draft draft.size id

/-- What a line of logic can be, for users. -/
def logicAdvice : String :=
  "Logic following a '~' can't be that type of expression. It can only be something like:\n" ++
    "\t~ return\n\t~ var x = blah\n\t~ x++\n\t~ myFunction()"

/-- Complain about an expression without an effect. -/
def refuseIdle (id : NodeId) : GrammarRule Unit := do
  match ← kindOf id with
  | .functionCall .. | .step .. => return
  | .reference [only] =>
      if (← identifierName only) == "include" then
        Rule.error ("'~ include' is no longer the correct syntax - please use " ++
          "'INCLUDE your_filename.ink', without the tilda, and in block capitals.")
      else Rule.error logicAdvice
  | kind => if kind.isExpression then Rule.error logicAdvice

/-- Logic with a line feed behind it, if it calls a function. -/
def withPrintedLine (id : NodeId) : GrammarRule NodeId := do
  if ← containsCall id then
    let lineFeed ← makeText "\n"
    make (.contentList [id, lineFeed])
  else return id

/-- A line of logic; one that calls a function may print and gets a line feed. -/
def logicLine : GrammarRule (List NodeId) := do
  skipBlanks
  literal "~"
  skipBlanks
  match ← attempt (parse (Rule.oneOf [returnStatement, assignment, expression])) with
  | none =>
      Rule.reportExpected "expression after '~'"
      skipLine
      return [← make (.contentList [])]
  | some id =>
      refuseIdle id
      amend id .dropResult
      let output ← withPrintedLine id
      let _ ← attempt (Rule.expectOr endOfLine "end of line" skipLine)
      return [output]

end InkSyntax.Grammar
