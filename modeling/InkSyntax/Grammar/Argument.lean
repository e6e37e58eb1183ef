import InkSyntax.Grammar.Lexeme

namespace InkSyntax.Grammar

/-!
# Arguments and parameters

Both stand in parentheses with commas between them, and both lists may be empty.
-/

open Rule (attempt parse literal)

/-- The arguments of a call or divert. -/
def callArguments : GrammarRule (List NodeId) := do
  literal "("
  let arguments ← attempt
    (Rule.alternate (Rule.single expression) (Rule.dropped (literal ",")))
  skipBlanks
  let _ ← attempt (Rule.expect (literal ")") "closing ')' for function call")
  return arguments.getD []

/-- The name among the two of a parameter; behind `ref` or an arrow it is the second. -/
def chosenName (first : Option String) (isDivertTarget : Bool) (second : Option String) :
    Option String :=
  if first == some "ref" || isDivertTarget then second else first

/-- The parameter that its parts make up; one without its name is an error. -/
def parameterOf (first : Option String) (isDivertTarget : Bool) (second : Option String) :
    GrammarRule Parameter := do
  if first.isNone && second.isNone then Rule.fail
  else
    let byReference := first == some "ref"
    let chosen := chosenName first isDivertTarget second
    if chosen.isNone then
      if byReference then Rule.error "Expected an parameter name after 'ref'"
      else Rule.error "Expected an parameter name"
    return ⟨chosen.getD "", byReference, isDivertTarget⟩

/-- One parameter: a name, perhaps after `ref`, an arrow, or both. -/
def parameter : GrammarRule Parameter := do
  let first ← attempt name
  skipBlanks
  let isDivertTarget ← optionalLiteral "->"
  skipBlanks
  let second ← attempt name
  parameterOf first isDivertTarget second

/-- The parameters of a knot, stitch or external function. -/
def parameters : GrammarRule (List Parameter) := do
  literal "("
  let found ← attempt
    (Rule.alternate (Rule.single (spaced parameter)) (Rule.dropped (literal ",")))
  let _ ← attempt (Rule.expect (literal ")") "closing ')' for parameter list")
  return found.getD []

end InkSyntax.Grammar
