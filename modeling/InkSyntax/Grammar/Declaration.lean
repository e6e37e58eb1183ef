import InkSyntax.Grammar.Argument
import InkSyntax.Grammar.Expression

namespace InkSyntax.Grammar

/-!
# Declarations

Variables, constants, lists and external functions are declared on lines that
begin with a word in capitals; such a word with a remark after it is a reminder
for the author.
-/

open Rule (attempt parse literal)

/-- The word that begins a declaration. -/
def declarationWord (word : String) : GrammarRule Unit := do
  skipBlanks
  keyword word
  skipBlanks

/-- What is missing where a value should be assigned. -/
def initialMark : String :=
  "the '=' for an assignment of a value, e.g. '= 5' (initial values are mandatory)"

/-- The value that a variable or constant begins with. -/
def initialValue (name : NodeId) : GrammarRule NodeId := do
  Rule.expect expression s!"initial value for {← identifierName name}"

/-- Whether a variable can begin with a value. -/
def isVariableValue : StoryKind → Bool
  | .number _ | .string _ | .divertTarget _ | .reference _ | .listLiteral _ => true
  | _ => false

/-- Whether a constant can have a value. -/
def isConstantValue : StoryKind → Bool
  | .number _ | .string _ | .divertTarget _ => true
  | _ => false

/-- Complain about a string that is not plain text. -/
def refuseLogicIn (value : NodeId) : GrammarRule Unit := do
  match ← kindOf value with
  | .string _ =>
      if !(← isPlainString value) then
        Rule.error "Constant strings cannot contain any logic."
  | _ => return

/-- A global variable. -/
def variableDeclaration : GrammarRule NodeId := do
  declarationWord "VAR"
  let name ← Rule.expect identifier "variable name"
  skipBlanks
  Rule.expect (literal "=") initialMark
  skipBlanks
  let value ← initialValue name
  if !isVariableValue (← kindOf value) then
    Rule.error "initial value for a variable must be a number, constant, list or divert target"
  if (← attempt (parse (literal ","))).isSome then
    Rule.error ("Unexpected ','. If you're trying to declare a new list, " ++
      "use the LIST keyword, not VAR")
  else refuseLogicIn value
  make (.assignment name (some value) true false)

/-- A constant. -/
def constantDeclaration : GrammarRule NodeId := do
  declarationWord "CONST"
  let name ← Rule.expect identifier "constant name"
  skipBlanks
  let _ ← attempt (Rule.expect (literal "=") initialMark)
  skipBlanks
  let value ← initialValue name
  if isConstantValue (← kindOf value) then refuseLogicIn value
  else Rule.error "initial value for a constant must be a number or divert target"
  make (.constant name value)

/-- The number of an element, after an equals sign. -/
def elementValue : GrammarRule (Option Int) := do
  skipBlanks
  match ← attempt (Rule.expect intLiteral "value to be assigned to list item") with
  | none => return none
  | some number =>
      match ← kindOf number with
      | .number (.int value) => return some value
      | _ => return none

/-- Whether the parenthesis around an element closes before its number. -/
def closesEarly (selected : Bool) : GrammarRule Bool := do
  if selected then
    let closes ← optionalLiteral ")"
    if closes then skipBlanks
    return closes
  else return false

/-- A parenthesis that is still open must close after the number. -/
def closesLate (isOpen : Bool) : GrammarRule Unit := do
  if isOpen then
    skipBlanks
    if !(← optionalLiteral ")") then Rule.error "Expected closing ')'"

/-- An element of a list; one in parentheses is selected at first. -/
def listElement : GrammarRule NodeId := do
  let selected ← optionalLiteral "("
  skipBlanks
  let name ← parse identifier
  skipBlanks
  let closedEarly ← closesEarly selected
  let isOpen := selected && !closedEarly
  if ← optionalLiteral "=" then
    let value ← elementValue
    closesLate isOpen
    make (.listElement name selected value)
  else
    if isOpen then Rule.error "Expected closing ')'"
    make (.listElement name selected none)

/-- A comma between elements, also across lines. -/
def elementSeparator : GrammarRule Unit := do
  skipBlankSpace
  literal ","
  skipBlankSpace

/-- The elements of a list. -/
def listDefinition : GrammarRule NodeId := do
  skipBlankSpace
  make (.listDefinition (← Rule.separated listElement elementSeparator))

/-- A list, which is a global variable as well. -/
def listDeclaration : GrammarRule NodeId := do
  declarationWord "LIST"
  let name ← Rule.expect identifier "list name"
  skipBlanks
  let _ ← attempt
    (Rule.expect (literal "=") "the '=' for an assignment of the list definition")
  skipBlanks
  let definition ← Rule.expect listDefinition "list item names"
  make (.assignment name (some definition) true false)

/-- The name of an external function; a missing one is an error. -/
def externalName : GrammarRule NodeId := do
  match ← attempt (Rule.expect identifier "name of external function") with
  | some name => return name
  | none => missingIdentifier

/-- A function that is defined elsewhere. -/
def externalDeclaration : GrammarRule NodeId := do
  declarationWord "EXTERNAL"
  let name ← externalName
  skipBlanks
  let written ← identifierName name
  let found ← attempt <| Rule.expect parameters
    ("declaration of arguments for EXTERNAL, even if empty, i.e. 'EXTERNAL " ++ written ++ "()'")
  make (.external name ((found.getD []).map (·.name)))

/-- A reminder, which is also a warning. -/
def reminder : GrammarRule NodeId := do
  declarationWord "TODO"
  let _ ← optionalLiteral ":"
  skipBlanks
  let message := (← attempt restOfLine).getD ""
  Rule.warning s!"TODO: {message}"
  make (.authorWarning message)

end InkSyntax.Grammar
