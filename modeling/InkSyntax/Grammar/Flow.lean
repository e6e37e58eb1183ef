import InkSyntax.Grammar.Argument

namespace InkSyntax.Grammar

/-!
# Knots and stitches

A header between equals signs begins a knot or a function, one after a single
equals sign begins a stitch inside a knot.  What follows, up to the next header,
is arranged into a weave and the flows inside.
-/

open Rule (attempt parse literal)

/-- The first line of a flow. -/
structure FlowHeader where
  name : NodeId
  parameters : List Parameter
  isFunction : Bool

/-- Whether a character is an equals sign. -/
def isEqualsSign (character : Char) : Bool := character == '='

/-- Two equals signs or more. -/
def knotMark : GrammarRule Unit := do
  let signs ← Rule.chars isEqualsSign
  Rule.require (1 < signs.length)

/-- The parameters of a flow, if it has any. -/
def optionalParameters : GrammarRule (List Parameter) := do
  skipBlanks
  let found ← attempt (parse parameters)
  skipBlanks
  return found.getD []

/-- The name of a function, after the keyword for functions. -/
def functionName : GrammarRule (Option NodeId) := do
  let _ ← attempt (Rule.expect blanks "whitespace after the 'function' keyword")
  attempt (parse identifier)

/-- The name of a knot or function, if there is one, and whether it is a function. -/
def knotName : GrammarRule (Bool × Option NodeId) := do
  match ← attempt (parse identifier) with
  | some id =>
      if (← identifierName id) == "function" then return (true, ← functionName)
      else return (false, some id)
  | none => return (false, none)

/-- A name that must be there; a missing one is an error. -/
def requiredName (isFunction : Bool) : Option NodeId → GrammarRule NodeId
  | some name => return name
  | none => do
      Rule.error ("Expected the name of the " ++ if isFunction then "function" else "knot")
      missingIdentifier

/-- The header of a knot or function; the equals signs at its end may be missing. -/
def knotHeader : GrammarRule FlowHeader := do
  skipBlanks
  knotMark
  skipBlanks
  let (isFunction, found) ← knotName
  let name ← requiredName isFunction found
  let parameters ← optionalParameters
  let _ ← attempt (parse knotMark)
  return { name, parameters, isFunction }

/-- The keyword for functions before the name of a stitch; it need not be a whole name. -/
def stitchKeyword : GrammarRule Bool := do
  let isFunction ← optionalLiteral "function"
  if isFunction then skipBlanks
  return isFunction

/-- The header of a stitch. -/
def stitchHeader : GrammarRule FlowHeader := do
  skipBlanks
  literal "="
  if ← optionalLiteral "=" then Rule.fail
  else
    skipBlanks
    let isFunction ← stitchKeyword
    let name ← parse identifier
    let parameters ← optionalParameters
    return { name, parameters, isFunction }

/-- Stands in for the content of a flow without any; skips to the next knot. -/
def missingContent : GrammarRule (List NodeId) := do
  let _ ← attempt (Rule.textUntil knotHeader isEqualsSign fun _ => false)
  return [← makeText "<ERROR IN FLOW>"]

/-- A flow from its header and content. -/
def flow (level : FlowLevel) (header : FlowHeader) (content : List NodeId) :
    GrammarRule NodeId := do
  let content ← Rule.effect (.weave content)
  make <| .flow
    { level, content
      name := header.name
      parameters := header.parameters
      isFunction := header.isFunction }

/-- A knot or function with its content. -/
def knot : GrammarRule NodeId := do
  let header ← parse knotHeader
  let _ ← attempt
    (Rule.expectOr endOfLine "end of line after knot name definition" skipLine)
  let content ← Rule.expectOr (statements .knot)
    "at least one line within the knot" missingContent
  flow .knot header content

/-- A stitch with its content. -/
def stitch : GrammarRule NodeId := do
  let header ← parse stitchHeader
  let _ ← attempt (Rule.expectOr endOfLine "end of line after stitch name" skipLine)
  let content ← Rule.expectOr (statements .stitch)
    "at least one line within the stitch" missingContent
  flow .stitch header content

end InkSyntax.Grammar
