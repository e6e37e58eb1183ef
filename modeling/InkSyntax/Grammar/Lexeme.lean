import InkSyntax.Grammar.Craft

namespace InkSyntax.Grammar

/-!
# Blanks, line ends and names

Spaces and tabs separate words inside a line.  A name is a run of identifier
characters that are not all digits; keywords are whole names.
-/

open Rule (attempt parse literal require)

/-- Spaces and tabs, at least one. -/
def blanks : GrammarRule Unit := do
  let _ ← Rule.chars isInlineBlank

/-- Spaces and tabs, if any. -/
def skipBlanks : GrammarRule Unit := do
  let _ ← attempt blanks

/-- A literal that need not be there. -/
def optionalLiteral (expected : String) : GrammarRule Bool := do
  return (← attempt (literal expected)).isSome

/-- A rule with blanks on either side. -/
def spaced {α : Type} [StandsFor α] (rule : GrammarRule α) : GrammarRule α := do
  skipBlanks
  let value ← parse rule
  skipBlanks
  return value

/-- A line break after blanks. -/
def lineEnd : GrammarRule Unit := do
  skipBlanks
  Rule.lineBreak

/-- The end of the text after blanks. -/
def textEnd : GrammarRule Unit := do
  skipBlanks
  require (← Rule.atEnd)

/-- The end of a line or of the text. -/
def endOfLine : GrammarRule Unit := Rule.oneOf [lineEnd, textEnd]

/-- Blank lines, at least one. -/
def blankLines : GrammarRule Unit := do
  let _ ← Rule.oneOrMore lineEnd

/-- Blanks and blank lines in any mixture, if any. -/
def skipBlankSpace : GrammarRule Unit := do
  let _ ← Rule.loop () fun _ => do
    match ← attempt (Rule.oneOf [blanks, blankLines]) with
    | some _ => return .inl ()
    | none => return (.inr () : Unit ⊕ Unit)

/-- What remains of a line, without its break. -/
def restOfLine : GrammarRule String := Rule.chars fun c => c != '\n' && c != '\r'

/-- Give up on a line and go on with the next. -/
def skipLine : GrammarRule Unit := do
  let _ ← attempt restOfLine
  let _ ← attempt Rule.lineBreak

/-- A rule that takes a line to its end; anything left over is an error. -/
def wholeLine {α : Type} [StandsFor α] (rule : GrammarRule α) : GrammarRule α := do
  let value ← parse rule
  let _ ← attempt (Rule.expectOr endOfLine "end of line" skipLine)
  return value

/-- A name as text. -/
def name : GrammarRule String :=
  parse do
    let word ← Rule.chars isIdentifierChar
    require (!word.toList.all isDigit)
    return word

/-- A name as a node. -/
def identifier : GrammarRule NodeId :=
  parse do make (.identifier (← name))

/-- Stands in for a name that is missing. -/
def missingIdentifier : GrammarRule NodeId := make (.identifier "")

/-- A given word, as a whole name. -/
def keyword (word : String) : GrammarRule Unit :=
  parse do require ((← name) == word)

/-- A name in parentheses, which labels a choice or gather. -/
def label : GrammarRule NodeId := do
  literal "("
  skipBlanks
  let id ← identifier
  skipBlanks
  let _ ← attempt (Rule.expect (literal ")") "closing ')' for bracketed name")
  return id

/-- A dash that does not begin an arrow. -/
def dash : GrammarRule Unit :=
  parse do
    if ← Rule.peek (literal "->") then Rule.fail
    else require ((← Rule.anyChar) == '-')

/-- Dashes with blanks between them; their number. -/
def dashes : GrammarRule Nat := do
  skipBlanks
  let count ← Rule.loop 0 fun count => do
    match ← attempt dash with
    | some _ =>
        skipBlanks
        return .inl (count + 1)
    | none => return .inr count
  require (count != 0)
  return count

end InkSyntax.Grammar
