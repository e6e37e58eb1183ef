import InkSyntax.Grammar.Brace
import InkSyntax.Grammar.Choice
import InkSyntax.Grammar.Declaration
import InkSyntax.Grammar.Flow
import InkSyntax.Grammar.Inclusion
import InkSyntax.Grammar.Logic

namespace InkSyntax.Grammar

/-!
# Statements

A script is a run of statements, most of them a line each.  The same run stands
inside knots, stitches and the branches of conditionals and sequences; the place
decides which statements are allowed and what ends the run.
-/

open Rule (attempt parse literal)

/-- A statement that makes one node. -/
def single (rule : GrammarRule NodeId) : GrammarRule (List NodeId) := do return [← rule]

/-- Whether knots can stand at a place. -/
def allowsKnots (place : Place) : Bool := place == .top

/-- Whether stitches can stand at a place. -/
def allowsStitches (place : Place) : Bool := place == .knot || place == .top

/-- Whether gathers can stand at a place; inside braces a dash parts branches. -/
def allowsGathers (place : Place) : Bool := place != .block

/-- Rules that apply only under a condition. -/
def onlyIf {α : Type 1} (applies : Bool) (rule : α) : List α := if applies then [rule] else []

/-- The kinds of statements at a place, in the order in which they are tried. -/
def statementRules (place : Place) : List (GrammarRule (List NodeId)) :=
  [wholeLine diverts] ++
    onlyIf (allowsKnots place) (single knot) ++
    [single (wholeLine choice), single (wholeLine reminder)] ++
    onlyIf (allowsGathers place) (single gather) ++
    onlyIf (allowsStitches place) (single stitch) ++
    [listDeclaration, variableDeclaration, constantDeclaration, externalDeclaration,
      inclusion].map (fun rule => single (wholeLine rule)) ++
    [logicLine, proseLine]

/-- Whether a node returns from a function. -/
def isReturn (id : NodeId) : GrammarRule Bool := do
  match ← kindOf id with
  | .return _ => return true
  | _ => return false

/-- One statement. -/
def statement (place : Place) : GrammarRule (List NodeId) := do
  let nodes ← Rule.oneOf (statementRules place)
  if place == .top then
    if ← anyNode isReturn nodes then
      Rule.error "should not have return statement outside of a knot"
  return nodes

/-- A rule for its effect alone. -/
def ignored {α : Type} (rule : GrammarRule α) : GrammarRule Unit := do
  let _ ← rule

/-- What ends the statements at a place. -/
def breakRules (place : Place) : List (GrammarRule Unit) :=
  onlyIf (place != .top) (ignored knotHeader) ++
    onlyIf (place == .block || place == .stitch) (ignored stitchHeader) ++
    (if place == .block then [dash, literal "\x7d"] else [])

/-- The end of the statements at a place. -/
def statementsEnd (place : Place) : GrammarRule Unit := do
  skipBlanks
  Rule.oneOf (breakRules place)

/-- Statements up to the end of their block, at least one. -/
def statementRun (place : Place) : GrammarRule (List NodeId) := do
  if place == .block then
    if (← attempt (parse dashes)).isSome then
      Rule.error ("You can't use a gather (the dashes) within the \x7b curly braces \x7d context. " ++
        "For multi-line sequences and conditions, you should only use one dash.")
  Rule.alternateUntil (Rule.optionallyDropped blankLines)
    (do return .many (← statement place)) (statementsEnd place)

end InkSyntax.Grammar
