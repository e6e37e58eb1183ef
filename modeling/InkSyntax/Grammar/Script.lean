import InkSyntax.Grammar.Statement
import InkSyntax.Text.Blank

namespace InkSyntax.Grammar

/-!
# Scripts

A script is a run of statements.  A line that is no statement is reported and
skipped, and the run goes on after it.
-/

open Rule (attempt parse)

/-- The rule of a construct. -/
def rule : {α : Type} → Construct α → GrammarRule α
  | _, .expression weakerThan => expressionAbove weakerThan
  | _, .operand => operand
  | _, .prose => mixedProse
  | _, .statements place => statementRun place

/-- Report a line and skip it. -/
def skipUnexpected : GrammarRule Unit := do
  let remainder := (← Rule.here).cursor.lineRemainder
  Rule.error s!"Unexpected content: '{trimEnd remainder}'"
  skipLine

/-- Statements up to the end of the text, whatever stands between them. -/
def scriptContent : GrammarRule (List NodeId) := do
  let first ← attempt (statements .top)
  Rule.loop (first.getD []) fun content => do
    skipBlankSpace
    if ← Rule.atEnd then return .inr content
    let _ ← attempt (parse skipUnexpected)
    let more ← attempt (statements .top)
    return .inl (content ++ more.getD [])

/-- A whole script; its node is the root of the story. -/
def script : GrammarRule NodeId := do
  let content ← scriptContent
  make (.story (← Rule.effect (.weave content)))

end InkSyntax.Grammar
