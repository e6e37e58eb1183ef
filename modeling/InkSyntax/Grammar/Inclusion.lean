import InkSyntax.Grammar.Lexeme
import InkSyntax.Text.Blank

namespace InkSyntax.Grammar

/-!
# Inclusions

A line that names another file stands for the story in that file.  A file that
cannot be had, or that is being read already, leaves an empty inclusion.
-/

open Rule (attempt literal)

/-- The story of a file, unless there is none to be had. -/
def includedStory (file : String) : GrammarRule (Option Story) := do
  match ← Rule.effect (.include file) with
  | .story story => return some story
  | .recursive path =>
      Rule.error s!"Recursive INCLUDE detected: '{path}'."
      return none
  | .missing =>
      Rule.error s!"Failed to load: '{file}'"
      return none

/-- The word `INCLUDE` and the name of a file, which takes up the line. -/
def inclusion : GrammarRule NodeId := do
  skipBlanks
  literal "INCLUDE"
  skipBlanks
  match ← attempt (Rule.expect restOfLine "filename for include statement") with
  | none => make (.includedFile none)
  | some written => make (.includedFile (← includedStory (trimEnd written)))

end InkSyntax.Grammar
