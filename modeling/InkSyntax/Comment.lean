import InkSyntax.Machine.Repetition
import InkSyntax.Machine.Run

namespace InkSyntax.Comment

/-!
# Comments

Before anything else is read from a script, its comments are taken out.  A line
comment is dropped up to the line break; a block comment leaves the line breaks
that it spanned, so every line keeps its number.  Outside comments a carriage
return with a line feed becomes a line feed alone.
-/

/-- Comments need no effects. -/
inductive NoEffect : Type → Type 1

/-- Comments build nothing. -/
structure NoHost where

instance : Host NoHost where
  mark _ := 0
  rewind host _ := host
  commit host _ _ _ := host
  deliver host _ _ _ := host

abbrev CommentRule := Rule NoEffect

/-- No character. -/
def noChar (_ : Char) : Bool := false

/-- Two slashes and the rest of the line. -/
def lineComment : CommentRule String := do
  Rule.literal "//"
  let _ ← Rule.attempt (Rule.chars fun c => c != '\n' && c != '\r')
  return ""

/-- A block comment, closed or running to the end of the text; its line feeds remain. -/
def blockComment : CommentRule String := do
  Rule.literal "/*"
  let startLine := (← Rule.here).cursor.line
  let body ← Rule.attempt (Rule.textUntil (Rule.literal "*/") (· == '*') noChar)
  if !(← Rule.atEnd) then
    let _ ← Rule.attempt (Rule.literal "*/")
  match body with
  | some _ => return String.ofList (List.replicate ((← Rule.here).cursor.line - startLine) '\n')
  | none => return ""

/-- Line breaks and comments in any mixture, reduced to their line feeds. -/
def breaksAndComments : CommentRule String := do
  let pieces ← Rule.alternate
    (Rule.optionally do
      Rule.lineBreak
      return "\n")
    (Rule.optionally (Rule.oneOf [lineComment, blockComment]))
  return String.join pieces

/-- Text up to the next line break or comment. -/
def plainText : CommentRule String :=
  Rule.textUntil breaksAndComments (fun c => c == '/' || c == '\r' || c == '\n') noChar

/-- A whole script without its comments. -/
def script : CommentRule String := do
  let pieces ← Rule.attempt
    (Rule.alternate (Rule.optionally breaksAndComments) (Rule.optionally plainText))
  return String.join (pieces.getD []) ++ String.ofList (← Rule.rest)

/-- The depth of the stack on which comments are read. -/
def maxDepth : Nat := 64

/-- Take the comments out of a text. -/
def strip (source : String) : Except Fault String :=
  match script.run nofun (Machine.start source.toList maxDepth NoHost.mk) with
  | .matched text _ => .ok text
  | .failed _ => .ok source
  | .faulted fault => .error fault

end InkSyntax.Comment
