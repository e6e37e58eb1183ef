import InkSyntax.Diagnostic
import InkSyntax.Fault
import InkSyntax.Files.Path

namespace InkSyntax

/-!
# Failures

What a user asked for may be impossible: a file cannot be read, options make no
sense, or a script has an error and nobody wanted to hear of more than the first.
-/

/-- Why something asked for was not done. -/
inductive Failure where
  | unreadable (path : Path)
  | badOptions (path : Path)
  /-- An error that should stop the reading. -/
  | reported (diagnostic : Diagnostic)
  | fault (fault : Fault)
  deriving DecidableEq, Repr

namespace Failure

/-- The wording of a failure. -/
def message : Failure → String
  | .unreadable path => s!"failed to read '{path.text}'"
  | .badOptions path => s!"invalid configuration in '{path.text}'"
  | .reported found => found.display
  | .fault cause => s!"internal parser fault: {cause.message}"

/-- A short name of the kind of failure, for programs. -/
def code? : Failure → Option String
  | .unreadable _ => some "skein::io"
  | .badOptions _ => some "skein::config"
  | .reported _ => some "skein::unhandled"
  | .fault _ => none

/-- What the user can do about it. -/
def help? : Failure → Option String
  | .unreadable _ => some "check that the file exists and is readable"
  | .reported _ => some "install a diagnostic sink to collect errors and keep parsing"
  | .badOptions _ | .fault _ => none

end Failure

end InkSyntax
