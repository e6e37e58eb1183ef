import InkSyntax.Diagnostic
import InkSyntax.Text.Line

namespace InkSyntax

/-!
# Excerpts

An excerpt shows a diagnostic together with the line of the source that it is
about.
-/

/-- A text with a name. -/
structure Source where
  name : String
  text : String
  deriving DecidableEq, Repr

/-- A diagnostic and where it points. -/
structure Excerpt where
  diagnostic : Diagnostic
  sourceName : String
  range : ByteRange
  deriving DecidableEq, Repr

namespace Excerpt

/-- Point a diagnostic at its line in a source. -/
def of (diagnostic : Diagnostic) (source : Source) : Excerpt :=
  ⟨diagnostic, source.name, lineRange source.text diagnostic.line⟩

/-- What stands beside the line. -/
def label (excerpt : Excerpt) : String := s!"line {excerpt.diagnostic.line}"

/-- A short name of the kind of diagnostic, for programs. -/
def code (excerpt : Excerpt) : String :=
  match excerpt.diagnostic.severity with
  | .error => "skein::parse::error"
  | .warning => "skein::parse::warning"

end Excerpt

end InkSyntax
