namespace InkSyntax

/-!
# Diagnostics

What a reading tells its user about a text: a message, how serious it is, and
the line and file it is about.
-/

/-- How serious a diagnostic is. -/
inductive Severity where
  | error
  | warning
  deriving DecidableEq, Repr

/-- The word that opens a displayed diagnostic. -/
def Severity.word : Severity → String
  | .error => "ERROR"
  | .warning => "WARNING"

/-- One reported problem; lines count from one. -/
structure Diagnostic where
  message : String
  severity : Severity
  line : Nat
  file : Option String
  deriving DecidableEq, Repr

namespace Diagnostic

def isError (diagnostic : Diagnostic) : Bool := diagnostic.severity == .error

/-- One line of text that names severity, place and message. -/
def display (diagnostic : Diagnostic) : String :=
  let place := match diagnostic.file with
    | some file => s!"'{file}' line {diagnostic.line}"
    | none => s!"line {diagnostic.line}"
  s!"{diagnostic.severity.word}: {place}: {diagnostic.message}"

/-- Number of errors in a list. -/
def errorCount (diagnostics : List Diagnostic) : Nat := (diagnostics.filter isError).length

/-- Number of warnings in a list. -/
def warningCount (diagnostics : List Diagnostic) : Nat :=
  (diagnostics.filter (!·.isError)).length

/-- Whether a list holds an error. -/
def anyError (diagnostics : List Diagnostic) : Bool := diagnostics.any isError

end Diagnostic

end InkSyntax
