import InkSyntax.Diagnostic
import InkSyntax.Machine.RuleStack
import InkSyntax.Machine.Scanner

namespace InkSyntax

/-!
# Rules

A rule says how to read one construct.  It is a term: sequencing, scopes,
lookahead, repetition and raw scanning are constructors, and whatever a
particular grammar does besides is an effect of its own.  What a rule means is
given in `InkSyntax.Machine.Run`; because rules are terms, a fact about all of
them is one induction.

A rule either matches, with a value, or fails.  Failing is silent and undoes
nothing by itself; only a scope does.
-/

/-- What becomes of a scope whose rule matched. -/
inductive Fate where
  /-- Its effects stay; the named nodes take their span from it. -/
  | keep (nodes : List NodeId)
  /-- Its effects are undone, though its value is known. -/
  | undo
  deriving DecidableEq, Repr

/-- How to read one construct with result `α`, with effects `E`. -/
inductive Rule (E : Type → Type 1) : Type → Type 1 where
  /-- Match at once. -/
  | pure {α : Type} (value : α) : Rule E α
  /-- Fail at once. -/
  | fail {α : Type} : Rule E α
  /-- Two rules in sequence; the first failure is the failure of the whole. -/
  | bind {α β : Type} (first : Rule E α) (next : α → Rule E β) : Rule E β
  /-- Match in any case, and tell whether the rule did; keeps what it consumed. -/
  | attempt {α : Type} (rule : Rule E α) : Rule E (Option α)
  /-- A rule in a scope of its own, undone as a whole when it fails.

  When it matches, its value decides whether the scope is kept. -/
  | scope {α : Type} (fate : α → Fate) (rule : Rule E α) : Rule E α
  /-- Run a round again and again, until it gives a result or fails. -/
  | loop {σ α : Type} (state : σ) (round : σ → Rule E (σ ⊕ α)) : Rule E α
  /-- Consume what a scanner finds. -/
  | scan {α : Type} (scanner : Scanner α) : Rule E α
  /-- The checkpoint of the innermost scope. -/
  | here : Rule E Checkpoint
  /-- Set or clear flags in the innermost scope. -/
  | setFlag (mask : UInt32) (on : Bool) : Rule E Unit
  /-- Report a problem on a line, unless this scope has reported one. -/
  | report (severity : Severity) (line : Nat) (message : String) : Rule E Unit
  /-- Whatever else the grammar does. -/
  | effect {α : Type} (operation : E α) : Rule E α

instance {E : Type → Type 1} : Monad (Rule E) where
  pure := .pure
  bind := .bind

instance {E : Type → Type 1} {α : Type} : Inhabited (Rule E α) := ⟨.fail⟩

/-- Results that stand for nodes; a scope that commits one gives them its span. -/
class StandsFor (α : Type) where
  nodes : α → List NodeId

instance (priority := low) {α : Type} : StandsFor α := ⟨fun _ => []⟩
instance : StandsFor NodeId := ⟨fun id => [id]⟩
instance : StandsFor (List NodeId) := ⟨id⟩

namespace Rule

variable {E : Type → Type 1} {α β : Type}

/-- One rule in its own scope. -/
def parse [StandsFor α] (rule : Rule E α) : Rule E α :=
  scope (fun value => .keep (StandsFor.nodes value)) rule

/-- Tell whether a rule would match here, consuming nothing. -/
def peek (rule : Rule E α) : Rule E Bool :=
  scope (fun _ => .undo) do return (← attempt rule).isSome

/-- Match if the option holds a value. -/
def ofOption : Option α → Rule E α
  | some value => .pure value
  | none => .fail

/-- Go on only if a test holds. -/
def require (test : Bool) : Rule E Unit := if test then .pure () else .fail

/-- Go on only where a rule would match. -/
def ahead (rule : Rule E α) : Rule E Unit := do require (← peek rule)

/-- What follows the cursor. -/
def rest : Rule E (List Char) := do return (← here).cursor.rest

/-- Whether nothing follows the cursor. -/
def atEnd : Rule E Bool := do return (← here).cursor.atEnd

/-- The line of the cursor, counted from one. -/
def line : Rule E Nat := do return (← here).cursor.line + 1

/-- Whether a flag is set. -/
def hasFlag (mask : UInt32) : Rule E Bool := do return (← here).hasFlag mask

/-- Exactly the given text. -/
def literal (expected : String) : Rule E Unit := scan (.exactly expected.toList)

/-- Any one character. -/
def anyChar : Rule E Char := scan .anyChar

/-- A non-empty run of accepted characters. -/
def chars (accept : Char → Bool) : Rule E String := scan (.chars accept)

/-- A line feed, with or without a carriage return before it. -/
def lineBreak : Rule E Unit := scan .lineBreak

/-- Report an error on the line of the cursor. -/
def error (message : String) : Rule E Unit := do report .error (← line) message

/-- Report a warning on the line of the cursor. -/
def warning (message : String) : Rule E Unit := do report .warning (← line) message

/-- Report what was expected, and what stands here instead. -/
def reportExpected (description : String) : Rule E Unit := do
  let remainder := (← here).cursor.lineRemainder
  let saw := if remainder.isEmpty then "end of line" else s!"'{remainder}'"
  error s!"Expected {description} but saw {saw}"

/-- A rule whose failure is an error. -/
def expect [StandsFor α] (rule : Rule E α) (description : String) : Rule E α := do
  match ← attempt (parse rule) with
  | some value => return value
  | none =>
      reportExpected description
      fail

/-- A rule whose failure is an error, after which another rule takes over. -/
def expectOr [StandsFor α] (rule : Rule E α) (description : String) (recovery : Rule E α) :
    Rule E α := do
  match ← attempt (parse rule) with
  | some value => return value
  | none =>
      reportExpected description
      recovery

/-- The smallest and the largest integer that can be read: those of 32 bits. -/
def integerBounds : Int × Int := (-2147483648, 2147483647)

/-- The value of a run of decimal digits. -/
def digitsValue (digits : String) : Nat :=
  digits.toList.foldl (fun value digit => value * 10 + (digit.toNat - '0'.toNat)) 0

/-- A signed integer; digits that are too large are an error. -/
def integer : Rule E Int := do
  let (negative, digits) ← scan .signedDigits
  let magnitude : Int := digitsValue digits
  if magnitude ≤ integerBounds.2 then
    return if negative then -magnitude else magnitude
  else
    let (smallest, largest) := integerBounds
    error (s!"Failed to read integer value: {digits}. Perhaps it's out of the range of acceptable " ++
      s!"numbers ink supports? ({smallest} to {largest})")
    fail

end Rule

end InkSyntax
