import InkSyntax.Decimal.Notation
import InkSyntax.Machine.Repetition
import InkSyntax.Machine.Run

namespace InkSyntax

/-!
# Rules given as data

A recipe is a rule written down as plain data, with values in place of typed
results.  Recipes run on a host that keeps a log, and they may also open and
close scopes by hand, which no typed rule can do.
-/

/-- What a recipe yields. -/
inductive Value where
  | null
  | truth (value : Bool)
  | number (value : Int)
  | text (value : String)
  | list (values : List Value)
  /-- Any other value, kept as it was written. -/
  | verbatim (written : String)
  deriving Repr, Inhabited

namespace Value

/-- The elements of a list; any other value is a list of one. -/
def elements : Value → List Value
  | .list values => values
  | value => [value]

end Value

/-- How one side of an alternation treats its rule. -/
inductive PieceMode where
  | single
  | optionally
  | dropped
  | optionallyDropped
  | several
  | optionallyMany
  deriving DecidableEq, Repr

/-- A rule as data. -/
inductive Recipe where
  | literal (expected : String)
  | anyChar
  | chars (accepted : String)
  | charsUntil (refused : String)
  | lineBreak
  | integer
  | decimal
  | atEnd
  | always (value : Value)
  | never
  | sequence (recipes : List Recipe)
  | reference (name : String)
  | setFlag (mask : UInt32) (on : Bool)
  | hasFlag (mask : UInt32)
  | allocate (name : String)
  | openScope
  | failScope (opened : Nat)
  | cancelScope (opened : Nat)
  | commitScope (opened : Nat)
  | parse (recipe : Recipe)
  | attempt (recipe : Recipe)
  | peek (recipe : Recipe)
  | oneOf (recipes : List Recipe)
  | oneOrMore (recipe : Recipe)
  | separated (item separator : Recipe)
  | alternate (outerMode : PieceMode) (outer : Recipe) (innerMode : PieceMode) (inner : Recipe)
  | alternateUntil (outerMode : PieceMode) (outer : Recipe) (innerMode : PieceMode)
      (inner : Recipe) (stop : Recipe)
  | textUntil (stop : Recipe) (pauses stops : String)
  | expect (recipe : Recipe) (description : String)
  | expectOr (recipe : Recipe) (description : String) (recovery : Recipe)
  | error (message : String)
  | warning (message : String)
  deriving Repr, Inhabited

/-- What recipes do besides reading. -/
inductive RecipeEffect : Type → Type 1 where
  | call (name : String) : RecipeEffect Value
  | allocate (name : String) : RecipeEffect Nat
  | openScope : RecipeEffect Nat
  | failScope (opened : Nat) : RecipeEffect Unit
  | cancelScope (opened : Nat) : RecipeEffect Unit
  | commitScope (opened : Nat) : RecipeEffect Unit

namespace PieceMode

/-- A value rule as a piece of an alternation. -/
def piece (mode : PieceMode) (rule : Rule RecipeEffect Value) :
    Rule RecipeEffect (Step Value) :=
  let elements : Rule RecipeEffect (List Value) := do return (← rule).elements
  match mode with
  | single => .single rule
  | optionally => .optionally rule
  | dropped => .dropped rule
  | optionallyDropped => .optionallyDropped rule
  | several => .several elements
  | optionallyMany => .optionallyMany elements

end PieceMode

namespace Recipe

mutual

/-- The rule that a recipe stands for. -/
def rule : Recipe → Rule RecipeEffect Value
  | literal expected => do
      Rule.literal expected
      return .text expected
  | anyChar => do return .text (← Rule.anyChar).toString
  | chars accepted => do return .text (← Rule.chars (CharSet.ofString accepted).contains)
  | charsUntil refused => do
      let set := CharSet.ofString refused
      return .text (← Rule.chars fun c => !set.contains c)
  | lineBreak => do
      Rule.lineBreak
      return .text "\n"
  | integer => do return .number (← Rule.integer)
  | decimal => do
      let (negative, whole, fraction) ← Rule.scan .decimalDigits
      return .text
        (Binary32.ofDecimal negative (Rule.digitsValue (whole ++ fraction)) fraction.length).display
  | atEnd => do
      Rule.require (← Rule.atEnd)
      return .truth true
  | always value => return value
  | never => .fail
  | sequence recipes => do return .list (← inSequence recipes)
  | reference name => .effect (.call name)
  | setFlag mask on => do
      Rule.setFlag mask on
      return .null
  | hasFlag mask => do
      Rule.require (← Rule.hasFlag mask)
      return .truth true
  | allocate name => do return .number (← Rule.effect (.allocate name))
  | openScope => do return .number (← Rule.effect .openScope)
  | failScope opened => do
      Rule.effect (.failScope opened)
      return .null
  | cancelScope opened => do
      Rule.effect (.cancelScope opened)
      return .null
  | commitScope opened => do
      Rule.effect (.commitScope opened)
      return .null
  | parse recipe => Rule.parse (rule recipe)
  | attempt recipe => do return (← Rule.attempt (Rule.parse (rule recipe))).getD .null
  | peek recipe => do return .truth (← Rule.peek (rule recipe))
  | oneOf recipes => Rule.oneOf (rules recipes)
  | oneOrMore recipe => do return .list (← Rule.oneOrMore (rule recipe))
  | separated item separator => do
      return .list (← Rule.separated (rule item) (rule separator))
  | alternate outerMode outer innerMode inner => do
      return .list
        (← Rule.alternate (outerMode.piece (rule outer)) (innerMode.piece (rule inner)))
  | alternateUntil outerMode outer innerMode inner stop => do
      return .list
        (← Rule.alternateUntil (outerMode.piece (rule outer)) (innerMode.piece (rule inner))
          (rule stop))
  | textUntil stop pauses stops => do
      return .text
        (← Rule.textUntil (rule stop) (CharSet.ofString pauses).contains
          (CharSet.ofString stops).contains)
  | expect recipe description => Rule.expect (rule recipe) description
  | expectOr recipe description recovery =>
      Rule.expectOr (rule recipe) description (rule recovery)
  | error message => do
      Rule.error message
      return .null
  | warning message => do
      Rule.warning message
      return .null

/-- The rules that recipes stand for. -/
def rules : List Recipe → List (Rule RecipeEffect Value)
  | [] => []
  | recipe :: others => rule recipe :: rules others

/-- Recipes one after the other. -/
def inSequence : List Recipe → Rule RecipeEffect (List Value)
  | [] => return []
  | recipe :: others => do
      let value ← rule recipe
      return value :: (← inSequence others)

end

end Recipe

/-- A host that remembers what it was told. -/
structure Log where
  allocated : List String := []
  /-- Scopes opened by hand, in order. -/
  opened : List RuleId := []
  reports : List (String × Nat × Severity) := []
  /-- Offsets between which scopes were committed. -/
  commits : List (Nat × Nat) := []

namespace Log

instance : Host Log where
  mark log := log.allocated.length
  rewind log mark := { log with allocated := log.allocated.take mark }
  commit log _ start stop := { log with commits := log.commits ++ [(start.offset, stop.offset)] }
  deliver log severity line message :=
    { log with reports := log.reports ++ [(message, line, severity)] }

/-- A scope opened by hand, counted from zero; the scope of no rule if there is none. -/
def scopeAt (log : Log) (opened : Nat) : RuleId := log.opened[opened]?.getD {}

/-- The effect of an operation; names are called by `call`. -/
def handle (call : String → Action Log Value) : {α : Type} → RecipeEffect α → Action Log α
  | _, .call name => call name
  | _, .allocate name => fun machine =>
      let allocated := machine.host.allocated ++ [name]
      .matched allocated.length
        { machine with host := { machine.host with allocated := allocated } }
  | _, .openScope => fun machine =>
      match machine.openScope with
      | .error fault => .faulted fault
      | .ok (rule, machine) =>
          .matched rule.number.toNat
            { machine with
              host := { machine.host with opened := machine.host.opened ++ [rule] } }
  | _, .failScope opened => fun machine =>
      .ofExcept (machine.cancelScope (machine.host.scopeAt opened)) .failed
  | _, .cancelScope opened => fun machine =>
      .ofExcept (machine.cancelScope (machine.host.scopeAt opened)) (.matched ())
  | _, .commitScope opened => fun machine =>
      .ofExcept (machine.commitScope (machine.host.scopeAt opened) []) (.matched ())

end Log

namespace Recipe

/-- Run a named recipe, with a bound on how deeply names may refer to names. -/
def runNamed (book : String → Option Recipe) : Nat → String → Action Log Value
  | 0, _ => fun _ => .faulted .stalled
  | depth + 1, name => fun machine =>
      match book name with
      | some recipe => (rule recipe).run (Log.handle (runNamed book depth)) machine
      | none => .failed machine

/-- Run a recipe; names are looked up in a book of recipes. -/
def run (book : String → Option Recipe) (recipe : Recipe) : Action Log Value := fun machine =>
  (rule recipe).run (Log.handle (runNamed book machine.rounds)) machine

end Recipe

end InkSyntax
