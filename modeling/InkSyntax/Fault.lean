namespace InkSyntax

/-!
# Faults

A fault stops a reading altogether: the discipline of rule scopes was broken, or
the rules nested too deeply.  No diagnostic survives a fault.
-/

/-- Why a reading was abandoned. -/
inductive Fault where
  /-- A scope was opened on a full stack. -/
  | stackOverflow (depth : Nat)
  /-- A scope was closed that is not the innermost one. -/
  | mismatchedRule (expected found : UInt32)
  /-- The outermost checkpoint was to be removed. -/
  | stackUnderflow
  /-- A rule left scopes open, or closed some of its surroundings. -/
  | unbalancedRule (before after : Nat)
  /-- A node was asked for that does not exist. -/
  | missingNode (index : Nat)
  /-- A repetition went on for longer than its text allows. -/
  | stalled
  deriving DecidableEq, Repr

/-- The wording of a fault. -/
def Fault.message : Fault → String
  | .stackOverflow depth =>
      s!"parser state stack overflow at depth {depth}: a rule recursed without consuming input"
  | .mismatchedRule expected found =>
      s!"mismatched rule ids: expected {expected}, found {found}"
  | .stackUnderflow => "attempted to remove the base parser state"
  | .unbalancedRule before after =>
      s!"rule left the parser stack at height {after}, expected {before}"
  | .missingNode index => s!"no node has the number {index}"
  | .stalled => "a repetition made no progress"

end InkSyntax
