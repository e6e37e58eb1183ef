import InkSyntax.Fault
import InkSyntax.Machine.Cursor

namespace InkSyntax

/-!
# The stack of checkpoints

Every open rule scope has a checkpoint: a copy of the cursor and the flags it
started from, which the scope then moves.  Failing discards the copy; committing
folds it into the one below.  The outermost checkpoint is never removed, and the
number of checkpoints is bounded.
-/

/-- The number of one opened scope; zero belongs to no scope. -/
structure RuleId where
  number : UInt32 := 0
  deriving DecidableEq, Repr

/-- The live state of one scope. -/
structure Checkpoint where
  cursor : Cursor := {}
  flags : UInt32 := 0
  /-- Whether a diagnostic was delivered while this scope was live. -/
  reported : Bool := false
  /-- How much was allocated when the scope was opened. -/
  mark : Nat := 0
  rule : RuleId := {}
  deriving DecidableEq, Repr

namespace Checkpoint

/-- Whether any bit of a mask is set. -/
def hasFlag (checkpoint : Checkpoint) (mask : UInt32) : Bool := checkpoint.flags &&& mask != 0

/-- Set or clear the bits of a mask. -/
def setFlag (checkpoint : Checkpoint) (mask : UInt32) (on : Bool) : Checkpoint :=
  { checkpoint with
    flags := if on then checkpoint.flags ||| mask else checkpoint.flags &&& ~~~mask }

end Checkpoint

/-- The checkpoints of all open scopes, the innermost on top. -/
structure RuleStack where
  top : Checkpoint := {}
  below : List Checkpoint := []
  maxDepth : Nat
  lastRule : UInt32 := 0
  deriving DecidableEq, Repr

/-- The depth that is allowed unless options say otherwise. -/
def defaultMaxDepth : Nat := 200

namespace RuleStack

/-- A stack with its outermost checkpoint only; there is always room for that one. -/
def start (maxDepth : Nat) (cursor : Cursor) : RuleStack :=
  { top := { cursor := cursor }, maxDepth := max maxDepth 1 }

/-- Number of checkpoints. -/
def height (stack : RuleStack) : Nat := stack.below.length + 1

/-- The checkpoint under the top. -/
def penultimate? (stack : RuleStack) : Option Checkpoint := stack.below.head?

/-- Open a scope that starts as a copy of the top. -/
def push (stack : RuleStack) (mark : Nat) : Except Fault (RuleId × RuleStack) :=
  if stack.maxDepth ≤ stack.height then .error (.stackOverflow stack.height)
  else
    let rule : RuleId := ⟨stack.lastRule + 1⟩
    let opened := { stack.top with rule := rule, reported := false, mark := mark }
    .ok (rule, { stack with top := opened, below := stack.top :: stack.below, lastRule := rule.number })

/-- The top, which must belong to the given scope. -/
def peek (stack : RuleStack) (expected : RuleId) : Except Fault Checkpoint :=
  if stack.top.rule = expected then .ok stack.top
  else .error (.mismatchedRule expected.number stack.top.rule.number)

/-- Discard the top, which must belong to the given scope. -/
def pop (stack : RuleStack) (expected : RuleId) : Except Fault (Checkpoint × RuleStack) :=
  match stack.below with
  | [] => .error .stackUnderflow
  | next :: deeper => do
      let closed ← stack.peek expected
      .ok (closed, { stack with top := next, below := deeper })

/-- What a scope hands to the one below it when it commits. -/
def inherit (parent committed : Checkpoint) : Checkpoint :=
  { parent with
    cursor := committed.cursor, flags := committed.flags, reported := committed.reported }

/-- Fold the top into the checkpoint under it. -/
def squash (stack : RuleStack) : Except Fault RuleStack :=
  match stack.below with
  | [] => .error .stackUnderflow
  | next :: deeper => .ok { stack with top := inherit next stack.top, below := deeper }

/-- Remember in every open scope that a diagnostic was delivered. -/
def noteReported (stack : RuleStack) : RuleStack :=
  { stack with
    top := { stack.top with reported := true }
    below := stack.below.map fun checkpoint => { checkpoint with reported := true } }

/-- Change the top. -/
def modifyTop (stack : RuleStack) (change : Checkpoint → Checkpoint) : RuleStack :=
  { stack with top := change stack.top }

end RuleStack

end InkSyntax
