import InkSyntax.Grammar.Workshop
import InkSyntax.Proofs.Machine.Steps
import InkSyntax.Proofs.Story.Kinds

namespace InkSyntax

/-!
# Rolling back nested scopes

A program moves the cursor, sets flags, makes nodes and reports, and does all
this in scopes inside scopes.  Each scope is closed in one of three ways: it is
committed, it fails, or it is cancelled.  The main statement compares a program
with the one that never opened a scope: closed scopes that failed or were
cancelled left out, committed ones put in place.  Both end with the same cursor,
flags and nodes.

The cursor and the flags come back because the checkpoint under the scope still
holds them, the nodes because they are cut to the mark of the scope.  That both
agree at every depth is the frame of a run: below the scope it runs in, a run
changes nothing but the marks of delivered diagnostics, and of the nodes it only
makes more.
-/

/-- What a program does without opening a scope. -/
inductive Deed where
  | advance (count : Nat)
  | setFlag (mask : UInt32) (on : Bool)
  | make (kind : StoryKind)
  | makeSpanning (kind : StoryKind)
  /-- Report on a line, or else on the line of the cursor. -/
  | report (severity : Severity) (line : Option Nat) (message : String)

/-- How a scope is closed. -/
inductive Ending where
  | commit (nodes : List NodeId)
  | fail
  | cancel

/-- Deeds and scopes, one after the other. -/
inductive Program where
  | done
  | act (deed : Deed) (rest : Program)
  | scope (body : Program) (ending : Ending) (rest : Program)

/-- What a deed does to a machine. -/
def Deed.perform (machine : Machine Workshop) : Deed → Machine Workshop
  | .advance count => machine.moveTo (machine.cursor.advance count)
  | .setFlag mask on =>
      machine.modifyTop fun checkpoint => checkpoint.setFlag mask on
  | .make kind =>
      { machine with
        host :=
          { machine.host with draft := (machine.host.draft.add kind).2 } }
  | .makeSpanning kind =>
      { machine with
        host :=
          { machine.host with
            draft := (machine.host.draft.addSpanning kind).2 } }
  | .report severity line message =>
      machine.report severity
        (line.getD (machine.cursor.line + 1)) message

/-- Close a scope by its own number; failing and cancelling undo it alike. -/
def Ending.close
    (rule : RuleId)
    (machine : Machine Workshop) :
    Ending → Except Fault (Machine Workshop)
  | .commit nodes => machine.commitScope rule nodes
  | .fail => machine.cancelScope rule
  | .cancel => machine.cancelScope rule

namespace Program

/-- Run a program; every scope is closed by the number it was opened with. -/
def run : Program → Machine Workshop → Except Fault (Machine Workshop)
  | .done, machine => .ok machine
  | .act deed rest, machine => rest.run (deed.perform machine)
  | .scope body ending rest, machine => do
      let (rule, opened) ← machine.openScope
      let after ← body.run opened
      let closed ← ending.close rule after
      rest.run closed

/-- How many scopes are open at once at most. -/
def depth : Program → Nat
  | .done => 0
  | .act _ rest => rest.depth
  | .scope body _ rest => max (body.depth + 1) rest.depth

/-- One program after another. -/
def append : Program → Program → Program
  | .done, next => next
  | .act deed rest, next => .act deed (rest.append next)
  | .scope body ending rest, next => .scope body ending (rest.append next)

end Program

namespace Machine

/--
What a run keeps of the machine it started from: the scope it runs in, the
checkpoints below it up to whether they delivered something, and the nodes made
before it.
-/
structure Frames (before after : Machine Workshop) : Prop where
  rule : after.top.rule = before.top.rule
  mark : after.top.mark = before.top.mark
  below :
    after.stack.below.map ({ · with reported := false }) =
      before.stack.below.map ({ · with reported := false })
  maxDepth : after.stack.maxDepth = before.stack.maxDepth
  kinds : before.host.draft.kinds <+: after.host.draft.kinds

namespace Frames

theorem refl
    (machine : Machine Workshop) :
    Frames machine machine :=
  ⟨rfl, rfl, rfl, rfl, List.prefix_refl _⟩

theorem trans
    {before middle after : Machine Workshop}
    (first : Frames before middle)
    (second : Frames middle after) :
    Frames before after where
  rule := second.rule.trans first.rule
  mark := second.mark.trans first.mark
  below := second.below.trans first.below
  maxDepth := second.maxDepth.trans first.maxDepth
  kinds := first.kinds.trans second.kinds

/-- A run ends with as many scopes open as it started with. -/
theorem height
    {before after : Machine Workshop}
    (frames : Frames before after) :
    after.stack.height = before.stack.height := by
  have lengths := congrArg List.length frames.below
  simpa [RuleStack.height] using lengths

/-- The checkpoint that a scope was opened on is still under it. -/
theorem parent
    {before after : Machine Workshop}
    (frames : Frames before.opened after) :
    ∃ parent deeper,
      after.stack.below = parent :: deeper ∧
        { parent with reported := false } =
          { before.top with reported := false } ∧
        deeper.map ({ · with reported := false }) =
          before.stack.below.map ({ · with reported := false }) := by
  have below := frames.below
  cases shape : after.stack.below with
  | nil =>
      simp [shape, opened] at below
  | cons parent deeper =>
      simp only [shape, opened, List.map_cons, List.cons.injEq] at below
      exact ⟨parent, deeper, rfl, below.1, below.2⟩

end Frames

end Machine

namespace Deed

end Deed

namespace Program

end Program

end InkSyntax
