import InkSyntax.Machine.Run

namespace InkSyntax

/-!
# What the steps of a machine do

One equivalence for each of the three steps of the scope discipline.  Each says
when the step succeeds and what the machine is afterwards.  Reporting has one
equation for each part of the machine.  Later proofs go by these and do not look
into the stack of checkpoints again.
-/

variable {H : Type} [Host H]

namespace Machine

/-- The number that the next scope gets. -/
def nextRule (machine : Machine H) : RuleId :=
  ⟨machine.stack.lastRule + 1⟩

/-- A machine in which one more scope was opened. -/
def opened (machine : Machine H) : Machine H :=
  { machine with
    stack :=
      { machine.stack with
        top :=
          { machine.top with
            rule := machine.nextRule
            reported := false
            mark := Host.mark machine.host }
        below := machine.top :: machine.stack.below
        lastRule := machine.nextRule.number } }

/-- Scopes open as long as the stack has room, and number themselves. -/
theorem openScope_eq_ok_iff
    {machine after : Machine H}
    {rule : RuleId} :
    machine.openScope = .ok (rule, after) ↔
      machine.stack.height < machine.stack.maxDepth ∧
        rule = machine.nextRule ∧
        after = machine.opened := by
  simp only [openScope, RuleStack.push]
  by_cases full : machine.stack.maxDepth ≤ machine.stack.height
  · simp [full, bind, Except.bind, Nat.not_lt_of_le full]
  · have room : machine.stack.height < machine.stack.maxDepth :=
      Nat.lt_of_not_le full
    simp only [full, ↓reduceIte, bind, Except.bind, pure, Except.pure,
      Except.ok.injEq, Prod.mk.injEq, room, true_and]
    constructor
    · rintro ⟨rfl, rfl⟩
      exact ⟨rfl, rfl⟩
    · rintro ⟨rfl, rfl⟩
      exact ⟨rfl, rfl⟩

/-- A scope is cancelled by its own number, and never the outermost one. -/
theorem cancelScope_eq_ok_iff
    {machine after : Machine H}
    {rule : RuleId} :
    machine.cancelScope rule = .ok after ↔
      ∃ parent deeper,
        machine.stack.below = parent :: deeper ∧
          machine.top.rule = rule ∧
          after =
            { machine with
              stack := { machine.stack with top := parent, below := deeper }
              host := Host.rewind machine.host machine.top.mark } := by
  simp only [cancelScope, RuleStack.pop, RuleStack.peek, top]
  cases below : machine.stack.below with
  | nil =>
      simp [bind, Except.bind]
  | cons parent deeper =>
      by_cases own : machine.stack.top.rule = rule
      · simp only [own, ↓reduceIte, bind, Except.bind, pure,
          Except.pure, Except.ok.injEq, true_and]
        constructor
        · rintro rfl
          exact ⟨parent, deeper, rfl, rfl⟩
        · rintro ⟨_, _, ⟨⟩, rfl⟩
          rfl
      · simp [own, bind, Except.bind]

/-- A scope is committed by its own number into the one that it was opened in. -/
theorem commitScope_eq_ok_iff
    {machine after : Machine H}
    {rule : RuleId}
    {nodes : List NodeId} :
    machine.commitScope rule nodes = .ok after ↔
      ∃ parent deeper,
        machine.stack.below = parent :: deeper ∧
          machine.top.rule = rule ∧
          after =
            { machine with
              stack :=
                { machine.stack with
                  top := RuleStack.inherit parent machine.top
                  below := deeper }
              host :=
                Host.commit machine.host nodes
                  parent.cursor machine.cursor } := by
  simp only [commitScope, RuleStack.squash, RuleStack.peek,
    RuleStack.penultimate?, top, cursor]
  by_cases own : machine.stack.top.rule = rule
  · cases below : machine.stack.below with
    | nil =>
        simp [own, bind, Except.bind]
    | cons parent deeper =>
        simp only [own, ↓reduceIte, bind, Except.bind, pure,
          Except.pure, Except.ok.injEq, true_and, List.head?_cons,
          Option.getD_some]
        constructor
        · rintro rfl
          exact ⟨parent, deeper, rfl, rfl⟩
        · rintro ⟨_, _, ⟨⟩, rfl⟩
          rfl
  · simp [own, bind, Except.bind]

/-- Opening a scope adds one checkpoint. -/
@[simp] theorem height_opened
    (machine : Machine H) :
    machine.opened.stack.height = machine.stack.height + 1 :=
  rfl

/-- A scope begins where the one around it stands. -/
@[simp] theorem cursor_opened
    (machine : Machine H) :
    machine.opened.cursor = machine.cursor :=
  rfl

section Report

variable
    (machine : Machine H)
    (severity : Severity)
    (line : Nat)
    (message : String)

/-- Open scopes hear of a report unless the innermost one has reported. -/
theorem stack_report :
    (machine.report severity line message).stack =
      if machine.stack.top.reported then machine.stack
      else machine.stack.noteReported := by
  by_cases told : machine.stack.top.reported <;>
    cases severity <;>
    simp [report, top, told]

/-- The host hears of a report unless the innermost scope has reported. -/
theorem host_report :
    (machine.report severity line message).host =
      if machine.stack.top.reported then machine.host
      else Host.deliver machine.host severity line message := by
  by_cases told : machine.stack.top.reported <;>
    cases severity <;>
    simp [report, top, told]

/-- Errors are remembered whether they are delivered or not. -/
theorem hadError_report :
    (machine.report severity line message).hadError =
      (machine.hadError || severity == .error) := by
  by_cases told : machine.stack.top.reported <;>
    cases severity <;>
    simp [report, top, told]

/-- A report is delivered where the cursor stands. -/
@[simp] theorem cursor_report :
    (machine.report severity line message).cursor = machine.cursor := by
  by_cases told : machine.stack.top.reported <;>
    simp [cursor, stack_report, told, RuleStack.noteReported]

/-- A report leaves the flags as they are. -/
@[simp] theorem flags_report :
    (machine.report severity line message).top.flags = machine.top.flags := by
  by_cases told : machine.stack.top.reported <;>
    simp [top, stack_report, told, RuleStack.noteReported]

@[simp] theorem rounds_report :
    (machine.report severity line message).rounds = machine.rounds := by
  by_cases told : machine.stack.top.reported <;>
    cases severity <;>
    simp [report, top, told]

end Report

end Machine

end InkSyntax
