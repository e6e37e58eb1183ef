import InkSyntax.Machine.Recipe
import InkSyntax.Proofs.Machine.Steps

namespace InkSyntax

/-!
# How often a scope reports

A scope that has reported stays silent, so that one mistake is not told twice.
What keeps it silent is a mark on its checkpoint.  Opening a scope clears the mark
of the new one, a delivered diagnostic sets the marks of all open scopes, and
committing a scope hands its mark to the scope below.

The last of these can clear a mark again: a child that is committed without a
report of its own makes its parent forget.  The main statement says that nothing
else does.
-/

/-- What rules ask of a machine, in whatever order. -/
inductive Operation (H : Type) where
  | openScope
  | commitScope (rule : RuleId) (nodes : List NodeId)
  /-- Undo a scope, because its rule failed or only looked ahead. -/
  | cancelScope (rule : RuleId)
  | report (severity : Severity) (line : Nat) (message : String)
  | moveTo (cursor : Cursor)
  | setFlag (mask : UInt32) (on : Bool)
  /-- Whatever rules do to what they build. -/
  | work (change : H → H)

namespace RuleStack

/-- The checkpoint that is the last of so many, counted from the outermost. -/
def checkpointAmong (height : Nat) : List Checkpoint → Option Checkpoint
  | [] => none
  | checkpoint :: deeper =>
      if deeper.length + 1 = height then some checkpoint
      else checkpointAmong height deeper

/-- The checkpoint at a height; the outermost one is at height one. -/
def checkpointAt? (stack : RuleStack) (height : Nat) : Option Checkpoint :=
  checkpointAmong height (stack.top :: stack.below)

/-- The innermost checkpoint is at the height of the stack. -/
theorem checkpointAt?_height
    (stack : RuleStack) :
    stack.checkpointAt? stack.height = some stack.top := by
  simp [checkpointAt?, checkpointAmong, height]

/-- A checkpoint under the top is found under the top. -/
theorem checkpointAt?_of_lt
    {stack : RuleStack}
    {height : Nat}
    (lower : height < stack.height) :
    stack.checkpointAt? height =
      checkpointAmong height stack.below := by
  have other : stack.below.length + 1 ≠ height := by
    have above : height < stack.below.length + 1 := lower
    omega
  simp [checkpointAt?, checkpointAmong, other]

/-- Noting a report marks the checkpoints of every height. -/
theorem checkpointAmong_map
    (height : Nat)
    (checkpoints : List Checkpoint)
    (change : Checkpoint → Checkpoint) :
    checkpointAmong height (checkpoints.map change) =
      (checkpointAmong height checkpoints).map change := by
  induction checkpoints with
  | nil =>
      rfl
  | cons checkpoint deeper inductionHypothesis =>
      simp only [List.map_cons, checkpointAmong, List.length_map]
      split
      · rfl
      · exact inductionHypothesis

theorem checkpointAt?_noteReported
    (stack : RuleStack)
    (height : Nat) :
    stack.noteReported.checkpointAt? height =
      (stack.checkpointAt? height).map ({ · with reported := true }) :=
  checkpointAmong_map height (stack.top :: stack.below)
    ({ · with reported := true })

end RuleStack

variable {H : Type} [Host H]

namespace Operation

/-- Perform an operation on a machine. -/
def perform (machine : Machine H) :
    Operation H → Except Fault (Machine H)
  | .openScope => do return (← machine.openScope).2
  | .commitScope rule nodes => machine.commitScope rule nodes
  | .cancelScope rule => machine.cancelScope rule
  | .report severity line message =>
      .ok (machine.report severity line message)
  | .moveTo cursor => .ok (machine.moveTo cursor)
  | .setFlag mask on =>
      .ok (machine.modifyTop fun checkpoint => checkpoint.setFlag mask on)
  | .work change => .ok { machine with host := change machine.host }

/-- Whether an operation delivers a diagnostic. -/
def Delivers (machine : Machine H) : Operation H → Prop
  | .report .. => machine.top.reported = false
  | _ => False

/-- Whether an operation commits a scope into the one at a height. -/
def CommitsInto (height : Nat) (machine : Machine H) : Operation H → Prop
  | .commitScope .. => machine.stack.height = height + 1
  | _ => False

end Operation

/-- Operations performed one after the other, each as a relation allows it. -/
inductive Run
    (step : Machine H → Operation H → Machine H → Prop) :
    Machine H → List (Operation H) → Machine H → Prop where
  | nil (machine : Machine H) :
      Run step machine [] machine
  | cons
      {before middle after : Machine H}
      {operation : Operation H}
      {rest : List (Operation H)}
      (first : step before operation middle)
      (later : Run step middle rest after) :
      Run step before (operation :: rest) after

/-- Perform an operation that leaves the scope at a height open. -/
def StaysWithin
    (height : Nat)
    (before : Machine H)
    (operation : Operation H)
    (after : Machine H) : Prop :=
  operation.perform before = .ok after ∧ height ≤ after.stack.height

/--
Perform an operation that leaves the scope at a height open, delivers nothing and
commits nothing into that scope.
-/
def StaysQuiet
    (height : Nat)
    (before : Machine H)
    (operation : Operation H)
    (after : Machine H) : Prop :=
  StaysWithin height before operation after ∧
    ¬ operation.Delivers before ∧
    ¬ operation.CommitsInto height before

/-! What one operation does to the mark of a scope that it leaves open. -/

namespace StaysWithin

/-- Committing a deeper scope marks its parent as it was marked itself. -/
private theorem step_commitScope
    {height : Nat}
    {before after : Machine H}
    {rule : RuleId}
    {nodes : List NodeId}
    {scope : Checkpoint}
    (commits : before.commitScope rule nodes = .ok after)
    (isOpen : before.stack.checkpointAt? height = some scope)
    (remains : height ≤ after.stack.height) :
    ∃ kept,
      after.stack.checkpointAt? height = some kept ∧
        kept.rule = scope.rule ∧
        (before.stack.height = height + 1 →
          kept.reported = before.top.reported) ∧
        (before.stack.height ≠ height + 1 →
          kept.reported = scope.reported) := by
  obtain ⟨parent, deeper, below, -, rfl⟩ :=
    Machine.commitScope_eq_ok_iff.mp commits
  have heights : before.stack.height = deeper.length + 2 := by
    simp [RuleStack.height, below]
  simp only [RuleStack.height] at remains
  have lower : height < before.stack.height := by
    omega
  rw [RuleStack.checkpointAt?_of_lt lower, below] at isOpen
  simp only [RuleStack.checkpointAmong] at isOpen
  by_cases isParent : deeper.length + 1 = height
  · simp only [isParent, ↓reduceIte, Option.some.injEq] at isOpen
    subst isOpen
    refine
      ⟨RuleStack.inherit parent before.top, ?_, rfl, fun _ => rfl, ?_⟩
    · simp [RuleStack.checkpointAt?, RuleStack.checkpointAmong, isParent]
    · intro deeperStill
      omega
  · simp only [isParent, ↓reduceIte] at isOpen
    refine ⟨scope, ?_, rfl, ?_, fun _ => rfl⟩
    · simpa [RuleStack.checkpointAt?, RuleStack.checkpointAmong,
        isParent] using isOpen
    · intro direct
      omega

/-- Undoing a deeper scope leaves the marks below it alone. -/
private theorem step_cancelScope
    {height : Nat}
    {before after : Machine H}
    {rule : RuleId}
    (cancels : before.cancelScope rule = .ok after)
    (remains : height ≤ after.stack.height) :
    after.stack.checkpointAt? height =
      before.stack.checkpointAt? height := by
  obtain ⟨parent, deeper, below, -, rfl⟩ :=
    Machine.cancelScope_eq_ok_iff.mp cancels
  simp only [RuleStack.height] at remains
  have lower : height < before.stack.height := by
    simp only [RuleStack.height, below, List.length_cons]
    omega
  rw [RuleStack.checkpointAt?_of_lt lower, below]
  rfl

/-- Opening a scope leaves the marks below it alone. -/
private theorem step_openScope
    {height : Nat}
    {before after : Machine H}
    {rule : RuleId}
    (opens : before.openScope = .ok (rule, after))
    (within : height ≤ before.stack.height) :
    after.stack.checkpointAt? height =
      before.stack.checkpointAt? height := by
  obtain ⟨-, -, rfl⟩ := Machine.openScope_eq_ok_iff.mp opens
  have lower : height < before.opened.stack.height := by
    simp only [Machine.height_opened]
    omega
  rw [RuleStack.checkpointAt?_of_lt lower]
  rfl

omit [Host H] in
/-- Moving the cursor and setting flags leave all marks alone. -/
private theorem step_modifyTop
    {height : Nat}
    (before : Machine H)
    (change : Checkpoint → Checkpoint)
    {scope : Checkpoint}
    (sameRule : ∀ checkpoint, (change checkpoint).rule = checkpoint.rule)
    (sameMark :
      ∀ checkpoint, (change checkpoint).reported = checkpoint.reported)
    (isOpen : before.stack.checkpointAt? height = some scope) :
    ∃ kept,
      (before.modifyTop change).stack.checkpointAt? height = some kept ∧
        kept.rule = scope.rule ∧
        kept.reported = scope.reported := by
  simp only [RuleStack.checkpointAt?, RuleStack.checkpointAmong,
    Machine.modifyTop, RuleStack.modifyTop] at isOpen ⊢
  by_cases isTop : before.stack.below.length + 1 = height
  · simp only [isTop, ↓reduceIte, Option.some.injEq] at isOpen ⊢
    subst isOpen
    exact ⟨_, rfl, sameRule _, sameMark _⟩
  · simp only [isTop, ↓reduceIte] at isOpen ⊢
    exact ⟨scope, isOpen, rfl, rfl⟩

/-- A delivered report marks every open scope, a suppressed one none. -/
private theorem step_report
    {height : Nat}
    (before : Machine H)
    {scope : Checkpoint}
    (severity : Severity)
    (line : Nat)
    (message : String)
    (isOpen : before.stack.checkpointAt? height = some scope) :
    ∃ kept,
      (before.report severity line message).stack.checkpointAt? height =
          some kept ∧
        kept.rule = scope.rule ∧
        (before.top.reported = false → kept.reported = true) ∧
        (before.top.reported = true → kept.reported = scope.reported) := by
  rw [Machine.stack_report]
  by_cases told : before.stack.top.reported
  · refine ⟨scope, by simpa [told] using isOpen, rfl, ?_, fun _ => rfl⟩
    intro silent
    simp [Machine.top, told] at silent
  · refine
      ⟨{ scope with reported := true }, ?_, rfl, fun _ => rfl, ?_⟩
    · simp [told, RuleStack.checkpointAt?_noteReported, isOpen]
    · intro marked
      exact (told marked).elim

/--
A scope that stays open keeps its number.  A delivered diagnostic sets its mark, a
scope committed into it replaces the mark by its own, and nothing else changes it.
-/
theorem mark
    {height : Nat}
    {before after : Machine H}
    {operation : Operation H}
    {scope : Checkpoint}
    (step : StaysWithin height before operation after)
    (within : height ≤ before.stack.height)
    (isOpen : before.stack.checkpointAt? height = some scope) :
    ∃ kept,
      after.stack.checkpointAt? height = some kept ∧
        kept.rule = scope.rule ∧
        (operation.Delivers before → kept.reported = true) ∧
        (operation.CommitsInto height before →
          kept.reported = before.top.reported) ∧
        (¬ operation.Delivers before →
          ¬ operation.CommitsInto height before →
          kept.reported = scope.reported) := by
  obtain ⟨performs, remains⟩ := step
  cases operation with
  | openScope =>
      simp only [Operation.perform, bind, Except.bind, pure,
        Except.pure] at performs
      split at performs
      · cases performs
      · next opened opens =>
          cases performs
          refine ⟨scope, ?_, rfl, nofun, nofun, fun _ _ => rfl⟩
          rw [step_openScope opens within, isOpen]
  | commitScope rule nodes =>
      obtain ⟨kept, found, sameRule, direct, indirect⟩ :=
        step_commitScope performs isOpen remains
      exact
        ⟨kept, found, sameRule, nofun, direct,
          fun _ elsewhere => indirect elsewhere⟩
  | cancelScope rule =>
      refine ⟨scope, ?_, rfl, nofun, nofun, fun _ _ => rfl⟩
      rw [step_cancelScope performs remains, isOpen]
  | report severity line message =>
      cases performs
      obtain ⟨kept, found, sameRule, delivered, suppressed⟩ :=
        step_report before severity line message isOpen
      refine ⟨kept, found, sameRule, delivered, nofun, ?_⟩
      intro notDelivered _
      exact suppressed (Bool.not_eq_false _ ▸ notDelivered)
  | moveTo cursor =>
      cases performs
      obtain ⟨kept, found, sameRule, sameMark⟩ :=
        step_modifyTop before ({ · with cursor := cursor })
          (fun _ => rfl) (fun _ => rfl) isOpen
      exact ⟨kept, found, sameRule, nofun, nofun, fun _ _ => sameMark⟩
  | setFlag mask on =>
      cases performs
      obtain ⟨kept, found, sameRule, sameMark⟩ :=
        step_modifyTop before (·.setFlag mask on)
          (fun _ => rfl) (fun _ => rfl) isOpen
      exact ⟨kept, found, sameRule, nofun, nofun, fun _ _ => sameMark⟩
  | work change =>
      cases performs
      exact ⟨scope, isOpen, rfl, nofun, nofun, fun _ _ => rfl⟩

end StaysWithin

namespace Run

/-- A run that stays within a scope keeps it open, under the same number. -/
theorem keepsRule
    {height : Nat}
    {before after : Machine H}
    {operations : List (Operation H)}
    {scope : Checkpoint}
    (run : Run (StaysWithin height) before operations after)
    (within : height ≤ before.stack.height)
    (isOpen : before.stack.checkpointAt? height = some scope) :
    ∃ kept,
      after.stack.checkpointAt? height = some kept ∧
        kept.rule = scope.rule := by
  induction run generalizing scope with
  | nil machine =>
      exact ⟨scope, isOpen, rfl⟩
  | cons first later inductionHypothesis =>
      obtain ⟨middle, found, sameRule, -⟩ := first.mark within isOpen
      obtain ⟨kept, foundLast, sameLast⟩ :=
        inductionHypothesis first.2 found
      exact ⟨kept, foundLast, sameLast.trans sameRule⟩

/-- A quiet run leaves the mark of its scope as it was. -/
theorem keepsMark
    {height : Nat}
    {before after : Machine H}
    {operations : List (Operation H)}
    {scope : Checkpoint}
    (run : Run (StaysQuiet height) before operations after)
    (within : height ≤ before.stack.height)
    (isOpen : before.stack.checkpointAt? height = some scope) :
    ∃ kept,
      after.stack.checkpointAt? height = some kept ∧
        kept.reported = scope.reported := by
  induction run generalizing scope with
  | nil machine =>
      exact ⟨scope, isOpen, rfl⟩
  | cons first later inductionHypothesis =>
      obtain ⟨stays, notDelivered, notCommitted⟩ := first
      obtain ⟨middle, found, -, -, -, unchanged⟩ :=
        stays.mark within isOpen
      obtain ⟨kept, foundLast, sameLast⟩ :=
        inductionHypothesis stays.2 found
      exact
        ⟨kept, foundLast,
          sameLast.trans (unchanged notDelivered notCommitted)⟩

/--
Where a run ends with its scope unmarked, either the scope was unmarked before and
the run was quiet, or some unmarked child was committed into it and the run was
quiet from there on.
-/
theorem quiet_or_committed_unmarked
    {height : Nat}
    {before after : Machine H}
    {operations : List (Operation H)}
    {scope last : Checkpoint}
    (run : Run (StaysWithin height) before operations after)
    (within : height ≤ before.stack.height)
    (isOpen : before.stack.checkpointAt? height = some scope)
    (atEnd : after.stack.checkpointAt? height = some last)
    (unmarked : last.reported = false) :
    (scope.reported = false ∧
        Run (StaysQuiet height) before operations after) ∨
      ∃ earlier child nodes later committing committed,
        operations = earlier ++ .commitScope child nodes :: later ∧
          Run (StaysWithin height) before earlier committing ∧
          committing.stack.height = height + 1 ∧
          committing.top.reported = false ∧
          committing.commitScope child nodes = .ok committed ∧
          Run (StaysQuiet height) committed later after := by
  induction run generalizing scope with
  | nil machine =>
      rw [isOpen, Option.some.injEq] at atEnd
      subst atEnd
      exact .inl ⟨unmarked, .nil machine⟩
  | @cons before middle after operation rest first later inductionHypothesis =>
      obtain ⟨next, found, -, delivered, committed, unchanged⟩ :=
        first.mark within isOpen
      rcases inductionHypothesis first.2 found atEnd with
          ⟨nextUnmarked, quiet⟩ |
            ⟨earlier, child, nodes, rest', committing, committed',
              shape, leading, atChild, childUnmarked, commits, quiet⟩
      · have notDelivered : ¬ operation.Delivers before := by
          intro delivers
          rw [delivered delivers] at nextUnmarked
          cases nextUnmarked
        by_cases commitsHere : operation.CommitsInto height before
        · cases operation with
          | commitScope child nodes =>
              exact
                .inr
                  ⟨[], child, nodes, rest, before, middle, rfl,
                    .nil before, commitsHere,
                    (committed commitsHere).symm.trans nextUnmarked,
                    first.1, quiet⟩
          | _ => exact commitsHere.elim
        · have scopeUnmarked :=
            (unchanged notDelivered commitsHere).symm.trans nextUnmarked
          exact
            .inl
              ⟨scopeUnmarked,
                .cons ⟨first, notDelivered, commitsHere⟩ quiet⟩
      · exact
          .inr
            ⟨operation :: earlier, child, nodes, rest', committing,
              committed', by rw [shape, List.cons_append],
              .cons first leading, atChild, childUnmarked, commits,
              quiet⟩

end Run

/--
When a scope reports again.  A scope delivers a diagnostic; operations follow that
never close it, whatever they open, close and report above it; then the scope is
the innermost one again, still under its number.  The next report in it is
delivered exactly if some child was committed into it without a mark of its own,
and since then nothing was delivered and no other child committed into it.
-/
theorem delivers_again_iff_unmarked_child_committed
    {machine after : Machine H}
    {operations : List (Operation H)}
    {severity later : Severity}
    {line laterLine : Nat}
    {message laterMessage : String}
    (delivers :
      (Operation.report severity line message).Delivers machine)
    (run :
      Run (StaysWithin machine.stack.height)
        (machine.report severity line message) operations after)
    (innermost : after.stack.height = machine.stack.height) :
    after.top.rule = machine.top.rule ∧
      ((Operation.report later laterLine laterMessage).Delivers after ↔
        ∃ earlier child nodes rest committing committed,
          operations = earlier ++ .commitScope child nodes :: rest ∧
            Run (StaysWithin machine.stack.height)
              (machine.report severity line message) earlier committing ∧
            committing.stack.height = machine.stack.height + 1 ∧
            committing.top.reported = false ∧
            committing.commitScope child nodes = .ok committed ∧
            Run (StaysQuiet machine.stack.height)
              committed rest after) := by
  have reports :
      StaysWithin machine.stack.height machine
        (.report severity line message)
        (machine.report severity line message) := by
    refine ⟨rfl, ?_⟩
    rw [Machine.stack_report]
    split
    · exact Nat.le_refl _
    · simp [RuleStack.noteReported, RuleStack.height]
  obtain ⟨scope, isOpen, sameRule, marked, -⟩ :=
    reports.mark (Nat.le_refl _) machine.stack.checkpointAt?_height
  have atEnd :
      after.stack.checkpointAt? machine.stack.height =
        some after.stack.top := by
    rw [← innermost]
    exact after.stack.checkpointAt?_height
  refine ⟨?_, ?_, ?_⟩
  · obtain ⟨kept, found, keptRule⟩ := run.keepsRule reports.2 isOpen
    rw [atEnd, Option.some.injEq] at found
    subst found
    exact keptRule.trans sameRule
  · intro unmarked
    rcases run.quiet_or_committed_unmarked reports.2 isOpen atEnd unmarked
      with ⟨stillUnmarked, -⟩ | committed
    · rw [marked delivers] at stillUnmarked
      cases stillUnmarked
    · exact committed
  · rintro ⟨earlier, child, nodes, rest, committing, committed, rfl,
      leading, atChild, childUnmarked, commits, quiet⟩
    obtain ⟨open_, found, -⟩ := leading.keepsRule reports.2 isOpen
    have commitsStep :
        StaysWithin machine.stack.height committing
          (.commitScope child nodes) committed := by
      refine ⟨commits, ?_⟩
      obtain ⟨parent, deeper, below, -, rfl⟩ :=
        Machine.commitScope_eq_ok_iff.mp commits
      simp only [RuleStack.height, below, List.length_cons] at atChild ⊢
      omega
    obtain ⟨forgetful, foundHere, -, -, sameMark, -⟩ :=
      commitsStep.mark (by omega) found
    obtain ⟨kept, foundLast, keptMark⟩ :=
      quiet.keepsMark commitsStep.2 foundHere
    rw [atEnd, Option.some.injEq] at foundLast
    subst foundLast
    exact keptMark.trans ((sameMark atChild).trans childUnmarked)

/-- The equivalence at a scope that reports and then commits a deeper pair. -/
theorem delivers_again_after_nested_children :
    let machine : Machine Log := (Machine.start [] 4 {}).opened
    let operations : List (Operation Log) :=
      [.openScope, .openScope, .report .warning 1 "deep",
        .cancelScope ⟨3⟩, .commitScope ⟨2⟩ []]
    ∃ after,
      (Operation.report .error 1 "a").Delivers machine ∧
        Run (StaysWithin machine.stack.height)
          (machine.report .error 1 "a") operations after ∧
        after.stack.height = machine.stack.height ∧
        after.top.rule = machine.top.rule ∧
        ((Operation.report .error 1 "b").Delivers after ↔
          ∃ earlier child nodes rest committing committed,
            operations = earlier ++ .commitScope child nodes :: rest ∧
              Run (StaysWithin machine.stack.height)
                (machine.report .error 1 "a") earlier committing ∧
              committing.stack.height = machine.stack.height + 1 ∧
              committing.top.reported = false ∧
              committing.commitScope child nodes = .ok committed ∧
              Run (StaysQuiet machine.stack.height)
                committed rest after) := by
  have run :
      Run (StaysWithin 2)
        ((Machine.start [] 4 ({} : Log)).opened.report .error 1 "a")
        [.openScope, .openScope, .report .warning 1 "deep",
          .cancelScope ⟨3⟩, .commitScope ⟨2⟩ []] _ :=
    .cons ⟨rfl, by decide⟩ <| .cons ⟨rfl, by decide⟩ <|
      .cons ⟨rfl, by decide⟩ <| .cons ⟨rfl, by decide⟩ <|
        .cons ⟨rfl, by decide⟩ <| .nil _
  exact
    ⟨_, rfl, run, rfl,
      delivers_again_iff_unmarked_child_committed rfl run rfl⟩

/--
A scope can report twice: between its reports one child is opened and committed,
and nothing else happens.
-/
theorem scope_reports_twice_around_silent_child :
    let machine : Machine Log := (Machine.start [] 3 {}).opened
    let operations : List (Operation Log) :=
      [.openScope, .commitScope ⟨2⟩ []]
    ∃ after,
      (Operation.report .error 1 "a").Delivers machine ∧
        Run (StaysWithin machine.stack.height)
          (machine.report .error 1 "a") operations after ∧
        after.stack.height = machine.stack.height ∧
        after.top.rule = machine.top.rule ∧
        (Operation.report .error 1 "b").Delivers after ∧
        (after.report .error 1 "b").host.reports =
          [("a", 1, .error), ("b", 1, .error)] := by
  have run :
      Run (StaysWithin 2)
        ((Machine.start [] 3 ({} : Log)).opened.report .error 1 "a")
        [.openScope, .commitScope ⟨2⟩ []] _ :=
    .cons ⟨rfl, by decide⟩ <| .cons ⟨rfl, by decide⟩ <| .nil _
  exact ⟨_, rfl, run, rfl, rfl, rfl, rfl⟩

end InkSyntax
