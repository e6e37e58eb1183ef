import InkSyntax.Proofs.Machine.Cursors
import InkSyntax.Proofs.Machine.Outcome

namespace InkSyntax

/-!
# What a run guarantees

A run guarantees something of the machine after a match and something of the
machine after a failure, and it breaks off only for want of room or of rounds.
Unlike `Outcome.Ensures`, which lets a run break off for any reason, a guarantee
therefore also says that scopes are closed in the order in which they were opened.

A run stays in the scope in which it starts: it moves the cursor on, and below
its scope it changes nothing but the marks of delivered diagnostics.
-/

/-- A fault for want of room on the stack, or of rounds. -/
def Fault.isExhaustion : Fault → Bool
  | .stackOverflow _ => true
  | .stalled => true
  | _ => false

namespace Machine

variable {H : Type}

/-- A checkpoint without the mark of a delivered diagnostic. -/
def unmarked (checkpoint : Checkpoint) : Checkpoint :=
  { checkpoint with reported := false }

/-- A run from the first machine stays in its scope and gets to the second one. -/
structure Proceeds (before after : Machine H) : Prop where
  rule : after.top.rule = before.top.rule
  mark : after.top.mark = before.top.mark
  below :
    after.stack.below.map unmarked = before.stack.below.map unmarked
  maxDepth : after.stack.maxDepth = before.stack.maxDepth
  rounds : after.rounds = before.rounds
  cursor : before.cursor.Reaches after.cursor

section Closing

variable [Host H]

/-- A scope was committed: what it did to the host stays, and so does its cursor. -/
structure Keeps
    (nodes : List NodeId)
    (machine after closed : Machine H) : Prop extends Proceeds machine closed where
  closed_cursor : closed.cursor = after.cursor
  host : closed.host = Host.commit after.host nodes machine.cursor after.cursor

/-- A scope was undone: cursor, flags and allocations are those from before it. -/
structure Undoes
    (machine after closed : Machine H) : Prop extends Proceeds machine closed where
  closed_cursor : closed.cursor = machine.cursor
  flags : closed.top.flags = machine.top.flags
  host : closed.host = Host.rewind after.host (Host.mark machine.host)

end Closing

namespace Proceeds

variable {before middle after machine : Machine H}

theorem refl
    (machine : Machine H) :
    Proceeds machine machine :=
  ⟨rfl, rfl, rfl, rfl, rfl, .refl _⟩

theorem trans
    (first : Proceeds before middle)
    (second : Proceeds middle after) :
    Proceeds before after where
  rule := second.rule.trans first.rule
  mark := second.mark.trans first.mark
  below := second.below.trans first.below
  maxDepth := second.maxDepth.trans first.maxDepth
  rounds := second.rounds.trans first.rounds
  cursor := first.cursor.trans second.cursor

theorem advance
    (machine : Machine H)
    (count : Nat) :
    Proceeds machine (machine.moveTo (machine.cursor.advance count)) :=
  ⟨rfl, rfl, rfl, rfl, rfl, count, rfl⟩

theorem setFlag
    (machine : Machine H)
    (mask : UInt32)
    (on : Bool) :
    Proceeds machine
      (machine.modifyTop fun checkpoint => checkpoint.setFlag mask on) :=
  ⟨rfl, rfl, rfl, rfl, rfl, .refl _⟩

/-- Work on the host alone leaves the scopes and the cursor as they are. -/
theorem work
    (machine : Machine H)
    (host : H) :
    Proceeds machine { machine with host := host } :=
  ⟨rfl, rfl, rfl, rfl, rfl, .refl _⟩

theorem height
    (proceeds : Proceeds before after) :
    after.stack.height = before.stack.height := by
  have lengths := congrArg List.length proceeds.below
  simpa [RuleStack.height] using lengths

variable [Host H]

theorem report
    (machine : Machine H)
    (severity : Severity)
    (line : Nat)
    (message : String) :
    Proceeds machine (machine.report severity line message) := by
  by_cases told : machine.stack.top.reported <;>
    constructor <;>
    simp [top, Machine.cursor, stack_report, told, RuleStack.noteReported,
      unmarked, Function.comp_def, Cursor.Reaches.refl]

/-- The checkpoint that a scope was opened on is still under it. -/
theorem exists_parent
    (proceeds : Proceeds machine.opened after) :
    ∃ parent deeper,
      after.stack.below = parent :: deeper ∧
        unmarked parent = unmarked machine.top ∧
        deeper.map unmarked = machine.stack.below.map unmarked := by
  have below := proceeds.below
  cases shape : after.stack.below with
  | nil =>
      simp [shape, opened] at below
  | cons parent deeper =>
      simp only [shape, opened, List.map_cons, List.cons.injEq] at below
      exact ⟨parent, deeper, rfl, below.1, below.2⟩

/-- Whatever ran in a scope can be committed. -/
theorem exists_keeps
    (proceeds : Proceeds machine.opened after)
    (nodes : List NodeId) :
    ∃ closed,
      after.commitScope machine.nextRule nodes = .ok closed ∧
        Keeps nodes machine after closed := by
  obtain ⟨parent, deeper, below, sameParent, sameDeeper⟩ :=
    proceeds.exists_parent
  simp only [unmarked, Checkpoint.mk.injEq] at sameParent
  obtain ⟨cursor, -, -, mark, rule⟩ := sameParent
  refine
    ⟨_, commitScope_eq_ok_iff.mpr ⟨parent, deeper, below, proceeds.rule, rfl⟩,
      ?_⟩
  exact
    { rule := rule
      mark := mark
      below := sameDeeper
      maxDepth := proceeds.maxDepth
      rounds := proceeds.rounds
      cursor := proceeds.cursor
      closed_cursor := rfl
      host := by simp only [cursor]; rfl }

/-- Whatever ran in a scope can be undone. -/
theorem exists_undoes
    (proceeds : Proceeds machine.opened after) :
    ∃ closed,
      after.cancelScope machine.nextRule = .ok closed ∧
        Undoes machine after closed := by
  obtain ⟨parent, deeper, below, sameParent, sameDeeper⟩ :=
    proceeds.exists_parent
  simp only [unmarked, Checkpoint.mk.injEq] at sameParent
  obtain ⟨cursor, flags, -, mark, rule⟩ := sameParent
  refine
    ⟨_, cancelScope_eq_ok_iff.mpr ⟨parent, deeper, below, proceeds.rule, rfl⟩,
      ?_⟩
  exact
    { rule := rule
      mark := mark
      below := sameDeeper
      maxDepth := proceeds.maxDepth
      rounds := proceeds.rounds
      cursor := ⟨0, cursor⟩
      closed_cursor := cursor
      flags := flags
      host := by rw [proceeds.mark]; rfl }

end Proceeds

end Machine

namespace Outcome

variable {H α β : Type}

/-- What holds after a match and after a failure; a fault is for want of room or rounds. -/
def Guarantees
    (outcome : Outcome H α)
    (onMatch : α → Machine H → Prop)
    (onFailure : Machine H → Prop) : Prop :=
  match outcome with
  | .matched value after => onMatch value after
  | .failed after => onFailure after
  | .faulted fault => fault.isExhaustion = true

variable
    {outcome : Outcome H α}
    {onMatch onMatch' : α → Machine H → Prop}
    {onFailure onFailure' : Machine H → Prop}

theorem Guarantees.mono
    (guarantees : outcome.Guarantees onMatch onFailure)
    (match_ : ∀ value after, onMatch value after → onMatch' value after)
    (failure : ∀ after, onFailure after → onFailure' after) :
    outcome.Guarantees onMatch' onFailure' := by
  cases outcome with
  | matched value after =>
      exact match_ value after guarantees
  | failed after =>
      exact failure after guarantees
  | faulted fault =>
      exact guarantees

/-- What a run ensures adds to what it guarantees. -/
theorem Guarantees.and_ensures
    (guarantees : outcome.Guarantees onMatch onFailure)
    (ensures : outcome.Ensures onMatch' onFailure') :
    outcome.Guarantees
      (fun value after => onMatch value after ∧ onMatch' value after)
      (fun after => onFailure after ∧ onFailure' after) := by
  cases outcome with
  | matched value after =>
      exact ⟨guarantees, ensures⟩
  | failed after =>
      exact ⟨guarantees, ensures⟩
  | faulted fault =>
      exact guarantees

theorem Guarantees.and
    (first : outcome.Guarantees onMatch onFailure)
    (second : outcome.Guarantees onMatch' onFailure') :
    outcome.Guarantees
      (fun value after => onMatch value after ∧ onMatch' value after)
      (fun after => onFailure after ∧ onFailure' after) := by
  cases outcome with
  | matched value after =>
      exact ⟨first, second⟩
  | failed after =>
      exact ⟨first, second⟩
  | faulted fault =>
      exact first

end Outcome

namespace Rule

variable
    {E : Type → Type 1}
    {H : Type}
    [Host H]
    {α β σ : Type}
    {handle : {γ : Type} → E γ → Action H γ}
    {machine : Machine H}
    {onMatch : β → Machine H → Prop}
    {onFailure : Machine H → Prop}

theorem guarantees_bind
    {first : Rule E α}
    {next : α → Rule E β} :
    ((Rule.bind first next).run handle machine).Guarantees onMatch onFailure ↔
      (first.run handle machine).Guarantees
        (fun value after =>
          ((next value).run handle after).Guarantees onMatch onFailure)
        onFailure := by
  simp only [run]
  cases first.run handle machine <;> rfl

theorem guarantees_attempt
    {rule : Rule E α}
    {onMatch : Option α → Machine H → Prop} :
    ((Rule.attempt rule).run handle machine).Guarantees onMatch onFailure ↔
      (rule.run handle machine).Guarantees
        (fun value => onMatch (some value)) (onMatch none) := by
  simp only [run]
  cases rule.run handle machine <;> rfl

theorem guarantees_scan
    {scanner : Scanner β} :
    ((Rule.scan scanner : Rule E β).run handle machine).Guarantees
        onMatch onFailure ↔
      match scanner machine.cursor.rest with
      | some (value, length) =>
          onMatch value (machine.moveTo (machine.cursor.advance length))
      | none => onFailure machine := by
  simp only [run, Cursor.scan]
  cases scanner machine.cursor.rest <;> rfl

/-- A scope closes as its fate says, and is undone if its rule fails. -/
theorem guarantees_scope
    {fate : β → Fate}
    {rule : Rule E β}
    (inside :
      (rule.run handle machine.opened).Guarantees
        (fun value after =>
          machine.opened.Proceeds after ∧
            match fate value with
            | .keep nodes =>
                ∀ closed, machine.Keeps nodes after closed → onMatch value closed
            | .undo =>
                ∀ closed, machine.Undoes after closed → onMatch value closed)
        (fun after =>
          machine.opened.Proceeds after ∧
            ∀ closed, machine.Undoes after closed → onFailure closed)) :
    ((Rule.scope fate rule).run handle machine).Guarantees
      onMatch onFailure := by
  simp only [run, Action.inScope]
  cases opens : machine.openScope with
  | error fault =>
      simp only [Machine.openScope, RuleStack.push] at opens
      split at opens
      · cases opens
        rfl
      · cases opens
  | ok pair =>
      obtain ⟨number, opened⟩ := pair
      obtain ⟨-, rfl, rfl⟩ := Machine.openScope_eq_ok_iff.mp opens
      simp only
      cases ran : rule.run handle machine.opened with
      | faulted fault =>
          rw [ran] at inside
          exact inside
      | failed after =>
          rw [ran] at inside
          obtain ⟨proceeds, onClosed⟩ := inside
          obtain ⟨closed, cancels, undoes⟩ := proceeds.exists_undoes
          simp only [Action.balanced, proceeds.height, ↓reduceIte, cancels,
            Outcome.ofExcept]
          exact onClosed closed undoes
      | matched value after =>
          rw [ran] at inside
          obtain ⟨proceeds, onClosed⟩ := inside
          simp only [Action.balanced, proceeds.height, ↓reduceIte]
          cases fated : fate value with
          | keep nodes =>
              obtain ⟨closed, commits, keeps⟩ := proceeds.exists_keeps nodes
              simp only [fated] at onClosed
              simp only [commits, Outcome.ofExcept]
              exact onClosed closed keeps
          | undo =>
              obtain ⟨closed, cancels, undoes⟩ := proceeds.exists_undoes
              simp only [fated] at onClosed
              simp only [cancels, Outcome.ofExcept]
              exact onClosed closed undoes

/-- Where a scope can be opened, only its rule breaks it off, if that stays inside. -/
theorem faulted_of_scope
    {fate : β → Fate}
    {rule : Rule E β}
    {fault : Fault}
    (room : machine.stack.height < machine.stack.maxDepth)
    (proceeds :
      (rule.run handle machine.opened).Ends machine.opened.Proceeds)
    (faults : (Rule.scope fate rule).run handle machine = .faulted fault) :
    rule.run handle machine.opened = .faulted fault := by
  have opens :
      machine.openScope = .ok (machine.nextRule, machine.opened) :=
    Machine.openScope_eq_ok_iff.mpr ⟨room, rfl, rfl⟩
  simp only [run, Action.inScope, opens] at faults
  cases ran : rule.run handle machine.opened with
  | faulted other =>
      rw [ran] at faults
      exact faults
  | failed after =>
      rw [ran] at faults proceeds
      obtain ⟨closed, cancels, -⟩ := Machine.Proceeds.exists_undoes proceeds
      simp only [Action.balanced, Machine.Proceeds.height proceeds,
        ↓reduceIte, cancels, Outcome.ofExcept] at faults
      cases faults
  | matched value after =>
      rw [ran] at faults proceeds
      simp only [Action.balanced, Machine.Proceeds.height proceeds,
        ↓reduceIte] at faults
      cases fated : fate value with
      | keep nodes =>
          obtain ⟨closed, commits, -⟩ :=
            Machine.Proceeds.exists_keeps proceeds nodes
          simp only [fated, commits, Outcome.ofExcept] at faults
          cases faults
      | undo =>
          obtain ⟨closed, cancels, -⟩ :=
            Machine.Proceeds.exists_undoes proceeds
          simp only [fated, cancels, Outcome.ofExcept] at faults
          cases faults

/-- A loop guarantees what its last round does, if rounds keep an invariant. -/
theorem guarantees_loop
    {state : σ}
    {round : σ → Rule E (σ ⊕ β)}
    (invariant : σ → Machine H → Prop)
    (atStart : invariant state machine)
    (keeps :
      ∀ state machine,
        invariant state machine →
        ((round state).run handle machine).Guarantees
          (fun result after =>
            match result with
            | .inl next => invariant next after
            | .inr value => onMatch value after)
          onFailure) :
    ((Rule.loop state round).run handle machine).Guarantees
      onMatch onFailure := by
  have rounds
      (count : Nat)
      (state : σ)
      (machine : Machine H)
      (atStart : invariant state machine) :
      (Action.iterate (fun state => (round state).run handle)
          count state machine).Guarantees onMatch onFailure := by
    induction count generalizing state machine with
    | zero =>
        rfl
    | succ count inductionHypothesis =>
        have held := keeps state machine atStart
        simp only [Action.iterate]
        cases ran : (round state).run handle machine with
        | faulted fault =>
            rw [ran] at held
            exact held
        | failed after =>
            rw [ran] at held
            exact held
        | matched result after =>
            rw [ran] at held
            cases result with
            | inl next =>
                exact inductionHypothesis next after held
            | inr value =>
                exact held
  exact rounds machine.rounds state machine atStart

end Rule

end InkSyntax
