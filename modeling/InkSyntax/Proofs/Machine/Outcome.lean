import InkSyntax.Proofs.Machine.Steps

namespace InkSyntax

/-!
# What a run ensures

A run ensures something of the machine after a match and something of the machine
after a failure; a run that faults ensures anything.  There is one lemma for each
way of building rules, so what a rule ensures follows from what its parts ensure.
-/

namespace Outcome

variable {H α β : Type}

/-- What holds of the machine after a match, or else after a failure. -/
def Ensures
    (outcome : Outcome H α)
    (onMatch : α → Machine H → Prop)
    (onFailure : Machine H → Prop) : Prop :=
  match outcome with
  | .matched value after => onMatch value after
  | .failed after => onFailure after
  | .faulted _ => True

theorem Ensures.mono
    {outcome : Outcome H α}
    {onMatch onMatch' : α → Machine H → Prop}
    {onFailure onFailure' : Machine H → Prop}
    (ensures : outcome.Ensures onMatch onFailure)
    (match_ : ∀ value after, onMatch value after → onMatch' value after)
    (failure : ∀ after, onFailure after → onFailure' after) :
    outcome.Ensures onMatch' onFailure' := by
  cases outcome with
  | matched value after =>
      exact match_ value after ensures
  | failed after =>
      exact failure after ensures
  | faulted fault =>
      trivial

/-- What is ensured in one way and in another is ensured in both. -/
theorem Ensures.and
    {outcome : Outcome H α}
    {onMatch onMatch' : α → Machine H → Prop}
    {onFailure onFailure' : Machine H → Prop}
    (ensures : outcome.Ensures onMatch onFailure)
    (also : outcome.Ensures onMatch' onFailure') :
    outcome.Ensures (fun value after => onMatch value after ∧ onMatch' value after)
      fun after => onFailure after ∧ onFailure' after := by
  cases outcome with
  | matched value after =>
      exact ⟨ensures, also⟩
  | failed after =>
      exact ⟨ensures, also⟩
  | faulted fault =>
      trivial

theorem andThen_eq_matched_iff
    {outcome : Outcome H α}
    {next : α → Action H β}
    {result : β}
    {after : Machine H} :
    outcome.andThen next = .matched result after ↔
      ∃ value middle,
        outcome = .matched value middle ∧ next value middle = .matched result after := by
  cases outcome <;> simp [andThen, and_assoc]

theorem andThen_eq_failed_iff
    {outcome : Outcome H α}
    {next : α → Action H β}
    {after : Machine H} :
    outcome.andThen next = .failed after ↔
      outcome = .failed after ∨
        ∃ value middle,
          outcome = .matched value middle ∧ next value middle = .failed after := by
  cases outcome <;> simp [andThen, and_assoc]

theorem ensures_andThen
    {outcome : Outcome H α}
    {next : α → Action H β}
    {onMatch : β → Machine H → Prop}
    {onFailure : Machine H → Prop} :
    (outcome.andThen next).Ensures onMatch onFailure ↔
      outcome.Ensures
        (fun value after => (next value after).Ensures onMatch onFailure)
        onFailure := by
  cases outcome <;> rfl

/-- The machine in the end, after a match or a failure. -/
def after? : Outcome H α → Option (Machine H)
  | .matched _ after => some after
  | .failed after => some after
  | .faulted _ => none

/-- What holds of the machine in the end, after a match and after a failure. -/
abbrev Ends
    (outcome : Outcome H α)
    (holds : Machine H → Prop) : Prop :=
  outcome.Ensures (fun _ => holds) holds

theorem ends_iff
    {outcome : Outcome H α}
    {holds : Machine H → Prop} :
    outcome.Ends holds ↔
      ∀ after, outcome.after? = some after → holds after := by
  cases outcome <;> simp [Ensures, after?]

theorem ensures_iff
    {outcome : Outcome H α}
    {onMatch : α → Machine H → Prop}
    {onFailure : Machine H → Prop} :
    outcome.Ensures onMatch onFailure ↔
      (∀ value after,
          outcome = .matched value after → onMatch value after) ∧
        ∀ after, outcome = .failed after → onFailure after := by
  cases outcome <;> simp [Ensures]

theorem ensures_ofExcept_matched
    {result : Except Fault (Machine H)}
    {value : α}
    {onMatch : α → Machine H → Prop}
    {onFailure : Machine H → Prop} :
    (ofExcept result (.matched value)).Ensures onMatch onFailure ↔
      ∀ after, result = .ok after → onMatch value after := by
  cases result with
  | error fault =>
      simp [ofExcept, Ensures]
  | ok after =>
      simp [ofExcept, Ensures]

theorem ensures_ofExcept_failed
    {result : Except Fault (Machine H)}
    {onMatch : α → Machine H → Prop}
    {onFailure : Machine H → Prop} :
    (ofExcept result .failed : Outcome H α).Ensures onMatch onFailure ↔
      ∀ after, result = .ok after → onFailure after := by
  cases result with
  | error fault =>
      simp [ofExcept, Ensures]
  | ok after =>
      simp [ofExcept, Ensures]

end Outcome

namespace Rule

variable
    {E : Type → Type 1}
    {H : Type}
    [Host H]
    {α β σ : Type}
    {handle : {γ : Type} → E γ → Action H γ}
    {machine : Machine H}

attribute [local simp] run

theorem run_bind
    (first : Rule E α)
    (next : α → Rule E β) :
    (first >>= next).run handle machine =
      (first.run handle machine).andThen fun value => (next value).run handle :=
  rfl

/-- What a scanner finds is read over. -/
theorem run_scan_of_some
    {scanner : Scanner α}
    {value : α}
    {length : Nat}
    (found : scanner machine.cursor.rest = some (value, length)) :
    (scan scanner : Rule E α).run handle machine =
      .matched value (machine.moveTo (machine.cursor.advance length)) := by
  simp [Cursor.scan, found]

/-- Where a scanner finds nothing, nothing changes. -/
theorem run_scan_of_none
    {scanner : Scanner α}
    (nothing : scanner machine.cursor.rest = none) :
    (scan scanner : Rule E α).run handle machine = .failed machine := by
  simp [Cursor.scan, nothing]

theorem ensures_bind
    {first : Rule E α}
    {next : α → Rule E β}
    {onMatch : β → Machine H → Prop}
    {onFailure : Machine H → Prop} :
    ((Rule.bind first next).run handle machine).Ensures onMatch onFailure ↔
      (first.run handle machine).Ensures
        (fun value after =>
          ((next value).run handle after).Ensures onMatch onFailure)
        onFailure := by
  simp [Outcome.ensures_andThen]

theorem ensures_attempt
    {rule : Rule E α}
    {onMatch : Option α → Machine H → Prop}
    {onFailure : Machine H → Prop} :
    ((Rule.attempt rule).run handle machine).Ensures onMatch onFailure ↔
      (rule.run handle machine).Ensures
        (fun value => onMatch (some value)) (onMatch none) := by
  simp only [run]
  cases rule.run handle machine <;> rfl

/-- What the end of a scope makes of its rule's match. -/
def Closes
    (fate : Fate)
    (number : RuleId)
    (after closed : Machine H) : Prop :=
  match fate with
  | .keep nodes => after.commitScope number nodes = .ok closed
  | .undo => after.cancelScope number = .ok closed

theorem ensures_scope
    {fate : α → Fate}
    {rule : Rule E α}
    {onMatch : α → Machine H → Prop}
    {onFailure : Machine H → Prop}
    (inside :
      machine.stack.height < machine.stack.maxDepth →
      (rule.run handle machine.opened).Ensures
        (fun value after =>
          ∀ closed,
            Closes (fate value) machine.nextRule after closed →
            onMatch value closed)
        (fun after =>
          ∀ closed,
            after.cancelScope machine.nextRule = .ok closed →
            onFailure closed)) :
    ((Rule.scope fate rule).run handle machine).Ensures
      onMatch onFailure := by
  simp only [run, Action.inScope]
  cases opens : machine.openScope with
  | error fault =>
      trivial
  | ok pair =>
      obtain ⟨number, opened⟩ := pair
      obtain ⟨room, rfl, rfl⟩ := Machine.openScope_eq_ok_iff.mp opens
      have held := inside room
      simp only
      cases ran : rule.run handle machine.opened with
      | faulted fault =>
          trivial
      | failed after =>
          simp only [ran, Outcome.Ensures] at held
          simp only [Action.balanced]
          split
          · exact Outcome.ensures_ofExcept_failed.mpr held
          · trivial
      | matched value after =>
          simp only [ran, Outcome.Ensures] at held
          simp only [Action.balanced]
          split
          · cases fated : fate value with
            | keep nodes =>
                simp only [fated, Closes] at held
                exact Outcome.ensures_ofExcept_matched.mpr held
            | undo =>
                simp only [fated, Closes] at held
                exact Outcome.ensures_ofExcept_matched.mpr held
          · trivial

/-- A loop ensures what its last round ensures, if rounds keep an invariant. -/
theorem ensures_loop
    {state : σ}
    {round : σ → Rule E (σ ⊕ α)}
    {onMatch : α → Machine H → Prop}
    {onFailure : Machine H → Prop}
    (invariant : σ → Machine H → Prop)
    (atStart : invariant state machine)
    (keeps :
      ∀ state machine,
        invariant state machine →
        ((round state).run handle machine).Ensures
          (fun result after =>
            match result with
            | .inl next => invariant next after
            | .inr value => onMatch value after)
          onFailure) :
    ((Rule.loop state round).run handle machine).Ensures
      onMatch onFailure := by
  have rounds
      (count : Nat)
      (state : σ)
      (machine : Machine H)
      (atStart : invariant state machine) :
      (Action.iterate (fun state => (round state).run handle)
          count state machine).Ensures onMatch onFailure := by
    induction count generalizing state machine with
    | zero =>
        trivial
    | succ count inductionHypothesis =>
        have held := keeps state machine atStart
        simp only [Action.iterate]
        cases ran : (round state).run handle machine with
        | faulted fault =>
            trivial
        | failed after =>
            simpa only [ran, Outcome.Ensures] using held
        | matched result after =>
            simp only [ran, Outcome.Ensures] at held
            cases result with
            | inl next =>
                exact inductionHypothesis next after held
            | inr value =>
                exact held
  exact rounds machine.rounds state machine atStart

theorem ensures_scan
    {scanner : Scanner α}
    {onMatch : α → Machine H → Prop}
    {onFailure : Machine H → Prop} :
    ((Rule.scan scanner : Rule E α).run handle machine).Ensures
        onMatch onFailure ↔
      match scanner machine.cursor.rest with
      | some (value, length) =>
          onMatch value (machine.moveTo (machine.cursor.advance length))
      | none => onFailure machine := by
  simp only [run, Cursor.scan]
  cases scanner machine.cursor.rest <;> rfl

end Rule

end InkSyntax
