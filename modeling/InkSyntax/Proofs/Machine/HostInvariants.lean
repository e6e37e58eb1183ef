import InkSyntax.Proofs.Machine.Outcome
import InkSyntax.Proofs.Machine.Performing

namespace InkSyntax

/-!
# Properties that a host keeps

A property of the host that closing a scope and delivering a diagnostic keep holds
at the end of every run, if it holds at the start and the effects that the rule may
perform keep it.  Such a run never sees what effects do elsewhere, so two ways of
performing them that agree on hosts with the property give the same run.
-/

/-- A property of the host that the machine itself keeps. -/
structure Host.Maintains
    {H : Type}
    [Host H]
    (holds : H → Prop) : Prop where
  rewind :
    ∀ {host : H} (mark : Nat),
      holds host → holds (Host.rewind host mark)
  commit :
    ∀ {host : H} (nodes : List NodeId) (start stop : Cursor),
      holds host → holds (Host.commit host nodes start stop)
  deliver :
    ∀ {host : H} (severity : Severity) (line : Nat) (message : String),
      holds host → holds (Host.deliver host severity line message)

namespace Rule

variable
    {E : Type → Type 1}
    {H : Type}
    [Host H]
    {α : Type}
    {handle other : {γ : Type} → E γ → Action H γ}
    {allowed : (γ : Type) → E γ → Prop}
    {holds : H → Prop}

/-- What the machine and the effects of a rule keep, its run keeps. -/
theorem ends_of_performs
    (maintains : Host.Maintains holds)
    (effects :
      ∀ {γ : Type} (operation : E γ) (machine : Machine H),
        allowed γ operation →
        holds machine.host →
        (handle operation machine).Ends (holds ·.host))
    (rule : Rule E α)
    (performs : rule.Performs allowed)
    (machine : Machine H)
    (atStart : holds machine.host) :
    (rule.run handle machine).Ends (holds ·.host) := by
  induction rule generalizing machine with
  | pure value =>
      exact atStart
  | fail =>
      exact atStart
  | bind first next firstHypothesis nextHypothesis =>
      refine ensures_bind.mpr ?_
      exact
        (firstHypothesis performs.1 machine atStart).mono
          (fun value middle held =>
            nextHypothesis value (performs.2 value) middle held)
          fun _ held => held
  | attempt rule inductionHypothesis =>
      exact ensures_attempt.mpr (inductionHypothesis performs machine atStart)
  | scope fate rule inductionHypothesis =>
      refine ensures_scope fun _ => ?_
      have cancels
          {number : RuleId}
          {after closed : Machine H}
          (held : holds after.host)
          (cancelled : after.cancelScope number = .ok closed) :
          holds closed.host := by
        obtain ⟨parent, deeper, -, -, rfl⟩ :=
          Machine.cancelScope_eq_ok_iff.mp cancelled
        exact maintains.rewind _ held
      refine (inductionHypothesis performs machine.opened atStart).mono ?_ ?_
      · intro value after held closed closes
        cases fated : fate value with
        | keep nodes =>
            rw [fated] at closes
            obtain ⟨parent, deeper, -, -, rfl⟩ :=
              Machine.commitScope_eq_ok_iff.mp closes
            exact maintains.commit _ _ _ held
        | undo =>
            rw [fated] at closes
            exact cancels held closes
      · intro after held closed cancelled
        exact cancels held cancelled
  | loop state round inductionHypothesis =>
      refine ensures_loop (fun _ machine => holds machine.host) atStart ?_
      intro state machine held
      refine (inductionHypothesis state (performs state) machine held).mono ?_ ?_
      · rintro (next | value) after still
        · exact still
        · exact still
      · exact fun _ still => still
  | scan scanner =>
      refine ensures_scan.mpr ?_
      split
      · exact atStart
      · exact atStart
  | here =>
      exact atStart
  | setFlag mask on =>
      exact atStart
  | report severity line message =>
      change holds (machine.report severity line message).host
      rw [Machine.host_report]
      split
      · exact atStart
      · exact maintains.deliver _ _ _ atStart
  | effect operation =>
      exact effects operation machine performs atStart

/-- What the machine and all effects keep, every run keeps. -/
theorem ends_of_maintains
    (maintains : Host.Maintains holds)
    (effects :
      ∀ {γ : Type} (operation : E γ) (machine : Machine H),
        holds machine.host →
        (handle operation machine).Ends (holds ·.host))
    (rule : Rule E α)
    (machine : Machine H)
    (atStart : holds machine.host) :
    (rule.run handle machine).Ends (holds ·.host) :=
  ends_of_performs maintains
    (fun operation machine (_ : True) => effects operation machine) rule
    (performs_of_forall (fun _ => trivial) rule) machine atStart

/-- Effects that agree on hosts with a kept property run a rule alike. -/
theorem run_eq_of_maintains
    (maintains : Host.Maintains holds)
    (effects :
      ∀ {γ : Type} (operation : E γ) (machine : Machine H),
        holds machine.host →
        (handle operation machine).Ends (holds ·.host))
    (agree :
      ∀ {γ : Type} (operation : E γ) (machine : Machine H),
        holds machine.host →
        other operation machine = handle operation machine)
    (rule : Rule E α)
    (machine : Machine H)
    (atStart : holds machine.host) :
    rule.run other machine = rule.run handle machine := by
  induction rule generalizing machine with
  | pure value =>
      rfl
  | fail =>
      rfl
  | bind first next firstHypothesis nextHypothesis =>
      have held := ends_of_maintains maintains effects first machine atStart
      simp only [run, firstHypothesis machine atStart]
      cases ran : first.run handle machine with
      | faulted fault =>
          rfl
      | failed after =>
          rfl
      | matched value after =>
          rw [ran] at held
          exact nextHypothesis value after held
  | attempt rule inductionHypothesis =>
      simp only [run, inductionHypothesis machine atStart]
  | scope fate rule inductionHypothesis =>
      simp only [run, Action.inScope]
      cases opens : machine.openScope with
      | error fault =>
          rfl
      | ok pair =>
          obtain ⟨number, opened⟩ := pair
          obtain ⟨-, -, rfl⟩ := Machine.openScope_eq_ok_iff.mp opens
          simp only [inductionHypothesis machine.opened atStart]
  | @loop σ α state round inductionHypothesis =>
      have rounds
          (count : Nat)
          (state : σ)
          (machine : Machine H)
          (atStart : holds machine.host) :
          Action.iterate (fun state => (round state).run other) count state
              machine =
            Action.iterate (fun state => (round state).run handle) count state
              machine := by
        induction count generalizing state machine with
        | zero =>
            rfl
        | succ count countHypothesis =>
            have held :=
              ends_of_maintains maintains effects (round state) machine atStart
            simp only [Action.iterate,
              inductionHypothesis state machine atStart]
            cases ran : (round state).run handle machine with
            | faulted fault =>
                rfl
            | failed after =>
                rfl
            | matched result after =>
                rw [ran] at held
                cases result with
                | inl next =>
                    exact countHypothesis next after held
                | inr value =>
                    rfl
      exact rounds machine.rounds state machine atStart
  | scan scanner =>
      rfl
  | here =>
      rfl
  | setFlag mask on =>
      rfl
  | report severity line message =>
      rfl
  | effect operation =>
      exact agree operation machine atStart

end Rule

end InkSyntax
