import InkSyntax.Proofs.Machine.Outcome

namespace InkSyntax

/-!
# Runs that resemble each other

Two machines resemble each other if they stand at the same place in the same open
scopes, the second with no less room, and their hosts are related.  A run of a rule
on the first machine is then followed on the second one: the rule comes to the same
there, and the machines still resemble each other, as long as the effects of the
rule keep it so.  A run that faults is followed by any other.
-/

/-- A relation between two hosts that the machine itself keeps. -/
structure Host.Matches
    {H : Type}
    [Host H]
    (hosts : H → H → Prop) : Prop where
  mark :
    ∀ {host other : H},
      hosts host other → Host.mark other = Host.mark host
  rewind :
    ∀ {host other : H} (mark : Nat),
      hosts host other →
      hosts (Host.rewind host mark) (Host.rewind other mark)
  commit :
    ∀ {host other : H} (nodes : List NodeId) (start stop : Cursor),
      hosts host other →
      hosts (Host.commit host nodes start stop)
        (Host.commit other nodes start stop)
  deliver :
    ∀ {host other : H} (severity : Severity) (line : Nat) (message : String),
      hosts host other →
      hosts (Host.deliver host severity line message)
        (Host.deliver other severity line message)

/-- The second machine stands where the first does, with no less room. -/
structure Machine.Resembles
    {H : Type}
    (hosts : H → H → Prop)
    (machine other : Machine H) : Prop where
  top : other.stack.top = machine.stack.top
  below : other.stack.below = machine.stack.below
  lastRule : other.stack.lastRule = machine.stack.lastRule
  room : machine.stack.maxDepth ≤ other.stack.maxDepth
  hadError : other.hadError = machine.hadError
  rounds : other.rounds = machine.rounds
  host : hosts machine.host other.host

namespace Machine.Resembles

variable
    {H : Type}
    {hosts : H → H → Prop}
    {machine other : Machine H}

theorem cursor
    (resembles : Resembles hosts machine other) :
    other.cursor = machine.cursor := by
  rw [Machine.cursor, Machine.cursor, resembles.top]

theorem height
    (resembles : Resembles hosts machine other) :
    other.stack.height = machine.stack.height := by
  rw [RuleStack.height, RuleStack.height, resembles.below]

theorem modifyTop
    (resembles : Resembles hosts machine other)
    (change : Checkpoint → Checkpoint) :
    Resembles hosts (machine.modifyTop change) (other.modifyTop change) :=
  { resembles with
    top := congrArg change resembles.top }

theorem withHosts
    (resembles : Resembles hosts machine other)
    {host otherHost : H}
    (related : hosts host otherHost) :
    Resembles hosts { machine with host := host }
      { other with host := otherHost } :=
  { resembles with
    host := related }

variable
    [Host H]
    (matches_ : Host.Matches hosts)

include matches_

theorem opened
    (resembles : Resembles hosts machine other) :
    Resembles hosts machine.opened other.opened where
  top := by
    simp only [Machine.opened, nextRule, Machine.top, resembles.top,
      resembles.lastRule, matches_.mark resembles.host]
  below := by
    simp only [Machine.opened, Machine.top, resembles.top, resembles.below]
  lastRule := by
    simp only [Machine.opened, nextRule, resembles.lastRule]
  room := resembles.room
  hadError := resembles.hadError
  rounds := resembles.rounds
  host := resembles.host

/-- What ends a scope of the first machine ends that of the second. -/
theorem exists_closes
    {fate : Fate}
    {number : RuleId}
    {closed : Machine H}
    (resembles : Resembles hosts machine other)
    (closes : Rule.Closes fate number machine closed) :
    ∃ otherClosed,
      Rule.Closes fate number other otherClosed ∧
        Resembles hosts closed otherClosed := by
  cases fate with
  | keep nodes =>
      obtain ⟨parent, deeper, below, own, rfl⟩ :=
        commitScope_eq_ok_iff.mp closes
      refine
        ⟨_,
          commitScope_eq_ok_iff.mpr
            ⟨parent, deeper, resembles.below.trans below,
              (congrArg Checkpoint.rule resembles.top).trans own, rfl⟩,
          ?_⟩
      exact
        { resembles with
          top := congrArg (RuleStack.inherit parent) resembles.top
          below := rfl
          host := by
            rw [resembles.cursor]
            exact matches_.commit _ _ _ resembles.host }
  | undo =>
      obtain ⟨parent, deeper, below, own, rfl⟩ :=
        cancelScope_eq_ok_iff.mp closes
      refine
        ⟨_,
          cancelScope_eq_ok_iff.mpr
            ⟨parent, deeper, resembles.below.trans below,
              (congrArg Checkpoint.rule resembles.top).trans own, rfl⟩,
          ?_⟩
      exact
        { resembles with
          top := rfl
          below := rfl
          host := by
            simp only [Machine.top, resembles.top]
            exact matches_.rewind _ resembles.host }

theorem report
    (resembles : Resembles hosts machine other)
    (severity : Severity)
    (line : Nat)
    (message : String) :
    Resembles hosts (machine.report severity line message)
      (other.report severity line message) where
  top := by
    simp only [stack_report, resembles.top]
    split <;> simp [RuleStack.noteReported, resembles.top]
  below := by
    simp only [stack_report, resembles.top]
    split <;> simp [RuleStack.noteReported, resembles.below]
  lastRule := by
    simp only [stack_report, resembles.top]
    split <;> simp [RuleStack.noteReported, resembles.lastRule]
  room := by
    simp only [stack_report, resembles.top]
    split <;> exact resembles.room
  hadError := by
    rw [hadError_report, hadError_report, resembles.hadError]
  rounds := by
    rw [rounds_report, rounds_report, resembles.rounds]
  host := by
    simp only [host_report, resembles.top]
    split
    · exact resembles.host
    · exact matches_.deliver _ _ _ resembles.host

end Machine.Resembles

/-- What the first outcome tells, the second tells too, of a related machine. -/
def Outcome.FollowedBy
    {H α : Type}
    (relates : Machine H → Machine H → Prop)
    (first second : Outcome H α) : Prop :=
  match first with
  | .matched value after =>
      ∃ other, second = .matched value other ∧ relates after other
  | .failed after =>
      ∃ other, second = .failed other ∧ relates after other
  | .faulted _ => True

theorem Outcome.followedBy_ofExcept
    {H α : Type}
    {relates : Machine H → Machine H → Prop}
    {result otherResult : Except Fault (Machine H)}
    {finish : Machine H → Outcome H α}
    (closes :
      ∀ closed, result = .ok closed →
        ∃ otherClosed,
          otherResult = .ok otherClosed ∧
            FollowedBy relates (finish closed) (finish otherClosed)) :
    FollowedBy relates (ofExcept result finish)
      (ofExcept otherResult finish) := by
  cases result with
  | error fault =>
      trivial
  | ok closed =>
      obtain ⟨otherClosed, rfl, followed⟩ := closes closed rfl
      exact followed

namespace Rule

open Outcome (FollowedBy)
open Machine (Resembles)

variable
    {E : Type → Type 1}
    {H : Type}
    [Host H]
    {α β σ : Type}
    {handle handle' : {γ : Type} → E γ → Action H γ}
    {hosts : H → H → Prop}
    {machine other : Machine H}

theorem followedBy_bind
    {first : Rule E α}
    {next : α → Rule E β}
    (firstFollowed :
      FollowedBy (Resembles hosts) (first.run handle machine)
        (first.run handle' other))
    (nextFollowed :
      ∀ value after otherAfter,
        first.run handle machine = .matched value after →
        Resembles hosts after otherAfter →
        FollowedBy (Resembles hosts) ((next value).run handle after)
          ((next value).run handle' otherAfter)) :
    FollowedBy (Resembles hosts) ((bind first next).run handle machine)
      ((bind first next).run handle' other) := by
  simp only [run]
  cases ran : first.run handle machine with
  | faulted fault =>
      trivial
  | failed after =>
      rw [ran] at firstFollowed
      obtain ⟨otherAfter, otherRan, related⟩ := firstFollowed
      rw [otherRan]
      exact ⟨otherAfter, rfl, related⟩
  | matched value after =>
      rw [ran] at firstFollowed
      obtain ⟨otherAfter, otherRan, related⟩ := firstFollowed
      rw [otherRan]
      exact nextFollowed value after otherAfter ran related

theorem followedBy_attempt
    {rule : Rule E α}
    (followed :
      FollowedBy (Resembles hosts) (rule.run handle machine)
        (rule.run handle' other)) :
    FollowedBy (Resembles hosts) ((attempt rule).run handle machine)
      ((attempt rule).run handle' other) := by
  simp only [run]
  cases ran : rule.run handle machine with
  | faulted fault =>
      trivial
  | failed after =>
      rw [ran] at followed
      obtain ⟨otherAfter, otherRan, related⟩ := followed
      rw [otherRan]
      exact ⟨otherAfter, rfl, related⟩
  | matched value after =>
      rw [ran] at followed
      obtain ⟨otherAfter, otherRan, related⟩ := followed
      rw [otherRan]
      exact ⟨otherAfter, rfl, related⟩

theorem followedBy_scope
    (matches_ : Host.Matches hosts)
    {fate : α → Fate}
    {rule : Rule E α}
    (resembles : Resembles hosts machine other)
    (inside :
      machine.stack.height < machine.stack.maxDepth →
      FollowedBy (Resembles hosts) (rule.run handle machine.opened)
        (rule.run handle' other.opened)) :
    FollowedBy (Resembles hosts) ((scope fate rule).run handle machine)
      ((scope fate rule).run handle' other) := by
  simp only [run, Action.inScope]
  cases opens : machine.openScope with
  | error fault =>
      trivial
  | ok pair =>
      obtain ⟨number, opened⟩ := pair
      obtain ⟨room, rfl, rfl⟩ := Machine.openScope_eq_ok_iff.mp opens
      have otherOpens :
          other.openScope = .ok (machine.nextRule, other.opened) := by
        refine Machine.openScope_eq_ok_iff.mpr ⟨?_, ?_, rfl⟩
        · rw [resembles.height]
          exact Nat.lt_of_lt_of_le room resembles.room
        · rw [Machine.nextRule, Machine.nextRule, resembles.lastRule]
      have followed := inside room
      have sameHeight := (resembles.opened matches_).height
      rw [otherOpens]
      simp only
      cases ran : rule.run handle machine.opened with
      | faulted fault =>
          trivial
      | failed after =>
          rw [ran] at followed
          obtain ⟨otherAfter, otherRan, related⟩ := followed
          simp only [otherRan, Action.balanced, sameHeight, related.height]
          split
          · refine Outcome.followedBy_ofExcept fun closed cancels => ?_
            obtain ⟨otherClosed, otherCancels, still⟩ :=
              related.exists_closes matches_
                (show Closes .undo machine.nextRule after closed from cancels)
            exact ⟨otherClosed, otherCancels, otherClosed, rfl, still⟩
          · trivial
      | matched value after =>
          rw [ran] at followed
          obtain ⟨otherAfter, otherRan, related⟩ := followed
          simp only [otherRan, Action.balanced, sameHeight, related.height]
          split
          · cases fate value with
            | keep nodes =>
                refine Outcome.followedBy_ofExcept fun closed commits => ?_
                obtain ⟨otherClosed, otherCommits, still⟩ :=
                  related.exists_closes matches_
                    (show Closes (.keep nodes) machine.nextRule after closed
                      from commits)
                exact ⟨otherClosed, otherCommits, otherClosed, rfl, still⟩
            | undo =>
                refine Outcome.followedBy_ofExcept fun closed cancels => ?_
                obtain ⟨otherClosed, otherCancels, still⟩ :=
                  related.exists_closes matches_
                    (show Closes .undo machine.nextRule after closed
                      from cancels)
                exact ⟨otherClosed, otherCancels, otherClosed, rfl, still⟩
          · trivial

/-- A loop is followed if its rounds are, in every state that they come by. -/
theorem followedBy_loop
    {state : σ}
    {round : σ → Rule E (σ ⊕ α)}
    (resembles : Resembles hosts machine other)
    (invariant : σ → Machine H → Prop)
    (atStart : invariant state machine)
    (keeps :
      ∀ state machine next after,
        invariant state machine →
        (round state).run handle machine = .matched (.inl next) after →
        invariant next after)
    (roundFollowed :
      ∀ state machine other,
        invariant state machine →
        Resembles hosts machine other →
        FollowedBy (Resembles hosts) ((round state).run handle machine)
          ((round state).run handle' other)) :
    FollowedBy (Resembles hosts) ((loop state round).run handle machine)
      ((loop state round).run handle' other) := by
  have rounds
      (count : Nat)
      (state : σ)
      (machine other : Machine H)
      (atStart : invariant state machine)
      (resembles : Resembles hosts machine other) :
      FollowedBy (Resembles hosts)
        (Action.iterate (fun state => (round state).run handle) count state
          machine)
        (Action.iterate (fun state => (round state).run handle') count state
          other) := by
    induction count generalizing state machine other with
    | zero =>
        trivial
    | succ count inductionHypothesis =>
        have followed := roundFollowed state machine other atStart resembles
        simp only [Action.iterate]
        cases ran : (round state).run handle machine with
        | faulted fault =>
            trivial
        | failed after =>
            rw [ran] at followed
            obtain ⟨otherAfter, otherRan, related⟩ := followed
            rw [otherRan]
            exact ⟨otherAfter, rfl, related⟩
        | matched result after =>
            rw [ran] at followed
            obtain ⟨otherAfter, otherRan, related⟩ := followed
            rw [otherRan]
            cases result with
            | inl next =>
                exact
                  inductionHypothesis next after otherAfter
                    (keeps state machine next after atStart ran) related
            | inr value =>
                exact ⟨otherAfter, rfl, related⟩
  simp only [run, resembles.rounds]
  exact rounds machine.rounds state machine other atStart resembles

theorem followedBy_scan
    {scanner : Scanner α}
    (resembles : Resembles hosts machine other) :
    FollowedBy (Resembles hosts) ((scan scanner : Rule E α).run handle machine)
      ((scan scanner : Rule E α).run handle' other) := by
  simp only [run, resembles.cursor]
  split
  · exact ⟨_, rfl, resembles.modifyTop _⟩
  · exact ⟨other, rfl, resembles⟩

theorem followedBy_here
    (resembles : Resembles hosts machine other) :
    FollowedBy (Resembles hosts) ((here : Rule E Checkpoint).run handle machine)
      ((here : Rule E Checkpoint).run handle' other) := by
  refine ⟨other, ?_, resembles⟩
  simp only [run, Machine.top, resembles.top]

/-- Where effects agree unless they fault, so do the runs of a rule. -/
theorem run_eq_or_faulted
    (agree :
      ∀ {γ : Type} (operation : E γ) (machine : Machine H),
        handle' operation machine = handle operation machine ∨
          ∃ fault, handle operation machine = .faulted fault)
    (rule : Rule E α)
    (machine : Machine H) :
    rule.run handle' machine = rule.run handle machine ∨
      ∃ fault, rule.run handle machine = .faulted fault := by
  induction rule generalizing machine with
  | bind first next firstHypothesis nextHypothesis =>
      simp only [run]
      rcases firstHypothesis machine with same | ⟨fault, faults⟩
      · rw [same]
        cases first.run handle machine with
        | matched value after =>
            exact nextHypothesis value after
        | failed after =>
            exact .inl rfl
        | faulted fault =>
            exact .inl rfl
      · rw [faults]
        exact .inr ⟨fault, rfl⟩
  | attempt rule inductionHypothesis =>
      simp only [run]
      rcases inductionHypothesis machine with same | ⟨fault, faults⟩
      · rw [same]
        exact .inl rfl
      · rw [faults]
        exact .inr ⟨fault, rfl⟩
  | scope fate rule inductionHypothesis =>
      simp only [run, Action.inScope]
      cases machine.openScope with
      | error fault =>
          exact .inl rfl
      | ok pair =>
          obtain ⟨number, opened⟩ := pair
          simp only
          rcases inductionHypothesis opened with same | ⟨fault, faults⟩
          · rw [same]
            exact .inl rfl
          · rw [faults]
            exact .inr ⟨fault, rfl⟩
  | loop state round inductionHypothesis =>
      simp only [run]
      generalize machine.rounds = count
      induction count generalizing state machine with
      | zero =>
          exact .inl rfl
      | succ count countHypothesis =>
          simp only [Action.iterate]
          rcases inductionHypothesis state machine with same | ⟨fault, faults⟩
          · rw [same]
            cases (round state).run handle machine with
            | matched result after =>
                cases result with
                | inl next =>
                    exact countHypothesis next after
                | inr value =>
                    exact .inl rfl
            | failed after =>
                exact .inl rfl
            | faulted fault =>
                exact .inl rfl
          · rw [faults]
            exact .inr ⟨fault, rfl⟩
  | effect operation =>
      exact agree operation machine
  | _ =>
      exact .inl rfl

end Rule

end InkSyntax
