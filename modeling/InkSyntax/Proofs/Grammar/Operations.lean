import InkSyntax.Grammar.Workshop
import InkSyntax.Proofs.Machine.Outcome

namespace InkSyntax

/-!
# What operations do

Apart from reading constructs and including files, an operation works on the
workshop alone: scopes, cursor and session are the same after it.  It faults if a
node is missing that it has to look at.
-/

namespace Workshop

variable
    {read : {α : Type} → Construct α → Action Workshop α}
    {include_ : String → Action Workshop Inclusion}
    {machine : Machine Workshop}
    {α : Type}

/-- An operation worked on the workshop, or looked for a node that is missing. -/
def Works
    (machine : Machine Workshop)
    (outcome : Outcome Workshop α) : Prop :=
  (∃ index, outcome = .faulted (.missingNode index)) ∨
    ∃ value host,
      outcome = .matched value { machine with host := host } ∧
        host.session = machine.host.session

theorem ensures_unlessMissing
    {missing? : Draft → Option NodeId}
    {action : Action Workshop α}
    {onMatch : α → Machine Workshop → Prop}
    {onFailure : Machine Workshop → Prop}
    (ensures : (action machine).Ensures onMatch onFailure) :
    (unlessMissing missing? action machine).Ensures onMatch onFailure := by
  unfold unlessMissing
  split
  · trivial
  · exact ensures

theorem works_unlessMissing
    {missing? : Draft → Option NodeId}
    {action : Action Workshop α}
    (works : Works machine (action machine)) :
    Works machine (unlessMissing missing? action machine) := by
  unfold unlessMissing
  split
  · exact .inl ⟨_, rfl⟩
  · exact works

theorem works_redraft
    (change : Draft → α × Draft) :
    Works machine (redraft change machine) :=
  .inr ⟨_, _, rfl, rfl⟩

theorem works_update
    {change : Workshop → Workshop}
    (keeps : (change machine.host).session = machine.host.session) :
    Works machine (update change machine) :=
  .inr ⟨_, _, rfl, keeps⟩

theorem works_query
    (ask : Workshop → α) :
    Works machine (query ask machine) :=
  .inr ⟨_, machine.host, rfl, rfl⟩

/-- An operation is work, the inclusion of a file or the reading of a construct. -/
theorem handle_cases_of
    {motive : {β : Type} → Craft β → Outcome Workshop β → Prop}
    (work :
      ∀ {β : Type} (operation : Craft β) {outcome : Outcome Workshop β},
        Works machine outcome → motive operation outcome)
    (inclusion :
      ∀ file, motive (.include file) (include_ file machine))
    (construct :
      ∀ {β : Type} (construct : Construct β),
        motive (.read construct) (read construct machine))
    (operation : Craft α) :
    motive operation (handle read include_ operation machine) := by
  cases operation with
  | kindOf id =>
      simp only [handle]
      split
      · exact work _ (.inr ⟨_, machine.host, rfl, rfl⟩)
      · exact work _ (.inl ⟨_, rfl⟩)
  | make _ | makeSpanning _ =>
      simp only [handle]
      exact work _ (works_redraft _)
  | amend _ _ | weave _ =>
      simp only [handle]
      exact work _ (works_unlessMissing (works_redraft _))
  | survey _ =>
      simp only [handle]
      exact work _ (works_unlessMissing (works_query _))
  | spanOf _ | isInChoice =>
      simp only [handle]
      exact work _ (works_query _)
  | setInChoice inChoice =>
      simp only [handle]
      exact work _ (works_update rfl)
  | «include» file =>
      exact inclusion file
  | read nested =>
      exact construct nested

/-- What holds after work, inclusions and readings holds after every operation. -/
theorem handle_cases
    {motive : {β : Type} → Outcome Workshop β → Prop}
    (work :
      ∀ {β : Type} {outcome : Outcome Workshop β},
        Works machine outcome → motive outcome)
    (inclusion : ∀ file, motive (include_ file machine))
    (construct :
      ∀ {β : Type} (construct : Construct β), motive (read construct machine))
    (operation : Craft α) :
    motive (handle read include_ operation machine) :=
  handle_cases_of (motive := fun _ => motive) (fun _ => work) inclusion
    construct operation

/-- What holds after work on the workshop holds after an operation. -/
theorem Works.ensures
    {outcome : Outcome Workshop α}
    {onMatch : α → Machine Workshop → Prop}
    {onFailure : Machine Workshop → Prop}
    (works : Works machine outcome)
    (held :
      ∀ value host,
        host.session = machine.host.session →
        onMatch value { machine with host := host }) :
    outcome.Ensures onMatch onFailure := by
  obtain ⟨index, rfl⟩ | ⟨value, host, rfl, same⟩ := works
  · trivial
  · exact held value host same

end Workshop

end InkSyntax
