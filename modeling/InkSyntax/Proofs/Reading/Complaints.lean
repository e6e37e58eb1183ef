import InkSyntax.Proofs.Grammar.Additions
import InkSyntax.Proofs.Reading.Quiet
import InkSyntax.Proofs.Reading.Supplies

namespace InkSyntax

/-!
# Rules that do not complain

A run that delivers nothing is quiet: it leaves the scopes around alone and does not
mark its own.  So whatever is shown of a sequence of rules may go by the quiet runs
of its parts, in which every error would be a complaint.
-/

/-- A guarantee says what is ensured, and more. -/
theorem Outcome.Guarantees.ensures
    {H α : Type}
    {outcome : Outcome H α}
    {onMatch : α → Machine H → Prop}
    {onFailure : Machine H → Prop}
    (guarantees : outcome.Guarantees onMatch onFailure) :
    outcome.Ensures onMatch onFailure := by
  cases outcome with
  | matched value after =>
      exact guarantees
  | failed after =>
      exact guarantees
  | faulted fault =>
      trivial

namespace Machine

/-- A run may always complain, but is quiet if it does not. -/
def QuietUnlessComplains (before after : Machine Workshop) : Prop :=
  Complains before after ∨ Quiet before after

namespace QuietUnlessComplains

variable {before after : Machine Workshop}

theorem length_le
    (related : QuietUnlessComplains before after) :
    before.delivered.length ≤ after.delivered.length := by
  rcases related with complains | quiet
  · exact Nat.le_of_lt complains
  · exact Nat.le_of_eq (congrArg List.length quiet.delivered.symm)

theorem law : Reading.Law QuietUnlessComplains where
  refl machine := .inr (.refl machine)
  trans first second := by
    rcases first with complains | quiet
    · exact .inl (complains.trans_le second.length_le)
    · exact second.imp quiet.complains quiet.trans
  moves machine cursor := .inr ⟨rfl, rfl, id⟩
  flags machine mask on := .inr ⟨rfl, rfl, id⟩
  closes related closes :=
    related.imp (Complains.closes · closes) (Quiet.closes · closes)
  drafts machine draft := .inr ⟨rfl, rfl, id⟩
  choices machine inChoice := .inr ⟨rfl, rfl, id⟩
  requests machine path := .inr ⟨rfl, rfl, id⟩
  includes starts related := by
    subst starts
    exact related.imp id fun quiet => ⟨quiet.delivered, rfl, id⟩

/-- A report is delivered, or else it changes nothing around. -/
theorem report
    (machine : Machine Workshop)
    (severity : Severity)
    (line : Nat)
    (message : String) :
    QuietUnlessComplains machine (machine.report severity line message) := by
  by_cases told : machine.stack.top.reported
  · refine .inr ⟨?_, ?_, ?_⟩
    · rw [delivered_report, if_pos told]
    · rw [stack_report, if_pos told]
    · rw [stack_report, if_pos told]
      exact id
  · exact .inl (complains_report (by simpa using told) _ _ _)

end QuietUnlessComplains

end Machine

namespace Reading

variable
    {library : Library}
    {maxDepth : Nat}

/-- A run that delivers nothing is quiet. -/
theorem Site.quiet_of_delivered
    (site : Site)
    {after : Machine Workshop}
    (ends : (site.outcome library maxDepth).after? = some after)
    (same : after.delivered = site.machine.delivered) :
    Machine.Quiet site.machine after := by
  have related :=
    Outcome.ends_iff.mp
      (Machine.QuietUnlessComplains.law.ends site fun _ =>
        Machine.QuietUnlessComplains.report _ _ _ _)
      after ends
  rcases related with complains | quiet
  · rw [Machine.Complains, same] at complains
    exact absurd complains (Nat.lt_irrefl _)
  · exact quiet

end Reading

namespace Grammar

open Machine (Quiet)
open Reading (Site)

variable
    {library : Library}
    {maxDepth files levels : Nat}
    {machine : Machine Workshop}
    {α β : Type}
    {rule : GrammarRule α}

/-- What a rule does to the draft, and where what it gives lies in it. -/
theorem ensures_adds
    [StandsFor α]
    (adds : rule.Adds) :
    Ensures library maxDepth files levels rule machine
      (fun value after =>
        Draft.Spares [] machine.host.draft after.host.draft ∧
          ∀ id ∈ StandsFor.nodes value,
            machine.host.draft.size ≤ id.index)
      (fun after =>
        Draft.Spares [] machine.host.draft after.host.draft) := by
  have supplied
      (origin : Cursor) :
      Workshop.Supplies origin (Reading.IsOfFile library maxDepth)
        (Workshop.readWithin maxDepth
          (Reading.inclusions library maxDepth files) levels)
        (Reading.inclusions library maxDepth files) :=
    Reading.supplies Reading.isExhaustion_of_readText levels
  exact
    (adds supplied machine).ensures.mono
      (fun _ _ held => ⟨held.1.spares, held.2⟩) fun _ leads => leads.spares

/-- What holds after a rule has run somewhere without delivering anything. -/
def EnsuresQuietly
    (library : Library)
    (maxDepth files levels : Nat)
    (rule : GrammarRule α)
    (machine : Machine Workshop)
    (onMatch : α → Machine Workshop → Prop)
    (onFailure : Machine Workshop → Prop) : Prop :=
  Ensures library maxDepth files levels rule machine
    (fun value after =>
      after.delivered = machine.delivered → onMatch value after)
    (fun after => after.delivered = machine.delivered → onFailure after)

namespace EnsuresQuietly

variable
    {onMatch onMatch' : α → Machine Workshop → Prop}
    {onFailure onFailure' : Machine Workshop → Prop}

theorem of_ensures
    (ensures :
      Ensures library maxDepth files levels rule machine onMatch onFailure) :
    EnsuresQuietly library maxDepth files levels rule machine
      onMatch onFailure :=
  ensures.mono (fun _ _ holds _ => holds) fun _ holds _ => holds

theorem mono
    (ensures :
      EnsuresQuietly library maxDepth files levels rule machine
        onMatch onFailure)
    (match_ : ∀ value after, onMatch value after → onMatch' value after)
    (failure : ∀ after, onFailure after → onFailure' after) :
    EnsuresQuietly library maxDepth files levels rule machine
      onMatch' onFailure' :=
  Ensures.mono ensures (fun _ _ holds same => match_ _ _ (holds same))
    fun _ holds same => failure _ (holds same)

/-- One quiet rule after another. -/
theorem bind
    {next : α → GrammarRule β}
    {onMatch : β → Machine Workshop → Prop}
    (first :
      EnsuresQuietly library maxDepth files levels rule machine
        (fun value middle =>
          Quiet machine middle →
          EnsuresQuietly library maxDepth files levels (next value) middle
            onMatch onFailure)
        onFailure) :
    EnsuresQuietly library maxDepth files levels (rule >>= next) machine
      onMatch onFailure := by
  refine ensures_bind (Outcome.ensures_iff.mpr ⟨?_, ?_⟩)
  · intro value middle matched
    have firstEnds := congrArg Outcome.after? matched
    have grows := Site.delivered_prefix _ firstEnds
    -- What is quiet in the end was quiet in between.
    have between
        {after : Machine Workshop}
        (ends :
          (Site.outcome library maxDepth
              ⟨files, levels, next value, middle⟩).after? = some after)
        (same : after.delivered = machine.delivered) :
        middle.delivered = machine.delivered :=
      (grows.eq_of_length_le (same ▸ (Site.delivered_prefix _ ends).length_le)).symm
    have held := (Outcome.ensures_iff.mp first).1 value middle matched
    refine Outcome.ensures_iff.mpr ⟨?_, ?_⟩
    · intro result after ran same
      have quietly := between (congrArg Outcome.after? ran) same
      exact
        (Outcome.ensures_iff.mp
            (held quietly (Site.quiet_of_delivered _ firstEnds quietly))).1
          result after ran (same.trans quietly.symm)
    · intro after ran same
      have quietly := between (congrArg Outcome.after? ran) same
      exact
        (Outcome.ensures_iff.mp
            (held quietly (Site.quiet_of_delivered _ firstEnds quietly))).2
          after ran (same.trans quietly.symm)
  · intro after failed
    exact (Outcome.ensures_iff.mp first).2 after failed

theorem pure
    {value : α}
    (holds : onMatch value machine) :
    EnsuresQuietly library maxDepth files levels (Pure.pure value) machine
      onMatch onFailure :=
  fun _ => holds

theorem attempt
    {onMatch : Option α → Machine Workshop → Prop}
    (attempted :
      EnsuresQuietly library maxDepth files levels rule machine
        (fun value => onMatch (some value)) (onMatch none)) :
    EnsuresQuietly library maxDepth files levels (.attempt rule) machine
      onMatch onFailure :=
  ensures_attempt attempted

/-- A rule in a scope of its own, which is not marked when it begins. -/
theorem parse
    [StandsFor α]
    (inside :
      EnsuresQuietly library maxDepth files levels rule machine.opened
        (fun value after =>
          ∀ closed,
            Rule.Closes (.keep (StandsFor.nodes value)) machine.nextRule
              after closed →
            onMatch value closed)
        (fun after =>
          ∀ closed,
            Rule.Closes .undo machine.nextRule after closed →
            onFailure closed)) :
    EnsuresQuietly library maxDepth files levels (Rule.parse rule) machine
      onMatch onFailure := by
  refine ensures_parse (Ensures.mono inside ?_ ?_)
  · intro value after holds closed closes same
    refine holds ?_ closed closes
    rw [← Machine.delivered_closes closes, same]
    rfl
  · intro after holds closed closes same
    refine holds ?_ closed closes
    rw [← Machine.delivered_closes closes, same]
    rfl

/-- No quiet run makes a report where its scope is not marked. -/
theorem report
    {severity : Severity}
    {line : Nat}
    {message : String}
    {onMatch : Unit → Machine Workshop → Prop}
    (unmarked : machine.stack.top.reported = false) :
    EnsuresQuietly library maxDepth files levels
      (.report severity line message) machine onMatch onFailure := by
  intro same
  have complains := Machine.complains_report unmarked severity line message
  rw [Machine.Complains, same] at complains
  exact absurd complains (Nat.lt_irrefl _)

theorem error
    {message : String}
    {onMatch : Unit → Machine Workshop → Prop}
    (unmarked : machine.stack.top.reported = false) :
    EnsuresQuietly library maxDepth files levels (Rule.error message) machine
      onMatch onFailure :=
  show
    EnsuresQuietly library maxDepth files levels
      (.report .error (machine.top.cursor.line + 1) message) machine _ _
  from report unmarked

theorem errorAt
    {id : NodeId}
    {message : String}
    {onMatch : Unit → Machine Workshop → Prop}
    (unmarked : machine.stack.top.reported = false) :
    EnsuresQuietly library maxDepth files levels
      (Grammar.errorAt id message) machine onMatch onFailure := by
  have asks :
      Ensures library maxDepth files levels (spanOf id) machine
        (fun _ after => after = machine) onFailure :=
    rfl
  refine bind (.of_ensures (asks.mono ?_ fun _ failed => failed))
  rintro span _ rfl _
  cases span with
  | none =>
      exact error unmarked
  | some span =>
      exact report unmarked

end EnsuresQuietly

end Grammar

end InkSyntax
