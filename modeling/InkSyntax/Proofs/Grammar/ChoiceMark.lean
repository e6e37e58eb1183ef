import InkSyntax.Proofs.Grammar.PlainRules
import InkSyntax.Proofs.Grammar.WholeScripts
import InkSyntax.Proofs.Machine.HostInvariants

namespace InkSyntax

/-!
# The mark of choices

The workshop is marked while the text of a choice is read.  No rule but that of
choices sets the mark, so all others are put together from choices and from parts
that spare it.  A choice that is read to its end takes the mark away, whoever set
it; one that is not there leaves it alone.
-/

/-- The operation works on the draft of a story alone. -/
@[simp] def Craft.IsDrafting : {α : Type} → Craft α → Prop
  | _, .setInChoice _ => False
  | _, .include _ => False
  | _, .read _ => False
  | _, _ => True

namespace Workshop

variable
    {read : {α : Type} → Construct α → Action Workshop α}
    {include_ : String → Action Workshop Inclusion}

/-- Work on the draft succeeds, and spares the mark. -/
theorem ensures_drafting
    {α : Type}
    {operation : Craft α}
    (isDrafting : operation.IsDrafting)
    (machine : Machine Workshop) :
    (handle read include_ operation machine).Ensures
      (fun _ after => after.host.inChoice = machine.host.inChoice)
      fun _ => False := by
  cases operation with
  | kindOf id =>
      simp only [handle]
      split
      · rfl
      · trivial
  | amend _ _ | weave _ | survey _ =>
      simp only [handle, unlessMissing]
      split
      · trivial
      · rfl
  | make _ | makeSpanning _ | spanOf _ | isInChoice =>
      rfl
  | setInChoice _ | «include» _ | read _ =>
      exact isDrafting.elim

theorem maintains_inChoice
    (inChoice : Bool) :
    Host.Maintains fun workshop : Workshop => workshop.inChoice = inChoice where
  rewind _ same := same
  commit _ _ _ same := same
  deliver _ _ _ same := same

end Workshop

namespace Rule

variable
    {α β σ : Type}
    {read : {γ : Type} → Construct γ → Action Workshop γ}
    {include_ : String → Action Workshop Inclusion}

theorem neverFails_effect
    {operation : Craft α}
    (isDrafting : operation.IsDrafting) :
    (effect operation).NeverFails :=
  fun _ _ machine =>
    (Workshop.ensures_drafting isDrafting machine).mono
      (fun _ _ _ => trivial) fun _ => id

/-- A rule that works on the draft alone ends with the mark as it was. -/
theorem ends_inChoice_of_performs
    (read : {γ : Type} → Construct γ → Action Workshop γ)
    (include_ : String → Action Workshop Inclusion)
    {rule : GrammarRule α}
    (performs : rule.Performs @Craft.IsDrafting)
    (machine : Machine Workshop) :
    (rule.run (Workshop.handle read include_) machine).Ends
      (·.host.inChoice = machine.host.inChoice) := by
  refine
    ends_of_performs (Workshop.maintains_inChoice machine.host.inChoice) ?_ rule
      performs machine rfl
  intro γ operation middle isDrafting same
  exact
    (Workshop.ensures_drafting isDrafting middle).mono
      (fun _ _ still => still.trans same) fun _ => False.elim

/-- A rule that asks works on the draft alone. -/
theorem Asks.drafting
    {rule : GrammarRule α}
    (asks : rule.Asks []) :
    rule.Performs @Craft.IsDrafting := by
  refine Performs.mono (fun {γ operation} asksThis => ?_) asks.performs
  cases operation <;> trivial

/-- A rule that sets the mark of choices nowhere but in whole choices. -/
inductive SparesMark : {α : Type} → GrammarRule α → Prop where
  | choice : SparesMark Grammar.choice
  | pure {α : Type} (value : α) : SparesMark (.pure value)
  | fail {α : Type} : SparesMark (.fail : GrammarRule α)
  | bind
      {α β : Type}
      {first : GrammarRule α}
      {next : α → GrammarRule β}
      (spares : SparesMark first)
      (then_ : ∀ value, SparesMark (next value)) :
      SparesMark (.bind first next)
  | attempt
      {α : Type}
      {rule : GrammarRule α}
      (spares : SparesMark rule) :
      SparesMark (.attempt rule)
  | scope
      {α : Type}
      (fate : α → Fate)
      {rule : GrammarRule α}
      (spares : SparesMark rule) :
      SparesMark (.scope fate rule)
  | loop
      {σ α : Type}
      (state : σ)
      {round : σ → GrammarRule (σ ⊕ α)}
      (spares : ∀ state, SparesMark (round state)) :
      SparesMark (.loop state round)
  | scan {α : Type} (scanner : Scanner α) : SparesMark (.scan scanner)
  | here : SparesMark .here
  | setFlag (mask : UInt32) (on : Bool) : SparesMark (.setFlag mask on)
  | report (severity : Severity) (line : Nat) (message : String) :
      SparesMark (.report severity line message)
  | effect
      {α : Type}
      {operation : Craft α}
      (spares : operation.SparesMark) :
      SparesMark (.effect operation)

namespace SparesMark

theorem of_performs
    {rule : GrammarRule α}
    (performs : rule.Performs @Craft.SparesMark) :
    rule.SparesMark := by
  induction rule with
  | pure value =>
      exact .pure value
  | fail =>
      exact .fail
  | bind first next firstHypothesis nextHypothesis =>
      exact
        .bind (firstHypothesis performs.1) fun value =>
          nextHypothesis value (performs.2 value)
  | attempt rule inductionHypothesis =>
      exact .attempt (inductionHypothesis performs)
  | scope fate rule inductionHypothesis =>
      exact .scope fate (inductionHypothesis performs)
  | loop state round inductionHypothesis =>
      exact .loop state fun state => inductionHypothesis state (performs state)
  | scan scanner =>
      exact .scan scanner
  | here =>
      exact .here
  | setFlag mask on =>
      exact .setFlag mask on
  | report severity line message =>
      exact .report severity line message
  | effect operation =>
      exact .effect performs

theorem of_plain
    {rule : GrammarRule α}
    (plain : rule.Plain) :
    rule.SparesMark :=
  of_performs (Performs.mono (fun isPlain => isPlain.sparesMark) plain)

theorem parse
    [StandsFor α]
    {rule : GrammarRule α}
    (spares : rule.SparesMark) :
    (Rule.parse rule).SparesMark :=
  .scope _ spares

theorem oneOf
    [StandsFor α]
    {rules : List (GrammarRule α)}
    (spare : ∀ rule ∈ rules, rule.SparesMark) :
    (Rule.oneOf rules).SparesMark := by
  refine .parse ?_
  induction rules with
  | nil =>
      exact .fail
  | cons rule others inductionHypothesis =>
      obtain ⟨spares, othersSpare⟩ := List.forall_mem_cons.mp spare
      refine .bind (.attempt spares.parse) ?_
      rintro (_ | value)
      · exact inductionHypothesis othersSpare
      · exact .pure _

theorem expectOr
    [StandsFor α]
    {rule recovery : GrammarRule α}
    (spares : rule.SparesMark)
    (recovers : recovery.SparesMark)
    (description : String) :
    (Rule.expectOr rule description recovery).SparesMark := by
  refine .bind (.attempt spares.parse) ?_
  rintro (_ | value)
  · exact .bind (.of_performs (performs_reportExpected _)) fun _ => recovers
  · exact .pure _

theorem alternateUntil
    [StandsFor (Step α)]
    [StandsFor (List α)]
    {outer inner : GrammarRule (Step α)}
    {stop : GrammarRule β}
    (outerSpares : outer.SparesMark)
    (innerSpares : inner.SparesMark)
    (stopSpares : stop.SparesMark) :
    (Rule.alternateUntil outer inner stop).SparesMark := by
  refine .parse (.bind outerSpares.parse fun first => .bind ?_ fun found => ?_)
  · refine .loop _ fun found => ?_
    refine
      .bind (.scope _ (.bind (.attempt stopSpares) fun _ => .pure _))
        fun stops => ?_
    split
    · exact .pure _
    · refine .bind (.attempt innerSpares.parse) ?_
      rintro (_ | main)
      · exact .pure _
      · refine .bind (.attempt outerSpares.parse) ?_
        rintro (_ | next)
        · exact .pure _
        · refine .bind (.of_performs performs_atEnd) fun isEnd => ?_
          split <;> exact .pure _
  · split
    · exact .fail
    · exact .pure _

end SparesMark

end Rule

namespace Grammar

section Choices

theorem neverFails_skipBlanks :
    skipBlanks.NeverFails :=
  .bind (.attempt _) fun _ => .pure _

theorem neverFails_closeTag :
    closeTag.NeverFails := by
  refine .bind (.bind .here fun _ => .pure _) fun isOpen => ?_
  split
  · exact
      .bind (Rule.neverFails_effect trivial) fun _ =>
        .bind (.setFlag _ _) fun _ => .pure _
  · exact .pure _

theorem neverFails_closeTagIn
    (content : Option (List NodeId)) :
    (closeTagIn content).NeverFails := by
  cases content with
  | none =>
      exact .bind (.setFlag _ _) fun _ => .pure _
  | some content =>
      exact .bind neverFails_closeTag fun _ => .pure _

theorem neverFails_choiceText :
    choiceText.NeverFails := by
  refine .bind (.attempt _) fun start => ?_
  refine .bind (.bind (.attempt _) fun _ => .pure _) fun hasBrackets => ?_
  split
  · refine .bind (neverFails_closeTagIn start) fun start => ?_
    refine .bind (.attempt _) fun choiceOnly => .bind (.attempt _) fun _ => ?_
    refine .bind (neverFails_closeTagIn choiceOnly) fun choiceOnly => ?_
    exact .bind (.attempt _) fun inner => .pure _
  · exact .pure _

theorem neverFails_closeLastTag
    (parts : ChoiceText) :
    (closeLastTag parts).NeverFails := by
  unfold closeLastTag
  split
  · exact .bind (neverFails_closeTagIn _) fun _ => .pure _
  · exact .bind (neverFails_closeTagIn _) fun _ => .pure _

theorem neverFails_choiceParts :
    choiceParts.NeverFails := by
  refine .bind neverFails_choiceText fun parts => ?_
  refine .bind neverFails_skipBlanks fun _ => ?_
  refine .bind (neverFails_closeLastTag parts) fun parts => ?_
  exact .bind (.attempt _) fun ending => .pure _

theorem neverFails_warnIfBlank
    (parts : ChoiceText)
    (hasDiverts : Bool) :
    (warnIfBlank parts hasDiverts).NeverFails := by
  unfold warnIfBlank Rule.warning
  split
  · exact .bind (.bind .here fun _ => .pure _) fun _ => .report _ _ _
  · split
    · exact .bind (.bind .here fun _ => .pure _) fun _ => .report _ _ _
    · exact .pure _

theorem neverFails_leadingDiverts
    (ids : List NodeId) :
    (leadingDiverts ids).NeverFails := by
  induction ids with
  | nil =>
      exact .pure _
  | cons id others inductionHypothesis =>
      refine .bind inductionHypothesis fun rest => ?_
      refine .bind (.bind (Rule.neverFails_effect trivial) fun kind => ?_) ?_
      · split <;> exact .pure _
      · exact fun isEmpty => .pure _

theorem neverFails_contentListOf
    (content : Option (List NodeId)) :
    (contentListOf content).NeverFails := by
  cases content with
  | none =>
      exact .pure _
  | some content =>
      exact .bind (Rule.neverFails_effect trivial) fun _ => .pure _

theorem neverFails_choiceOf
    (head : ChoiceHead)
    (parts : ChoiceText)
    (ending : Option (List NodeId)) :
    (choiceOf head parts ending).NeverFails := by
  refine .bind neverFails_skipBlanks fun _ => ?_
  refine .bind (neverFails_warnIfBlank parts ending.isSome) fun _ => ?_
  refine .bind neverFails_closeTag fun markers => ?_
  refine .bind (neverFails_leadingDiverts (ending.getD [])) fun leading => ?_
  refine .bind (Rule.neverFails_effect trivial) fun lineFeed => ?_
  refine .bind (neverFails_contentListOf parts.start) fun start => ?_
  refine .bind (neverFails_contentListOf parts.choiceOnly) fun choiceOnly => ?_
  refine .bind (neverFails_contentListOf _) fun inner => ?_
  exact Rule.neverFails_effect trivial

theorem drafting_leadingDiverts
    (ids : List NodeId) :
    (leadingDiverts ids).Performs @Craft.IsDrafting := by
  induction ids with
  | nil =>
      trivial
  | cons id others inductionHypothesis =>
      refine .bind inductionHypothesis fun _ => .bind (.bind trivial ?_) ?_
      · intro kind
        split <;> trivial
      · exact fun isEmpty => trivial

theorem drafting_contentListOf
    (content : Option (List NodeId)) :
    (contentListOf content).Performs @Craft.IsDrafting := by
  cases content with
  | none =>
      trivial
  | some content =>
      exact .bind trivial fun _ => trivial

theorem drafting_closeTag :
    closeTag.Performs @Craft.IsDrafting := by
  refine .bind (Rule.performs_hasFlag _) fun isOpen => ?_
  split
  · exact .bind trivial fun _ => .bind trivial fun _ => trivial
  · trivial

theorem drafting_choiceOf
    (head : ChoiceHead)
    (parts : ChoiceText)
    (ending : Option (List NodeId)) :
    (choiceOf head parts ending).Performs @Craft.IsDrafting := by
  refine .bind asks_skipBlanks.drafting fun _ => ?_
  refine .bind (asks_warnIfBlank parts _).drafting fun _ => ?_
  refine .bind drafting_closeTag fun markers => ?_
  refine .bind (drafting_leadingDiverts _) fun leading => ?_
  refine .bind trivial fun lineFeed => ?_
  refine .bind (drafting_contentListOf _) fun start => ?_
  refine .bind (drafting_contentListOf _) fun choiceOnly => ?_
  exact .bind (drafting_contentListOf _) fun inner => trivial

variable
    {read : {α : Type} → Construct α → Action Workshop α}
    {include_ : String → Action Workshop Inclusion}
    (machine : Machine Workshop)

/-- The head of a choice fails at the mark in front, if at all. -/
theorem ensures_choiceHead :
    (choiceHead.run (Workshop.handle read include_) machine).Ensures
      (fun _ _ => True) (·.host.inChoice = machine.host.inChoice) := by
  have marked :=
    Rule.ends_inChoice_of_performs read include_ asks_choiceMark.drafting machine
  refine Rule.ensures_bind.mpr (marked.mono ?_ fun _ => id)
  rintro ⟨depth, onceOnly⟩ after -
  have neverFails :
      Rule.NeverFails
        (do
          let name ← Rule.attempt (Rule.parse label)
          skipBlanks
          let condition ← Rule.attempt (Rule.parse choiceGuard)
          skipBlanks
          return ({ depth, onceOnly, name, condition } : ChoiceHead)) :=
    .bind (.attempt _) fun name => .bind neverFails_skipBlanks fun _ =>
      .bind (.attempt _) fun condition =>
        .bind neverFails_skipBlanks fun _ => .pure _
  exact (neverFails read include_ after).mono (fun _ _ => id) fun _ => False.elim

/-- A choice takes the mark away, and one that is not there leaves it alone. -/
theorem ensures_choice :
    (choice.run (Workshop.handle read include_) machine).Ensures
      (fun _ after => after.host.inChoice = false)
      (·.host.inChoice = machine.host.inChoice) := by
  refine Rule.ensures_bind.mpr ?_
  refine (ensures_choiceHead machine).mono ?_ fun _ => id
  intro head headed _
  refine Rule.ensures_bind.mpr (Rule.ensures_bind.mpr ?_)
  refine (neverFails_choiceParts read include_ _).mono ?_ fun _ => False.elim
  rintro ⟨parts, ending⟩ behindParts -
  refine Rule.ensures_bind.mpr ?_
  have unmarked :=
    Rule.ends_inChoice_of_performs read include_
      (drafting_choiceOf head parts ending)
      { behindParts with host := { behindParts.host with inChoice := false } }
  exact
    ((neverFails_choiceOf head parts ending read include_ _).and unmarked).mono
      (fun _ _ held => held.2) fun _ held => held.1.elim

end Choices

section Statements

variable {place : Place}

theorem sparesMark_single
    {rule : GrammarRule NodeId}
    (spares : rule.SparesMark) :
    (single rule).SparesMark :=
  .bind spares fun _ => .pure _

theorem sparesMark_flow
    (level : FlowLevel)
    (header : FlowHeader)
    (content : List NodeId) :
    (flow level header content).SparesMark :=
  .bind (.effect trivial) fun _ => .effect trivial

theorem sparesMark_statements
    (place : Place) :
    (statements place).SparesMark := by
  have spares : (Craft.read (.statements place)).SparesMark :=
    trivial
  exact .effect spares

theorem sparesMark_knot :
    knot.SparesMark := by
  refine .bind (.of_plain (by simp)) fun header => ?_
  refine .bind (.of_plain (by simp)) fun _ => ?_
  refine .bind (.expectOr (sparesMark_statements _) (.of_plain (by simp)) _) ?_
  exact fun content => sparesMark_flow _ header content

theorem sparesMark_stitch :
    stitch.SparesMark := by
  refine .bind (.of_plain (by simp)) fun header => ?_
  refine .bind (.of_plain (by simp)) fun _ => ?_
  refine .bind (.expectOr (sparesMark_statements _) (.of_plain (by simp)) _) ?_
  exact fun content => sparesMark_flow _ header content

theorem sparesMark_gather :
    gather.SparesMark := by
  refine .bind (.of_plain (by simp)) fun depth => ?_
  refine .bind (.of_plain (by simp)) fun name => ?_
  exact .bind (.of_plain (by simp)) fun _ => .effect trivial

theorem sparesMark_of_mem_statementRules
    {rule : GrammarRule (List NodeId)}
    (member : rule ∈ statementRules place) :
    rule.SparesMark := by
  rcases plain_of_mem_statementRules member with
    plain | rfl | ⟨-, rfl⟩ | ⟨-, rfl⟩ | ⟨-, rfl⟩
  · exact .of_plain plain
  · refine sparesMark_single (.bind (.parse .choice) fun _ => ?_)
    exact .bind (.of_plain (by simp)) fun _ => .pure _
  · exact sparesMark_single sparesMark_knot
  · exact sparesMark_single sparesMark_gather
  · exact sparesMark_single sparesMark_stitch

theorem sparesMark_statement :
    (statement place).SparesMark := by
  refine .bind (.oneOf fun rule => sparesMark_of_mem_statementRules) fun nodes => ?_
  split
  · have asks : (anyNode isReturn nodes).Asks nodes :=
      asks_anyNode fun id member => asks_isReturn member
    refine .bind (.of_plain asks.plain) fun returns => ?_
    split
    · exact .bind (.of_performs (Rule.performs_error _)) fun _ => .pure _
    · exact .pure _
  · exact .pure _

theorem sparesMark_statementRun :
    (statementRun place).SparesMark := by
  have run :
      (Rule.alternateUntil (Rule.optionallyDropped blankLines)
        (do return .many (← statement place))
        (statementsEnd place)).SparesMark :=
    .alternateUntil (.of_plain (by simp))
      (.bind sparesMark_statement fun _ => .pure _)
      (.of_plain plain_statementsEnd)
  unfold statementRun
  split
  · refine .bind (.of_plain (by simp)) fun dashed => ?_
    split
    · exact .bind (.of_performs (Rule.performs_error _)) fun _ => run
    · exact run
  · exact run

/-- The rules of all constructs set the mark in whole choices only. -/
theorem sparesMark_rule
    {α : Type}
    (construct : Construct α) :
    (rule construct).SparesMark := by
  cases construct with
  | expression weakerThan =>
      exact .of_plain (plain_expressionAbove weakerThan)
  | operand =>
      exact .of_plain plain_operand
  | prose =>
      exact .of_plain plain_mixedProse
  | statements place =>
      exact sparesMark_statementRun

theorem sparesMark_choiceParts :
    choiceParts.SparesMark :=
  .of_plain plain_choiceParts

end Statements

end Grammar

end InkSyntax
