import InkSyntax.Proofs.Grammar.Asking

namespace InkSyntax.Rule

/-!
# Building with choice and repetition

What rules of the grammar build on their own they also build as one of several,
again and again, or in turn: what such a rule gives are the trees of all its
values together.
-/

variable
    {α β : Type}
    {rule : GrammarRule α}
    {gives : α → List NodeId}

instance : Names fun id : NodeId => [id] :=
  ⟨fun _ _ member => member⟩

instance : Names fun ids : List NodeId => ids :=
  ⟨fun _ _ member => member⟩

instance (priority := low) : @Names α instStandsFor gives :=
  ⟨by simp⟩

/-- What an optional value gives, if it is there. -/
def ifThere {β : Type} (gives : α → List β) (found : Option α) : List β :=
  found.elim [] gives

section IfThere

variable {gives : α → List β}

@[simp] theorem ifThere_none :
    ifThere gives none = [] :=
  rfl

@[simp] theorem ifThere_some
    (value : α) :
    ifThere gives (some value) = gives value :=
  rfl

end IfThere

/-- A rule in a scope of its own that need not match. -/
theorem Builds.tried
    [StandsFor α]
    [Names gives]
    (builds : rule.Builds gives) :
    (Rule.attempt (Rule.parse rule)).Builds (ifThere gives) :=
  builds.parse.attempt _ rfl

theorem Builds.triedNode
    {rule : GrammarRule NodeId}
    (builds : rule.Builds fun id => [id]) :
    (Rule.attempt (Rule.parse rule)).Builds Option.toList :=
  builds.parse.attempt _ rfl

theorem Builds.triedNodes
    {rule : GrammarRule (List NodeId)}
    (builds : rule.Builds fun ids => ids) :
    (Rule.attempt (Rule.parse rule)).Builds (·.getD []) :=
  builds.parse.attempt _ rfl

theorem Builds.expect
    [StandsFor α]
    [Names gives]
    (builds : rule.Builds gives)
    (description : String) :
    (expect rule description).Builds gives := by
  refine .then builds.tried ?_
  rintro (_ | value)
  · exact .ask (by simp) fun _ => .fail
  · exact .pure (by simp [Covers])

theorem Builds.expectOr
    [StandsFor α]
    [Names gives]
    {recovery : GrammarRule α}
    (builds : rule.Builds gives)
    (recovers : recovery.Builds gives)
    (description : String) :
    (expectOr rule description recovery).Builds gives := by
  refine .then builds.tried ?_
  rintro (_ | value)
  · exact .ask (by simp) fun _ => recovers
  · exact .pure (by simp [Covers])

theorem Builds.firstOf
    [StandsFor α]
    [Names gives]
    {rules : List (GrammarRule α)}
    (builds : ∀ rule ∈ rules, rule.Builds gives) :
    (oneOf.firstOf rules).Builds gives := by
  induction rules with
  | nil =>
      exact .fail
  | cons rule others inductionHypothesis =>
      refine .then (builds rule List.mem_cons_self).tried ?_
      rintro (_ | value)
      · exact
          inductionHypothesis fun other member =>
            builds other (List.mem_cons_of_mem _ member)
      · exact .pure (by simp [Covers])

theorem Builds.oneOf
    [StandsFor α]
    [Names gives]
    {rules : List (GrammarRule α)}
    (builds : ∀ rule ∈ rules, rule.Builds gives) :
    (oneOf rules).Builds gives :=
  (Builds.firstOf builds).parse

theorem count_reverse_flatMap
    [DecidableEq β]
    {gives : α → List β}
    (found : List α)
    (id : β) :
    (found.reverse.flatMap gives).count id = (found.flatMap gives).count id :=
  ((List.reverse_perm found).flatMap_right gives).count_eq id

theorem Builds.zeroOrMore
    [StandsFor α]
    [Names gives]
    (builds : rule.Builds gives) :
    (zeroOrMore rule).Builds fun found => found.flatMap gives := by
  refine Owns.loop (fun found => found.flatMap gives) ?_ []
  intro found
  refine .then builds.tried ?_
  rintro (_ | value)
  · exact .pure (by simp [Covers, count_reverse_flatMap])
  · exact .pure (by simp [Covers])

theorem Builds.oneOrMore
    [StandsFor α]
    [Names gives]
    (builds : rule.Builds gives) :
    (oneOrMore rule).Builds fun found => found.flatMap gives := by
  refine .then builds.zeroOrMore ?_
  intro found
  split
  · exact .fail
  · exact .pure (by simp [Covers])

/-- Items that separators part; these build nothing. -/
theorem Builds.separated
    [StandsFor α]
    [Names gives]
    {separator : GrammarRule Unit}
    (builds : rule.Builds gives)
    (asks : separator.Asks []) :
    (separated rule separator).Builds fun found => found.flatMap gives := by
  have behindSeparator :
      (do
        let _ ← Rule.parse separator
        Rule.parse rule : GrammarRule α).Builds gives :=
    .ask (by simp [asks]) fun _ => builds.parse
  have attempted :=
    (behindSeparator.scope (fun _ => .keep []) fun _ =>
      ⟨[], rfl, by simp⟩).attempt (ifThere gives) rfl
  refine .then builds.parse fun first => ?_
  refine
    (Owns.loop (fun found => found.flatMap gives) ?_ [first]).weaken
      (by simp [Covers]) fun _ _ => Nat.le_refl _
  intro found
  refine .then attempted ?_
  rintro (_ | value)
  · exact .pure (by simp [Covers, count_reverse_flatMap])
  · exact .pure (by simp [Covers])

/-- Text up to a place that is only looked for. -/
theorem Reads.textUntil
    {stop : GrammarRule α}
    {pauses stops : Char → Bool}
    {known : List NodeId}
    (reads : (Rule.peek stop).Reads known) :
    (textUntil stop pauses stops).Reads known := by
  refine .scope (.bind (.loop (fun parts => ?_) []) fun text => ?_) ?_
  · refine .bind (asks_attempt.mpr (asks_chars _)).reads fun found => ?_
    refine .bind reads fun stops => ?_
    split
    · exact (asks_pure _).reads
    · refine .bind asks_here.reads fun checkpoint => ?_
      split
      · exact (asks_pure _).reads
      · split
        · exact .bind asks_anyChar.reads fun _ => (asks_pure _).reads
        · exact (asks_pure _).reads
  · apply Asks.reads
    simp
  · simp

section Alternation

variable
    {outer inner : GrammarRule (Step α)}
    {stop : GrammarRule β}

/-- What the values that a piece contributes give. -/
def ofStep {β : Type} (gives : α → List β) (step : Step α) : List β :=
  step.values.flatMap gives

@[simp] theorem ofStep_node :
    ofStep (fun id : NodeId => [id]) = Step.values := by
  funext step
  simp [ofStep]

instance : Names (ofStep fun id : NodeId => [id]) :=
  ⟨by simp [StandsFor.nodes]⟩

instance : Names fun found : List NodeId => found.flatMap fun id => [id] :=
  ⟨by simp [StandsFor.nodes]⟩

theorem Owns.alternateRound
    [StandsFor (Step α)]
    [Names (ofStep gives)]
    (outerBuilds : outer.Builds (ofStep gives))
    (innerBuilds : inner.Builds (ofStep gives))
    (reads : ∀ known, (peek stop).Reads known)
    (found : List α) :
    (alternateRound outer inner stop found).Owns (found.flatMap gives)
      (Sum.elim (·.flatMap gives) (·.flatMap gives)) := by
  unfold Rule.alternateRound
  refine .read (reads _) fun stops => ?_
  split
  · exact .pure (by simp [Covers])
  · refine .then innerBuilds.tried ?_
    rintro (_ | main)
    · exact .pure (by simp [Covers])
    · refine .then outerBuilds.tried ?_
      rintro (_ | next)
      · exact .pure (by simp [Covers, ofStep]; omega)
      · refine .ask (by simp) fun isEnd => ?_
        split
        · exact .pure (by simp [Covers, ofStep]; omega)
        · exact .pure (by simp [Covers, ofStep]; omega)

theorem Builds.alternateUntil
    [StandsFor (Step α)]
    [StandsFor (List α)]
    [Names (ofStep gives)]
    [Names fun found : List α => found.flatMap gives]
    (outerBuilds : outer.Builds (ofStep gives))
    (innerBuilds : inner.Builds (ofStep gives))
    (reads : ∀ known, (peek stop).Reads known) :
    (alternateUntil outer inner stop).Builds
      fun found => found.flatMap gives := by
  refine Builds.parse (.then outerBuilds.parse fun first => ?_)
  refine
    .using []
      (.loop _ (.alternateRound outerBuilds innerBuilds reads) first.values)
      (by simp [Covers, ofStep]) fun found => ?_
  split
  · exact .fail
  · exact .pure (by simp [Covers])

theorem Builds.alternate
    [StandsFor (Step α)]
    [StandsFor (List α)]
    [Names (ofStep gives)]
    [Names fun found : List α => found.flatMap gives]
    (outerBuilds : outer.Builds (ofStep gives))
    (innerBuilds : inner.Builds (ofStep gives)) :
    (alternate outer inner).Builds fun found => found.flatMap gives :=
  .alternateUntil outerBuilds innerBuilds fun _ =>
    (asks_peek.mpr asks_fail).reads

/-- Pieces of nodes in turn. -/
theorem Builds.alternateNodes
    {outer inner : GrammarRule (Step NodeId)}
    (outerBuilds : outer.Builds (ofStep fun id => [id]))
    (innerBuilds : inner.Builds (ofStep fun id => [id])) :
    (Rule.alternate outer inner).Builds fun ids => ids := by
  simpa using Builds.alternate outerBuilds innerBuilds

theorem Builds.optionally
    [StandsFor α]
    [Names gives]
    (builds : rule.Builds gives) :
    (optionally rule).Builds (ofStep gives) := by
  refine .then builds.tried ?_
  rintro (_ | value)
  · exact .pure (by simp [Covers, ofStep, Step.values])
  · exact .pure (by simp [Covers, ofStep, Step.values])

theorem Builds.single
    [StandsFor α]
    [Names gives]
    (builds : rule.Builds gives) :
    (single rule).Builds (ofStep gives) :=
  .then builds.parse fun _ =>
    .pure (by simp [Covers, ofStep, Step.values])

/-- What is dropped was no tree. -/
theorem Builds.dropped
    {separator : GrammarRule Unit}
    (asks : separator.Asks []) :
    (dropped separator : GrammarRule (Step α)).Builds (ofStep gives) :=
  .ask (by simp [asks]) fun _ => .pure (by simp [Covers, ofStep, Step.values])

theorem Builds.optionallyDropped
    {separator : GrammarRule Unit}
    (asks : separator.Asks []) :
    (optionallyDropped separator : GrammarRule (Step α)).Builds
      (ofStep gives) :=
  .ask (by simp [asks]) fun _ => .pure (by simp [Covers, ofStep, Step.values])

end Alternation

end InkSyntax.Rule
