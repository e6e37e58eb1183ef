import InkSyntax.Proofs.Grammar.Arranging

namespace InkSyntax

/-!
# Statements keep gathers in order

A gather is a statement of its own, and other statements stand beside it.  Knots,
stitches and scripts arrange the statements below them, so every gather gets its
place in a weave there.  Only names stand beside what is woven, and names are plain.
-/

namespace Machine.Arranges

variable
    {origin : Cursor}
    {admits : Story → Prop}
    {start machine after : Machine Workshop}
    {given content others : List NodeId}

/-- Trees that are no gathers stay so while others are made. -/
theorem noGathers
    (arranges : Machine.Arranges origin admits start machine given)
    (noGathers : machine.host.draft.NoGathers given)
    (leads : machine.Leads [] after) :
    after.host.draft.NoGathers given := by
  obtain ⟨-, found, holds, -⟩ := arranges.gains
  intro id member
  have made := holds.forest.lt_size (holds.forest.mem_of_root member)
  rw [leads.spares.kind? made List.not_mem_nil]
  exact noGathers id member

/-- A node that is no weave, on top of trees that are no gathers. -/
theorem make
    (kind : StoryKind)
    (arranges : Machine.Arranges origin admits start machine kind.children)
    (noGathers : machine.host.draft.NoGathers kind.children)
    (notWeave : ∀ content base, kind ≠ .weave content base)
    (notIncluded : ∀ story, kind ≠ .includedFile (some story)) :
    Machine.Arranges origin admits start
      { machine with
        host :=
          { machine.host with draft := (machine.host.draft.add kind).2 } }
      [⟨machine.host.draft.size⟩] := by
  obtain ⟨spares, found, holds, known⟩ := arranges.gains
  have gains :
      Draft.Gains origin admits start.cursor.offset machine.cursor.offset found
        machine.host.draft (machine.host.draft.add kind).2
        [⟨machine.host.draft.size⟩] :=
    Draft.Holds.gains_add holds
      (fun story included => absurd included (notIncluded story)) (by simp)
  exact {
    reaches := arranges.reaches
    proceeds := arranges.proceeds.trans (.work machine _)
    gains := gains.trans spares known
    arranged :=
      arranges.arranged.addOver kind holds.forest noGathers notWeave
  }

end Machine.Arranges

namespace Rule

variable
    {origin : Cursor}
    {admits : Story → Prop}
    {read : {γ : Type} → Construct γ → Action Workshop γ}
    {include_ : String → Action Workshop Inclusion}
    {start machine : Machine Workshop}
    {content others : List NodeId}

/-- Weaving content below a new node puts its gathers in order. -/
theorem guarantees_woven
    {kind : List NodeId → StoryKind}
    (supplies : Workshop.SuppliesArranged origin admits read include_)
    (arranges :
      Machine.Arranges origin admits start machine (content ++ others))
    (noGathers : machine.host.draft.NoGathers others)
    (covers : ∀ ids, Covers (ids ++ others) (kind ids).children)
    (notWeave : ∀ ids content base, kind ids ≠ .weave content base)
    (notIncluded : ∀ ids story, kind ids ≠ .includedFile (some story)) :
    ((do
        let ids ← Rule.effect (.weave content)
        Grammar.make (kind ids) : GrammarRule NodeId).run
          (Workshop.handle read include_) machine).Guarantees
      (fun id after => Machine.Arranges origin admits start after [id])
      (start.Leads []) := by
  obtain ⟨spares, found, holds, known⟩ := arranges.gains
  have owns :
      (do
        let ids ← Rule.effect (.weave content)
        Grammar.make (kind ids) : GrammarRule NodeId).Owns
          (content ++ others) fun id => [id] :=
    .using others (.weave content) (fun _ => Nat.le_refl _) fun ids =>
      .make (covers ids) (notIncluded ids)
  have areThere : machine.host.draft.missingAmong? content = none :=
    holds.forest.knows.missingAmong?_eq_none fun id root =>
      holds.forest.mem_of_root (List.mem_append_left others root)
  have owned :=
    Rule.guarantees_bind.mp <|
      owns supplies.supplies machine start.cursor.offset found
        arranges.further arranges.proceeds.cursor.offset_le holds
  refine Rule.guarantees_bind.mpr ?_
  rw [run_weave areThere] at owned ⊢
  obtain ⟨proceeds, gains⟩ := owned
  exact {
    reaches := arranges.reaches
    proceeds := arranges.proceeds.trans proceeds
    gains := gains.trans spares known
    arranged :=
      holds.arranged_addWoven arranges.arranged noGathers (notWeave _)
        (covers _).subperm
  }

end Rule

namespace Grammar

open Rule (attempt parse)

theorem arranges_gather :
    gather.Arranges [] fun id => [id] := by
  intro origin admits read include_ supplies start machine before
  have dashed : (parse dashes : GrammarRule Nat).Reads [] :=
    Rule.Asks.reads (by simp)
  have ended : (attempt lineEnd : GrammarRule (Option Unit)).Arranges [] fun _ => [] :=
    Rule.Reads.arranges (Rule.Asks.reads (by simp))
  have labelled : (attempt (parse label)).Plain := by
    simp
  refine Rule.guarantees_bind.mpr ?_
  refine (dashed.arranges supplies start machine before).mono ?_ fun _ leads => leads
  intro depth behindDashes arranged
  refine Rule.guarantees_bind.mpr ?_
  refine
    (labelled.sparesWeaves.guarantees builds_label.triedNode supplies behindDashes
      arranged.further).mono ?_ fun _ leads => arranged.leads.trans leads
  rintro name behindLabel ⟨named, noGathers⟩
  refine Rule.guarantees_bind.mpr ?_
  refine
    (ended supplies behindLabel behindLabel (.refl named.further)).mono ?_ ?_
  · intro _ behindLine lineEnded
    have whole := (arranged.trans named).go lineEnded.leads
    rw [List.append_nil] at whole
    exact
      Machine.Arranges.make (.gather name depth []) whole
        (named.noGathers noGathers lineEnded.leads) (by simp) (by simp)
  · exact fun after leads => (arranged.leads.trans named.leads).trans leads

theorem arranges_statements
    (place : Place) :
    (statements place).Arranges [] fun ids => ids := by
  intro origin admits read include_ supplies
  exact supplies.statements place

/-- A flow begins with a plain header, and weaves the statements below it. -/
theorem arranges_headed
    {header : GrammarRule FlowHeader}
    {ending : GrammarRule (Option Unit)}
    (plain : header.Plain)
    (builds : header.Builds FlowHeader.nodes)
    (asks : ending.Asks [])
    (level : FlowLevel)
    (place : Place)
    (description : String) :
    (do
      let header ← parse header
      let _ ← ending
      let content ← Rule.expectOr (statements place) description missingContent
      flow level header content : GrammarRule NodeId).Arranges []
        fun id => [id] := by
  intro origin admits read include_ supplies start machine before
  have content :
      (Rule.expectOr (statements place) description missingContent).Arranges []
        fun ids => ids :=
    .expectOr (arranges_statements place)
      (plain_missingContent.sparesWeaves.arranges builds_missingContent) _
  have ended : ending.Arranges [] fun _ => [] :=
    asks.reads.arranges
  have parsed : (parse header).Plain :=
    Rule.performs_parse.mpr plain
  refine Rule.guarantees_bind.mpr ?_
  refine
    (parsed.sparesWeaves.guarantees builds.parse supplies machine before.further).mono ?_
      fun _ leads => before.leads.trans leads
  rintro header behindHeader ⟨named, noGathers⟩
  have begun := before.trans named
  refine Rule.guarantees_bind.mpr ?_
  refine
    (ended supplies behindHeader behindHeader (.refl named.further)).mono ?_
      fun _ leads => begun.leads.trans leads
  intro _ behindLine lineEnded
  refine Rule.guarantees_bind.mpr ?_
  refine
    (content supplies behindHeader behindLine lineEnded).mono ?_
      fun _ leads => begun.leads.trans leads
  intro content behindContent found
  have whole := begun.trans found
  rw [List.append_nil] at whole
  exact
    Rule.guarantees_woven supplies whole
      (named.noGathers noGathers found.leads)
      (by simp [Covers, NodeKind.children, FlowHeader.nodes, List.count_cons])
      (by simp) (by simp)

theorem arranges_knot :
    knot.Arranges [] fun id => [id] :=
  arranges_headed plain_knotHeader builds_knotHeader (by simp) .knot .knot _

theorem arranges_stitch :
    stitch.Arranges [] fun id => [id] :=
  arranges_headed plain_stitchHeader builds_stitchHeader (by simp) .stitch
    .stitch _

theorem arranges_single
    {rule : GrammarRule NodeId}
    (arranges : rule.Arranges [] fun id => [id]) :
    (single rule).Arranges [] fun ids => ids :=
  .then arranges fun id => .pure (by simp [Covers])

theorem arranges_statement
    (place : Place) :
    (statement place).Arranges [] fun ids => ids := by
  have anyStatement :
      (Rule.oneOf (statementRules place)).Arranges [] fun ids => ids := by
    refine .oneOf fun rule member => ?_
    rcases sparesWeaves_of_mem_statementRules member with
      spares | ⟨-, rfl⟩ | ⟨-, rfl⟩ | ⟨-, rfl⟩
    · exact spares.arranges (builds_statementRules place member)
    · exact arranges_single arranges_knot
    · exact arranges_single arranges_gather
    · exact arranges_single arranges_stitch
  refine .then anyStatement fun nodes => ?_
  rw [List.append_nil]
  have done : (pure nodes : GrammarRule (List NodeId)).Arranges nodes fun ids => ids :=
    .pure fun _ => Nat.le_refl _
  split
  · refine .ask (asks_anyNode fun id member => asks_isReturn member) fun returns => ?_
    split
    · exact .ask (by simp) fun _ => done
    · exact done
  · exact done

theorem arranges_statementRun
    (place : Place) :
    (statementRun place).Arranges [] fun ids => ids := by
  have run :
      (Rule.alternateUntil (Rule.optionallyDropped blankLines)
        (do return .many (← statement place)) (statementsEnd place)).Arranges []
          fun ids => ids := by
    refine .alternateUntil ?_ ?_ fun _ => (builds_statementsEnd place).reads_peek
    · exact .ask (by simp) fun _ => .pure (by simp [Covers, Step.values])
    · exact
        .then (arranges_statement place) fun ids =>
          .pure (by simp [Covers, Step.values])
  unfold statementRun
  extract_lets rest
  split
  · refine .ask (by simp) fun dashed => ?_
    split
    · exact .ask (by simp [Rule.error]) fun _ => run
    · exact run
  · exact run

theorem arranges_scriptContent :
    scriptContent.Arranges [] fun ids => ids := by
  have statementsTried :
      (attempt (statements .top)).Arranges [] (·.getD []) :=
    (arranges_statements .top).attempt _ rfl
  refine .then statementsTried fun first => ?_
  rw [List.append_nil]
  refine .loop (fun content => content) (fun content => ?_) (first.getD [])
  refine .ask (by simp) fun _ => ?_
  refine .ask (by simp) fun isEnd => ?_
  split
  · exact .pure (by simp [Covers])
  · refine .ask (by simp) fun _ => ?_
    refine .then statementsTried fun more => ?_
    exact .pure (by grind)

theorem arranges_script :
    script.Arranges [] fun id => [id] := by
  refine .then arranges_scriptContent fun content => ?_
  intro origin admits read include_ supplies start machine arranges
  exact
    Rule.guarantees_woven supplies arranges (by simp [Draft.NoGathers])
      (by simp [Covers, NodeKind.children]) (by simp) (by simp)

end Grammar

/-- Statements are read by rules that keep gathers in order, however deep they nest. -/
theorem Workshop.suppliesArranged_readWithin
    {origin : Cursor}
    {admits : Story → Prop}
    {include_ : String → Action Workshop Inclusion}
    {maxDepth : Nat}
    (supplies :
      ∀ levels,
        Supplies origin admits (readWithin maxDepth include_ levels) include_)
    (includes : ∀ file, (include_ file).StaysPlain)
    (levels : Nat) :
    SuppliesArranged origin admits (readWithin maxDepth include_ levels)
      include_ := by
  refine
    ⟨supplies levels, suppliesPlain_readWithin includes maxDepth levels, ?_⟩
  induction levels with
  | zero =>
      intro place start machine _
      rfl
  | succ levels inductionHypothesis =>
      intro place
      exact
        Grammar.arranges_statementRun place
          ⟨supplies levels, suppliesPlain_readWithin includes maxDepth levels,
            inductionHypothesis⟩

end InkSyntax
