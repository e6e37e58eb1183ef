import InkSyntax.Proofs.Grammar.ChainTargets
import InkSyntax.Proofs.Reading.Branches
import InkSyntax.Proofs.Reading.TagEnds

namespace InkSyntax

/-!
# Chains of diverts

The targets of a chain are made while it is read, and the nodes for the whole of it
afterwards: a target that another arrow follows becomes a tunnel, and a double arrow
takes the target behind it along and ends the chain.  A double arrow that does not
stand at the end is an error, unless it begins the chain.
-/

/-- The end of a scope leaves targets alone. -/
theorem Draft.HoldsTargets.closes
    {number : RuleId}
    {ids nodes : List NodeId}
    {machine closed : Machine Workshop}
    (holds : machine.host.draft.HoldsTargets ids)
    (closes : Rule.Closes (.keep nodes) number machine closed) :
    closed.host.draft.HoldsTargets ids where
  nodup := holds.nodup
  targets := by
    intro id member
    rw [Grammar.kind?_of_closes_keep closes]
    exact holds.targets id member

namespace Grammar

open Machine (Quiet)
open Reading (Site)

variable
    {library : Library}
    {maxDepth files levels : Nat}
    {machine : Machine Workshop}
    {kind? : NodeId → Option StoryKind}
    {links : List Link}
    {nodes : List NodeId}

section Steps

variable
    {α β : Type}
    {rule : GrammarRule α}

theorem ensures_of_matched
    {value : α}
    {after : Machine Workshop}
    (matched :
      Site.outcome library maxDepth ⟨files, levels, rule, machine⟩ =
        .matched value after) :
    Ensures library maxDepth files levels rule machine
      (fun found middle => found = value ∧ middle = after)
      (fun _ => True) := by
  rw [Ensures, matched]
  exact ⟨rfl, rfl⟩

theorem outcome_bind
    {next : α → GrammarRule β} :
    Site.outcome library maxDepth ⟨files, levels, rule >>= next, machine⟩ =
      (Site.outcome library maxDepth ⟨files, levels, rule, machine⟩).andThen
        fun value after =>
          Site.outcome library maxDepth ⟨files, levels, next value, after⟩ :=
  rfl

/-- A scope is kept where its rule matches; how it fails need not matter. -/
theorem ensures_parse_kept
    [StandsFor α]
    {onMatch : α → Machine Workshop → Prop}
    (inside :
      Ensures library maxDepth files levels rule machine.opened
        (fun value after =>
          ∀ closed,
            Rule.Closes (.keep (StandsFor.nodes value)) machine.nextRule
              after closed →
            onMatch value closed)
        (fun _ => True)) :
    Ensures library maxDepth files levels (Rule.parse rule) machine
      onMatch (fun _ => True) :=
  ensures_parse (inside.mono (fun _ _ kept => kept) fun _ _ _ _ => trivial)

end Steps

section Making

/-- Without a complaint the rest of a chain loses no target, and touches no other node. -/
def FinishesChain
    (library : Library)
    (maxDepth files levels : Nat)
    (isFirst : Bool)
    (links : List Link)
    (machine : Machine Workshop) : Prop :=
  EnsuresQuietly library maxDepth files levels (chain isFirst links) machine
    (fun nodes after =>
      KeepsTargets after.host.draft.kind? links nodes ∧
        Draft.Spares (targetsOf links) machine.host.draft after.host.draft)
    (fun _ => True)

variable
    {isFirst : Bool}
    {rest : List Link}

/-- With at most a target behind it, a double arrow takes that along. -/
theorem chain_onwards
    (inTurn : InTurn false rest)
    (short : rest.length ≤ 1) :
    chain isFirst (.arrow .onwards :: rest) =
      (do return [← make (.tunnelOnwards (targetsOf rest).head?)]) := by
  match rest, inTurn, short with
  | [], _, _ =>
      cases isFirst <;> rfl
  | [.target divert], _, _ =>
      cases isFirst <;> rfl

/-- A double arrow with more behind it is an error where it does not begin the chain. -/
theorem finishesChain_onwards
    (unmarked : machine.stack.top.reported = false)
    (holds : machine.host.draft.HoldsTargets (targetsOf rest))
    (inTurn : InTurn false rest)
    (ends : isFirst = true → rest.length ≤ 1) :
    FinishesChain library maxDepth files levels isFirst
      (.arrow .onwards :: rest) machine := by
  by_cases short : rest.length ≤ 1
  · unfold FinishesChain
    rw [chain_onwards inTurn short]
    apply EnsuresQuietly.bind
    apply EnsuresQuietly.of_ensures
    apply ensures_makeNode.mono _ fun _ _ => trivial
    rintro id after ⟨spares, -, isOnwards⟩ _
    apply EnsuresQuietly.pure
    refine ⟨?_, spares.mono fun _ member => absurd member List.not_mem_nil⟩
    apply KeepsTargets.onwards inTurn short isOnwards
    intro target member
    obtain ⟨link, isTarget, noTunnel, -⟩ :=
      (holds.of_adds spares).targets target member
    exact ⟨link, isTarget, noTunnel⟩
  · have later : isFirst = false :=
      Bool.eq_false_iff.mpr fun first => short (ends first)
    have isError : (!isFirst && decide (1 < rest.length)) = true := by
      simpa [later] using short
    simp only [FinishesChain, chain, isError]
    exact .bind (.error unmarked)

/-- A target becomes a tunnel if anything follows it, and stays what it is then. -/
theorem finishesChain_target
    {divert : NodeId}
    (unmarked : machine.stack.top.reported = false)
    (holds : machine.host.draft.HoldsTargets (targetsOf (.target divert :: rest)))
    (inTurn : InTurn true rest)
    (finishes :
      ∀ {middle : Machine Workshop},
        middle.stack.top.reported = false →
        middle.host.draft.HoldsTargets (targetsOf rest) →
        FinishesChain library maxDepth files levels false rest middle) :
    FinishesChain library maxDepth files levels isFirst
      (.target divert :: rest) machine := by
  obtain ⟨⟨link, isTarget, noTunnel, notEmpty⟩, holdsRest, notLater⟩ :=
    holds.uncons
  have goesOn
      {middle : Machine Workshop}
      (isTargetThen :
        middle.host.draft.kind? divert =
          some (.divert { link with isTunnel := !rest.isEmpty }))
      (spares : Draft.Spares [divert] machine.host.draft middle.host.draft)
      (unmarkedThen : middle.stack.top.reported = false) :
      EnsuresQuietly library maxDepth files levels
        (do return divert :: (← chain false rest)) middle
        (fun nodes after =>
          KeepsTargets after.host.draft.kind? (.target divert :: rest) nodes ∧
            Draft.Spares (targetsOf (.target divert :: rest))
              machine.host.draft after.host.draft)
        (fun _ => True) := by
    have holdsThen :=
      holdsRest.of_spares spares (List.disjoint_singleton.mpr notLater)
    apply EnsuresQuietly.bind
    apply (finishes unmarkedThen holdsThen).mono _ fun _ _ => trivial
    rintro nodes after ⟨keeps, sparesThen⟩ _
    apply EnsuresQuietly.pure
    refine ⟨?_, spares.cons sparesThen⟩
    have isTargetStill := sparesThen.stays isTargetThen notLater
    exact keeps.target inTurn isTargetStill notEmpty rfl notLater
  cases rest with
  | nil =>
      apply goesOn _ (.refl _ _) unmarked
      rw [isTarget, List.isEmpty_nil, Bool.not_true, ← noTunnel]
  | cons next rest =>
      apply EnsuresQuietly.bind
      apply EnsuresQuietly.of_ensures
      apply (ensures_amend isTarget).mono _ fun _ _ => trivial
      rintro - middle ⟨isTunnel, spares⟩ toMiddle
      exact goesOn isTunnel spares (toMiddle.unmarked unmarked)

/-- Without a complaint a chain loses no target, unless it goes on behind a first double arrow. -/
theorem finishesChain
    {isArrow : Bool}
    (unmarked : machine.stack.top.reported = false)
    (holds : machine.host.draft.HoldsTargets (targetsOf links))
    (inTurn : InTurn isArrow links)
    (ends : isFirst = true → ¬ LeadsPastOnwards links) :
    FinishesChain library maxDepth files levels isFirst links machine := by
  induction links generalizing machine isFirst isArrow with
  | nil =>
      exact .pure ⟨keepsTargets_nil, .refl _ _⟩
  | cons link rest inductionHypothesis =>
      match link, isArrow, inTurn with
      | .arrow .plain, true, inTurn =>
          have finishes :
              FinishesChain library maxDepth files levels false rest machine :=
            inductionHypothesis unmarked holds inTurn nofun
          apply finishes.mono _ fun _ _ => trivial
          rintro nodes after ⟨keeps, spares⟩
          exact ⟨keeps.plain, spares⟩
      | .arrow .onwards, true, inTurn =>
          have inTurnThen : InTurn false rest := inTurn
          have holdsRest : machine.host.draft.HoldsTargets (targetsOf rest) := holds
          apply finishesChain_onwards unmarked holdsRest inTurnThen
          intro first
          by_contra isLong
          have pastTwo : 2 < (Link.arrow .onwards :: rest).length := by
            rw [List.length_cons]
            omega
          exact ends first ⟨rfl, pastTwo⟩
      | .target divert, false, inTurn =>
          have inTurnThen : InTurn true rest := inTurn
          apply finishesChain_target unmarked holds inTurnThen
          intro middle unmarkedThen holdsThen
          exact inductionHypothesis unmarkedThen holdsThen inTurnThen nofun

end Making

section Reading

/-- Arrows and targets in turn, as they are read. -/
def chainLinks : GrammarRule (List Link) :=
  Rule.alternate
    (do return .one (.arrow (← arrow)))
    (do return .one (.target (← Rule.parse target)))

/-- A target is a new divert that is no tunnel. -/
theorem ensures_parse_target :
    Ensures library maxDepth files levels (Rule.parse target) machine
      (fun id after =>
        machine.host.draft.size ≤ id.index ∧
          ∃ link : Divert,
            after.host.draft.kind? id = some (.divert link) ∧
              link.isTunnel = false ∧
              link.isEmpty = false)
      (fun _ => True) := by
  have isTarget :
      Ensures library maxDepth files levels (Rule.parse target) machine
        (fun id after =>
          ∃ link : Divert,
            after.host.draft.kind? id = some (.divert link) ∧
              link.isTunnel = false ∧
              link.isEmpty = false)
        (fun _ => True) := by
    apply ensures_parse_kept
    apply ensures_behind
    intro _ _
    apply ensures_behind
    intro components _
    apply ensures_behind
    intro _ _
    apply ensures_behind
    intro arguments _
    apply ensures_behind
    intro _ _
    apply ensures_behind
    intro path _
    apply ensures_make
    intro id after _ isKind closed closes
    exact ⟨_, by rw [kind?_of_closes_keep closes, isKind], rfl, rfl⟩
  apply
    ((ensures_adds IsRule.target.adds.parse).and isTarget).mono _
      fun _ _ => trivial
  rintro id after ⟨⟨-, isNew⟩, isTarget⟩
  exact ⟨isNew id (List.mem_singleton_self id), isTarget⟩

/-- An arrow of a chain makes no nodes. -/
theorem ensures_parse_arrowLink :
    Ensures library maxDepth files levels
      (Rule.parse (do return Step.one (Link.arrow (← arrow)))) machine
      (fun step after =>
        Draft.Spares [] machine.host.draft after.host.draft ∧
          ∃ arrow, step = .one (.arrow arrow))
      (fun after => Draft.Spares [] machine.host.draft after.host.draft) := by
  have asks :
      (do return Step.one (Link.arrow (← arrow)) :
        GrammarRule (Step Link)).Asks [] := by
    simp
  have isArrow :
      Ensures library maxDepth files levels
        (Rule.parse (do return Step.one (Link.arrow (← arrow)))) machine
        (fun step _ => ∃ arrow, step = .one (.arrow arrow))
        (fun _ => True) := by
    apply ensures_parse_kept
    apply ensures_behind
    intro arrow _
    apply ensures_pure
    intro _ _
    exact ⟨arrow, rfl⟩
  apply ((ensures_adds asks.adds.parse).and isArrow).mono
  · rintro step after ⟨⟨spares, -⟩, isArrow⟩
    exact ⟨spares, isArrow⟩
  · exact fun _ held => held.1

/-- A target of a chain makes a new divert. -/
theorem ensures_parse_targetLink :
    Ensures library maxDepth files levels
      (Rule.parse (do return Step.one (Link.target (← Rule.parse target))))
      machine
      (fun step after =>
        Draft.Spares [] machine.host.draft after.host.draft ∧
          ∃ divert,
            step = .one (.target divert) ∧
              machine.host.draft.size ≤ divert.index ∧
              ∃ link : Divert,
                after.host.draft.kind? divert = some (.divert link) ∧
                  link.isTunnel = false ∧
                  link.isEmpty = false)
      (fun after => Draft.Spares [] machine.host.draft after.host.draft) := by
  have adds :
      (do return Step.one (Link.target (← Rule.parse target)) :
        GrammarRule (Step Link)).Adds :=
    IsRule.target.adds.parse.bind fun divert =>
      (Rule.asks_pure (Step.one (Link.target divert))).adds
  have isTarget :
      Ensures library maxDepth files levels
        (Rule.parse (do return Step.one (Link.target (← Rule.parse target))))
        machine
        (fun step after =>
          ∃ divert,
            step = .one (.target divert) ∧
              machine.host.draft.size ≤ divert.index ∧
              ∃ link : Divert,
                after.host.draft.kind? divert = some (.divert link) ∧
                  link.isTunnel = false ∧
                  link.isEmpty = false)
        (fun _ => True) := by
    apply ensures_parse_kept
    apply ensures_bind
    apply ensures_parse_target.mono _ fun _ _ => trivial
    rintro divert after ⟨isNew, link, isTarget, fresh⟩
    apply ensures_pure
    intro closed closes
    refine ⟨divert, rfl, isNew, link, ?_, fresh⟩
    rw [kind?_of_closes_keep closes, isTarget]
  apply ((ensures_adds adds.parse).and isTarget).mono
  · rintro step after ⟨⟨spares, -⟩, isTarget⟩
    exact ⟨spares, isTarget⟩
  · exact fun _ held => held.1

/-- The links of a chain: arrows and targets in turn, where each target is a fresh divert. -/
structure AreLinks
    (links : List Link)
    (machine : Machine Workshop) : Prop where
  nonempty : links ≠ []
  inTurn : InTurn true links
  targets : machine.host.draft.HoldsTargets (targetsOf links)

theorem AreLinks.closes
    {number : RuleId}
    {kept : List NodeId}
    {closed : Machine Workshop}
    (areLinks : AreLinks links machine)
    (closes : Rule.Closes (.keep kept) number machine closed) :
    AreLinks links closed where
  nonempty := areLinks.nonempty
  inTurn := areLinks.inTurn
  targets := areLinks.targets.closes closes

theorem AreLinks.of_adds
    {after : Machine Workshop}
    (areLinks : AreLinks links machine)
    (spares : Draft.Spares [] machine.host.draft after.host.draft) :
    AreLinks links after where
  nonempty := areLinks.nonempty
  inTurn := areLinks.inTurn
  targets := areLinks.targets.of_adds spares

/-- The links of a chain up to an arrow, behind which a target may come next. -/
structure AwaitTarget
    (links : List Link)
    (machine : Machine Workshop) : Prop where
  nonempty : links ≠ []
  inTurn : ∀ more, InTurn false more → InTurn true (links ++ more)
  targets : machine.host.draft.HoldsTargets (targetsOf links)

namespace AwaitTarget

variable
    {after : Machine Workshop}
    {divert : NodeId}

theorem areLinks
    (awaits : AwaitTarget links machine) :
    AreLinks links machine where
  nonempty := awaits.nonempty
  inTurn := by
    rw [← List.append_nil links]
    exact awaits.inTurn [] trivial
  targets := awaits.targets

theorem of_adds
    (awaits : AwaitTarget links machine)
    (spares : Draft.Spares [] machine.host.draft after.host.draft) :
    AwaitTarget links after where
  nonempty := awaits.nonempty
  inTurn := awaits.inTurn
  targets := awaits.targets.of_adds spares

theorem target
    (awaits : AwaitTarget links machine)
    (holds : after.host.draft.HoldsTargets (targetsOf links ++ [divert])) :
    AreLinks (links ++ [.target divert]) after where
  nonempty := by simp
  inTurn := awaits.inTurn [.target divert] trivial
  targets := by
    rw [targetsOf, List.filterMap_append]
    exact holds

theorem target_arrow
    (awaits : AwaitTarget links machine)
    (holds : after.host.draft.HoldsTargets (targetsOf links ++ [divert]))
    (arrow : Arrow) :
    AwaitTarget (links ++ [.target divert] ++ [.arrow arrow]) after where
  nonempty := by simp
  inTurn := by
    intro more inTurn
    rw [List.append_assoc, List.append_assoc]
    exact awaits.inTurn (.target divert :: .arrow arrow :: more) inTurn
  targets := by
    have same :
        targetsOf (links ++ [.target divert] ++ [.arrow arrow]) =
          targetsOf links ++ [divert] := by
      simp [targetsOf]
    rw [same]
    exact holds

end AwaitTarget

/-- One round of the loop reads a target and an arrow, or ends the chain. -/
theorem ensures_chainRound
    (awaits : AwaitTarget links machine) :
    Ensures library maxDepth files levels
      (Rule.alternateRound
        (do return .one (.arrow (← arrow)))
        (do return .one (.target (← Rule.parse target)))
        (Rule.fail : GrammarRule Unit) links)
      machine
      (fun result after =>
        match result with
        | .inl next => AwaitTarget next after
        | .inr found => AreLinks found after)
      (fun _ => True) := by
  have peeks : (Rule.peek (Rule.fail : GrammarRule Unit)).Asks [] :=
    Rule.asks_peek.mpr Rule.asks_fail
  apply ensures_bind
  apply (ensures_adds peeks.adds).mono _ fun _ _ => trivial
  rintro isStop peeked ⟨spares, -⟩
  have awaits := awaits.of_adds spares
  cases isStop with
  | true =>
      exact ensures_pure awaits.areLinks
  | false =>
      apply ensures_bind
      apply ensures_attempt
      apply ensures_parse_targetLink.mono
      · rintro _ targeted
          ⟨spares, divert, rfl, isNew, link, isTarget, noTunnel, notEmpty⟩
        have holds :=
          awaits.targets.snoc spares isNew isTarget noTunnel notEmpty
        apply ensures_bind
        apply ensures_attempt
        apply ensures_parse_arrowLink.mono
        · rintro _ pointed ⟨spares, arrow, rfl⟩
          have goesOn := awaits.target_arrow (holds.of_adds spares) arrow
          have asks : (Rule.atEnd : GrammarRule Bool).Asks [] :=
            Rule.asks_atEnd
          apply ensures_bind
          apply (ensures_adds asks.adds).mono _ fun _ _ => trivial
          rintro ended after ⟨spares, -⟩
          cases ended with
          | true =>
              exact ensures_pure (goesOn.of_adds spares).areLinks
          | false =>
              exact ensures_pure (goesOn.of_adds spares)
        · intro failed spares
          exact ensures_pure (awaits.target (holds.of_adds spares))
      · intro failed spares
        exact ensures_pure (awaits.of_adds spares).areLinks

/-- Arrows and targets are read in turn, an arrow first, and each target is a new divert. -/
theorem ensures_chainLinks :
    Ensures library maxDepth files levels chainLinks machine
      AreLinks (fun _ => True) := by
  apply ensures_parse_kept
  apply ensures_bind
  apply ensures_parse_arrowLink.mono _ fun _ _ => trivial
  rintro _ first ⟨-, arrow, rfl⟩
  apply ensures_bind
  apply ensures_loop AwaitTarget
  · exact
      { nonempty := List.cons_ne_nil _ _
        inTurn := fun _ inTurn => inTurn
        targets := ⟨List.nodup_nil, nofun⟩ }
  · intro found middle awaits
    apply (ensures_chainRound awaits).mono _ fun _ _ => trivial
    intro result after held
    cases result with
    | inl next =>
        exact held
    | inr found =>
        -- The whole is kept only if there are links, which is always so.
        have notEmpty : found.isEmpty = false := by
          simpa using held.nonempty
        simp only [notEmpty, Bool.false_eq_true, ↓reduceIte]
        apply ensures_pure
        intro closed closes
        exact held.closes closes

end Reading

section Chains

/-- The end of a tag makes at most a marker. -/
theorem ensures_markers :
    Ensures library maxDepth files levels closeTag machine
      (fun markers after =>
        Draft.Spares [] machine.host.draft after.host.draft ∧
          ∀ marker ∈ markers,
            after.host.draft.kind? marker = some (.tag false))
      (fun _ => True) := by
  apply ensures_bind
  apply ensures_hasFlag
  split
  next =>
    apply ensures_bind
    apply ensures_makeNode.mono _ fun _ _ => trivial
    rintro marker made ⟨spares, -, isMarker⟩
    apply ensures_bind
    apply ensures_setFlag
    apply ensures_pure
    exact ⟨spares, List.forall_mem_singleton.mpr isMarker⟩
  next =>
    exact ensures_pure ⟨.refl _ _, nofun⟩

/-- Without a complaint the nodes for links keep the targets, unless a double arrow leads. -/
theorem ensuresQuietly_chain
    (unmarked : machine.stack.top.reported = false)
    (areLinks : AreLinks links machine) :
    EnsuresQuietly library maxDepth files levels (chain true links) machine
      (fun nodes after =>
        (KeepsTargets after.host.draft.kind? links nodes ↔
            ¬ LeadsPastOnwards links) ∧
          Draft.Spares (targetsOf links) machine.host.draft after.host.draft)
      (fun _ => True) := by
  by_cases past : LeadsPastOnwards links
  · obtain ⟨rest, rfl⟩ := List.head?_eq_some_iff.mp past.1
    simp only [chain, Bool.not_true, Bool.false_and, Bool.false_eq_true,
      ↓reduceIte]
    apply EnsuresQuietly.bind
    apply EnsuresQuietly.of_ensures
    apply ensures_makeNode.mono _ fun _ _ => trivial
    rintro onwards after ⟨spares, -⟩ _
    apply EnsuresQuietly.pure
    refine ⟨?_, spares.mono fun _ member => absurd member List.not_mem_nil⟩
    apply iff_of_false _ (not_not_intro past)
    apply not_keepsTargets past areLinks.inTurn
    intro target member
    obtain ⟨link, isTarget, noTunnel, -⟩ :=
      (areLinks.targets.of_adds spares).targets target member
    exact ⟨link, isTarget, noTunnel⟩
  · have finishes :
        FinishesChain library maxDepth files levels true links machine :=
      finishesChain unmarked areLinks.targets areLinks.inTurn fun _ => past
    apply finishes.mono _ fun _ _ => trivial
    rintro nodes after ⟨keeps, spares⟩
    exact ⟨iff_of_true keeps past, spares⟩

/-- Markers and an empty divert keep the targets of an arrow alone, as there are none. -/
theorem ensuresQuietly_emptyDivert
    {markers : List NodeId}
    (arrow : Arrow)
    (areMarkers :
      ∀ marker ∈ markers,
        machine.host.draft.kind? marker = some (.tag false))
    (unmarked : machine.stack.top.reported = false) :
    EnsuresQuietly library maxDepth files levels
      (do
        let empty ← make (.divert { isEmpty := true })
        if !(← Rule.effect .isInChoice) then
          Rule.error "Empty diverts (->) are only valid on choices"
        return markers ++ [empty])
      machine
      (fun nodes after =>
        KeepsTargets after.host.draft.kind? [.arrow arrow] nodes)
      (fun _ => True) := by
  apply EnsuresQuietly.bind
  apply EnsuresQuietly.of_ensures
  apply ensures_makeNode.mono _ fun _ _ => trivial
  rintro empty made ⟨spares, -, isEmpty⟩ toMade
  have asks : (Rule.effect .isInChoice : GrammarRule Bool).Asks [] :=
    Rule.asks_isInChoice
  apply EnsuresQuietly.bind
  apply EnsuresQuietly.of_ensures
  apply (ensures_adds asks.adds).mono _ fun _ _ => trivial
  rintro inChoice asked ⟨sparesThen, -⟩ toAsked
  cases inChoice with
  | false =>
      exact .bind (.error (toAsked.unmarked (toMade.unmarked unmarked)))
  | true =>
      have markersStay :
          ∀ marker ∈ markers,
            asked.host.draft.kind? marker = some (.tag false) := by
        intro marker member
        have isMarker := spares.stays (areMarkers marker member) nofun
        exact sparesThen.stays isMarker nofun
      have emptyStays := sparesThen.stays isEmpty nofun
      apply EnsuresQuietly.pure
      rw [keepsTargets_append_iff markersStay]
      exact keepsTargets_empty emptyStays rfl

/-- What is made of links: the end of a tag, their nodes, or an empty divert. -/
def finishedChain (links : List Link) : GrammarRule (List NodeId) := do
  let markers ← closeTag
  let nodes ← chain true links
  if nodes.isEmpty && links.length == 1 then
    let empty ← make (.divert { isEmpty := true })
    if !(← Rule.effect .isInChoice) then
      Rule.error "Empty diverts (->) are only valid on choices"
    return markers ++ [empty]
  else return markers ++ nodes

theorem ensuresQuietly_finishedChain
    (unmarked : machine.stack.top.reported = false)
    (areLinks : AreLinks links machine) :
    EnsuresQuietly library maxDepth files levels (finishedChain links) machine
      (fun nodes after =>
        KeepsTargets after.host.draft.kind? links nodes ↔
          ¬ LeadsPastOnwards links)
      (fun _ => True) := by
  apply EnsuresQuietly.bind
  apply EnsuresQuietly.of_ensures
  apply ensures_markers.mono _ fun _ _ => trivial
  rintro markers marked ⟨spares, areMarkers⟩ toMarked
  have areLinks := areLinks.of_adds spares
  have unmarkedThen := toMarked.unmarked unmarked
  apply EnsuresQuietly.bind
  apply (ensuresQuietly_chain unmarkedThen areLinks).mono _ fun _ _ => trivial
  rintro nodes chained ⟨iff, sparesMarkers⟩ toChained
  -- The markers are no targets, so the chain has left them alone.
  have stillMarkers :
      ∀ marker ∈ markers, chained.host.draft.kind? marker = some (.tag false) := by
    intro marker member
    have isMarker := areMarkers marker member
    apply sparesMarkers.stays isMarker
    intro isTarget
    obtain ⟨link, isDivert, -⟩ := areLinks.targets.targets marker isTarget
    rw [isMarker] at isDivert
    cases isDivert
  split
  next alone =>
    obtain ⟨-, single⟩ := Bool.and_eq_true_iff.mp alone
    have single : links.length = 1 := by simpa using single
    obtain ⟨arrow, rfl⟩ : ∃ arrow, links = [.arrow arrow] := by
      match links, areLinks.inTurn, single with
      | [.arrow arrow], _, _ =>
          exact ⟨arrow, rfl⟩
    apply
      (ensuresQuietly_emptyDivert arrow stillMarkers
        (toChained.unmarked unmarkedThen)).mono _ fun _ _ => trivial
    intro nodes after keeps
    apply iff_of_true keeps
    rintro ⟨-, isLong⟩
    simp at isLong
  next =>
    apply EnsuresQuietly.pure
    rwa [keepsTargets_append_iff stillMarkers]

/-- The links of a chain, where there is no thread. -/
def leadingLinks : GrammarRule (List Link) := do
  skipBlanks
  match ← Rule.attempt (Rule.parse thread) with
  | some _ => Rule.fail
  | none => chainLinks

theorem ensures_leadingLinks :
    Ensures library maxDepth files levels leadingLinks machine
      AreLinks (fun _ => True) := by
  apply ensures_behind
  intro _ _
  apply ensures_behind
  intro found _
  cases found with
  | some divert =>
      exact trivial
  | none =>
      exact ensures_chainLinks

/-- Where links are read, diverts are what is made of them. -/
theorem outcome_diverts
    {linked : Machine Workshop}
    (areRead :
      Site.outcome library maxDepth ⟨files, levels, leadingLinks, machine⟩ =
        .matched links linked) :
    Site.outcome library maxDepth ⟨files, levels, diverts, machine⟩ =
      Site.outcome library maxDepth
        ⟨files, levels, leadingLinks >>= finishedChain, machine⟩ := by
  simp only [leadingLinks, diverts, outcome_bind] at areRead ⊢
  cases skips :
    Site.outcome library maxDepth ⟨files, levels, skipBlanks, machine⟩ with
  | matched _ dark =>
      simp only [skips, Outcome.andThen] at areRead ⊢
      cases tries :
        Site.outcome library maxDepth
          ⟨files, levels, Rule.attempt (Rule.parse thread), dark⟩ with
      | matched found unthreaded =>
          rw [tries] at areRead
          cases found with
          | some divert =>
              cases areRead
          | none =>
              rfl
      | failed _ =>
          rfl
      | faulted _ =>
          rfl
  | failed _ =>
      rfl
  | faulted _ =>
      rfl

/-- Nodes that are made of links without a complaint keep their targets. -/
theorem ensuresQuietly_diverts
    {linked : Machine Workshop}
    (unmarked : machine.stack.top.reported = false)
    (areRead :
      Site.outcome library maxDepth ⟨files, levels, leadingLinks, machine⟩ =
        .matched links linked) :
    EnsuresQuietly library maxDepth files levels diverts machine
      (fun nodes after =>
        KeepsTargets after.host.draft.kind? links nodes ↔
          ¬ LeadsPastOnwards links)
      (fun _ => True) := by
  have joined :
      EnsuresQuietly library maxDepth files levels
        (leadingLinks >>= finishedChain) machine
        (fun nodes after =>
          KeepsTargets after.host.draft.kind? links nodes ↔
            ¬ LeadsPastOnwards links)
        (fun _ => True) := by
    apply EnsuresQuietly.bind
    apply EnsuresQuietly.of_ensures
    apply
      ((ensures_of_matched areRead).and ensures_leadingLinks).mono _
        fun _ _ => trivial
    rintro _ _ ⟨⟨rfl, rfl⟩, areLinks⟩ toLinked
    exact ensuresQuietly_finishedChain (toLinked.unmarked unmarked) areLinks
  rw [EnsuresQuietly, Ensures, outcome_diverts areRead]
  exact joined

/-- A chain that is read without a complaint loses no target, but for one of more than two
links that begins with a double arrow. -/
theorem diverts_keep_targets_iff
    {linked after : Machine Workshop}
    (areRead :
      Site.outcome library maxDepth
          ⟨files, levels, leadingLinks, machine.opened⟩ =
        .matched links linked)
    (matched :
      Site.outcome library maxDepth
          ⟨files, levels, Rule.parse diverts, machine⟩ =
        .matched nodes after)
    (quiet : after.delivered = machine.delivered) :
    KeepsTargets after.host.draft.kind? links nodes ↔
      ¬ LeadsPastOnwards links := by
  have ensured :
      EnsuresQuietly library maxDepth files levels (Rule.parse diverts) machine
        (fun nodes after =>
          KeepsTargets after.host.draft.kind? links nodes ↔
            ¬ LeadsPastOnwards links)
        (fun _ => True) := by
    apply EnsuresQuietly.parse
    apply (ensuresQuietly_diverts rfl areRead).mono _ fun _ _ _ _ => trivial
    intro nodes inside iff closed closes
    have same : closed.host.draft.kind? = inside.host.draft.kind? :=
      funext (kind?_of_closes_keep closes)
    rwa [same]
  exact (Outcome.ensures_iff.mp ensured).1 nodes after matched quiet

/-- A machine before a chain. -/
def beforeChain (text : String) : Machine Workshop :=
  .start text.toList 200 { file := none, session := {} }

/-- Two tunnels and a tunnel back out keep the three targets of their chain. -/
theorem diverts_of_tunnels_keep_targets :
    ∃ links nodes after,
      Site.outcome (.ofFiles []) 200
          ⟨0, 20, Rule.parse diverts, beforeChain "-> a -> b ->-> c\n"⟩ =
        .matched nodes after ∧
      (targetsOf links).length = 3 ∧
      KeepsTargets after.host.draft.kind? links nodes := by
  have evaluated :
      Site.yields (.ofFiles []) 200
          ⟨0, 20, leadingLinks, (beforeChain "-> a -> b ->-> c\n").opened⟩
          (fun links =>
            (targetsOf links).length == 3 && !decide (LeadsPastOnwards links)) =
        true ∧
      Site.yields (.ofFiles []) 200
          ⟨0, 20, Rule.parse diverts, beforeChain "-> a -> b ->-> c\n"⟩
          (fun _ => true) =
        true ∧
      (Site.after (.ofFiles []) 200
          ⟨0, 20, Rule.parse diverts,
            beforeChain "-> a -> b ->-> c\n"⟩).delivered =
        (beforeChain "-> a -> b ->-> c\n").delivered := by
    decide +kernel
  obtain ⟨linksYield, nodesYield, quiet⟩ := evaluated
  obtain ⟨links, isChain, areRead⟩ := Site.exists_matched_of_yields linksYield
  obtain ⟨nodes, -, matched⟩ := Site.exists_matched_of_yields nodesYield
  obtain ⟨three, notPast⟩ := Bool.and_eq_true_iff.mp isChain
  refine ⟨links, nodes, _, matched, by simpa using three, ?_⟩
  exact (diverts_keep_targets_iff areRead matched quiet).mpr (by simpa using notPast)

/-- A double arrow before a chain of two targets leads to the first of them only. -/
theorem divert_behind_onwards_lost :
    ∃ links nodes linked after,
      Site.outcome (.ofFiles []) 200
          ⟨0, 20, leadingLinks, (beforeChain "->-> a -> b\n").opened⟩ =
        .matched links linked ∧
      Site.outcome (.ofFiles []) 200
          ⟨0, 20, Rule.parse diverts, beforeChain "->-> a -> b\n"⟩ =
        .matched nodes after ∧
      after.delivered = (beforeChain "->-> a -> b\n").delivered ∧
      nodes.flatMap (carriedBy after.host.draft.kind?) = [⟨2⟩] ∧
      targetsOf links = [⟨2⟩, ⟨5⟩] ∧
      ¬ KeepsTargets after.host.draft.kind? links nodes := by
  have evaluated :
      Site.yields (.ofFiles []) 200
          ⟨0, 20, leadingLinks, (beforeChain "->-> a -> b\n").opened⟩
          (fun links => decide (targetsOf links = [⟨2⟩, ⟨5⟩])) =
        true ∧
      Site.yields (.ofFiles []) 200
          ⟨0, 20, Rule.parse diverts, beforeChain "->-> a -> b\n"⟩
          (fun nodes => decide (nodes = [⟨6⟩])) =
        true ∧
      (Site.after (.ofFiles []) 200
          ⟨0, 20, Rule.parse diverts,
            beforeChain "->-> a -> b\n"⟩).delivered =
        (beforeChain "->-> a -> b\n").delivered ∧
      List.flatMap
          (carriedBy
            (Site.after (.ofFiles []) 200
              ⟨0, 20, Rule.parse diverts,
                beforeChain "->-> a -> b\n"⟩).host.draft.kind?)
          [⟨6⟩] =
        [⟨2⟩] := by
    decide +kernel
  obtain ⟨linksYield, nodesYield, quiet, carried⟩ := evaluated
  obtain ⟨links, isChain, areRead⟩ := Site.exists_matched_of_yields linksYield
  obtain ⟨nodes, isOne, matched⟩ := Site.exists_matched_of_yields nodesYield
  have isChain : targetsOf links = [⟨2⟩, ⟨5⟩] := of_decide_eq_true isChain
  have isOne : nodes = [⟨6⟩] := of_decide_eq_true isOne
  subst isOne
  refine ⟨links, _, _, _, areRead, matched, quiet, carried, isChain, ?_⟩
  intro keeps
  have same := keeps.inOrder
  rw [carried, isChain] at same
  simp at same

end Chains

end Grammar

end InkSyntax
