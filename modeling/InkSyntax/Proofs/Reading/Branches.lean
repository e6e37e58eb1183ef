import InkSyntax.Proofs.Reading.Complaints
import InkSyntax.Proofs.Story.Arms

namespace InkSyntax

/-!
# The branches of a conditional

Branches are read in one line or behind dashes, and those behind dashes are settled
afterwards.  Whatever cannot be settled is an error; so if nothing is delivered, each
branch has become what it was to become at its place.
-/

/-- The end of a scope leaves arms alone. -/
theorem Draft.HoldsArms.closes
    {ids nodes : List NodeId}
    {arms : List Branch}
    {number : RuleId}
    {after closed : Machine Workshop}
    (holds : after.host.draft.HoldsArms ids arms)
    (closes : Rule.Closes (.keep nodes) number after closed) :
    closed.host.draft.HoldsArms ids arms := by
  refine ⟨holds.nodup, holds.kinds.imp ?_⟩
  intro id arm isArm
  rw [Grammar.kind?_of_closes_keep closes, isArm]

namespace Grammar

open Branch (AsRead Laid Settles SettleFrom AllSettle WellOrdered ElseFirst)
open Machine (Quiet)
open Reading (Site)

variable
    {library : Library}
    {maxDepth files levels : Nat}
    {machine : Machine Workshop}
    {α β : Type}
    {rule : GrammarRule α}

section Steps

theorem ensures_trivial :
    Ensures library maxDepth files levels rule machine
      (fun _ _ => True) (fun _ => True) :=
  Outcome.ensures_iff.mpr ⟨fun _ _ _ => trivial, fun _ _ => trivial⟩

/-- What holds behind a rule, whatever that one does. -/
theorem ensures_behind
    {next : α → GrammarRule β}
    {onMatch : β → Machine Workshop → Prop}
    (behind :
      ∀ value after,
        Ensures library maxDepth files levels (next value) after
          onMatch (fun _ => True)) :
    Ensures library maxDepth files levels (rule >>= next) machine
      onMatch (fun _ => True) :=
  ensures_bind
    (ensures_trivial.mono (fun value after _ => behind value after)
      fun _ _ => trivial)

variable
    {id : NodeId}
    {onFailure : Machine Workshop → Prop}

theorem ensures_branchOf
    {arm : Branch}
    {onMatch : Branch → Machine Workshop → Prop}
    (isArm : machine.host.draft.kind? id = some (.branch arm))
    (holds : onMatch arm machine) :
    Ensures library maxDepth files levels (branchOf id) machine
      onMatch onFailure :=
  ensures_bind (ensures_kindOf isArm (ensures_pure holds))

/-- Amending a node changes its kind, and no other node. -/
theorem ensures_amend
    {kind : StoryKind}
    {amendment : Amendment}
    (isKind : machine.host.draft.kind? id = some kind) :
    Ensures library maxDepth files levels (amend id amendment) machine
      (fun _ after =>
        after.host.draft.kind? id = some (amendment.apply kind) ∧
          Draft.Spares [id] machine.host.draft after.host.draft)
      (fun _ => True) := by
  have isThere : machine.host.draft.missingAmong? [id] = none :=
    Draft.missingAmong?_eq_none_iff.mpr (by
      simpa using Draft.lt_size_of_kind? isKind)
  simp only [Ensures, Site.outcome, Reading.performs, Rule.run_amend isThere]
  refine ⟨?_, Draft.spares_modify _ _ _⟩
  obtain ⟨slot, made, rfl⟩ := Option.map_eq_some_iff.mp isKind
  simp [Draft.kind?, Draft.slot?_modify, made]

/-- Making a node adds it, and leaves all others alone. -/
theorem ensures_makeNode
    {kind : StoryKind} :
    Ensures library maxDepth files levels (make kind) machine
      (fun id after =>
        Draft.Spares [] machine.host.draft after.host.draft ∧
          machine.host.draft.size ≤ id.index ∧
          after.host.draft.kind? id = some kind)
      (fun _ => True) := by
  refine ⟨Draft.spares_add _ _ _, Nat.le_refl _, ?_⟩
  exact congrArg (Option.map _) (Draft.slot?_add _ _ _)

end Steps

section Reading

/-- A branch behind a dash is read with no part yet, and an `else` has no condition. -/
theorem ensures_dashedBranch :
    Ensures library maxDepth files levels dashedBranch machine
      (fun id after =>
        ∃ arm,
          after.host.draft.kind? id = some (.branch arm) ∧ arm.AsRead)
      (fun _ => True) := by
  refine ensures_behind fun _ _ => ensures_behind fun isArrow _ => ?_
  cases isArrow with
  | true =>
      exact trivial
  | false =>
      refine ensures_behind fun _ _ => ensures_behind fun _ _ => ?_
      refine ensures_behind fun elseMark _ => ?_
      cases elseMark.isSome with
      | true =>
          refine
            ensures_bind
              (show Ensures _ _ _ _ (pure none) _ _ _ from ensures_pure ?_)
          refine ensures_behind fun content _ => ensures_behind fun _ _ => ?_
          refine ensures_make fun id after _ isKind => ⟨_, isKind, rfl, ?_⟩
          exact fun _ => rfl
      | false =>
          refine ensures_behind fun own _ => ensures_behind fun content _ => ?_
          refine ensures_behind fun _ _ => ?_
          refine ensures_make fun id after _ isKind => ⟨_, isKind, rfl, ?_⟩
          exact nofun

/-- A branch behind a dash is a new node. -/
theorem ensures_parse_dashedBranch :
    Ensures library maxDepth files levels (Rule.parse dashedBranch) machine
      (fun id after =>
        Draft.Spares [] machine.host.draft after.host.draft ∧
          machine.host.draft.size ≤ id.index ∧
          ∃ arm,
            after.host.draft.kind? id = some (.branch arm) ∧ arm.AsRead)
      (fun after =>
        Draft.Spares [] machine.host.draft after.host.draft) := by
  have read :
      Ensures library maxDepth files levels (Rule.parse dashedBranch) machine
        (fun id after =>
          ∃ arm,
            after.host.draft.kind? id = some (.branch arm) ∧ arm.AsRead)
        (fun _ => True) := by
    refine ensures_parse (ensures_dashedBranch.mono ?_ fun _ _ _ _ => trivial)
    rintro id after ⟨arm, isArm, asRead⟩ closed closes
    exact ⟨arm, by rw [kind?_of_closes_keep closes, isArm], asRead⟩
  refine
    ((ensures_adds IsRule.dashedBranch.adds.parse).and read).mono ?_
      fun _ held => held.1
  rintro id after ⟨⟨spares, isNew⟩, arm, isArm, asRead⟩
  exact ⟨spares, isNew id (List.mem_singleton_self id), arm, isArm, asRead⟩

/-- Branches behind dashes are different nodes with arms as they were read. -/
theorem ensures_dashedBranches :
    Ensures library maxDepth files levels dashedBranches machine
      (fun ids after =>
        ∃ arms,
          after.host.draft.HoldsArms ids arms ∧ ∀ arm ∈ arms, arm.AsRead)
      (fun _ => True) := by
  refine ensures_behind fun _ start => ensures_bind (ensures_bind ?_)
  refine
    ensures_loop
      (fun found after =>
        ∃ arms,
          after.host.draft.HoldsArms found arms ∧ ∀ arm ∈ arms, arm.AsRead)
      ⟨[], .nil, by simp⟩ ?_
  rintro found before ⟨arms, holds, asRead⟩
  refine
    ensures_bind
      (ensures_attempt (ensures_parse_dashedBranch.mono ?_ ?_))
  · rintro id after ⟨spares, isNew, arm, isArm, armAsRead⟩
    refine ensures_pure ⟨arm :: arms, (holds.of_adds spares).cons ?_ isArm, ?_⟩
    · exact fun member => Nat.not_lt_of_le isNew (holds.lt_size member)
    · exact List.forall_mem_cons.mpr ⟨armAsRead, asRead⟩
  · intro after spares
    have kept := (holds.of_adds spares).reverse
    change
      Ensures library maxDepth files levels
        (if found.reverse.isEmpty then Rule.fail else pure found.reverse)
        after _ _
    split
    · exact trivial
    · have blanks : (Rule.attempt blankLines).Asks [] :=
        Rule.asks_attempt.mpr asks_blankLines
      refine ensures_pure (ensures_bind ((ensures_adds blanks.adds).mono ?_ ?_))
      · rintro _ behind ⟨sparesBlanks, -⟩
        exact
          ⟨arms.reverse, kept.of_adds sparesBlanks, by simpa using asRead⟩
      · exact fun _ _ => trivial

/-- Statements may be followed by an `else`; any other branch is an error. -/
theorem ensuresQuietly_undashedBranches
    (unmarked : machine.stack.top.reported = false) :
    EnsuresQuietly library maxDepth files levels undashedBranches machine
      (fun ids after =>
        ∃ arms, after.host.draft.HoldsArms ids arms ∧ Laid true arms)
      (fun _ => True) := by
  refine .bind (.of_ensures (ensures_trivial.mono ?_ fun _ _ => trivial))
  intro content before _ toContent
  refine .bind (.of_ensures (ensures_makeNode.mono ?_ fun _ _ => trivial))
  rintro first made ⟨-, -, isFirst⟩ toFirst
  have firstAsRead : ({ content := content } : Branch).AsRead :=
    ⟨rfl, nofun⟩
  refine
    .bind (.attempt (.of_ensures (ensures_parse_dashedBranch.mono ?_ ?_)))
  · rintro second after ⟨spares, isNew, arm, isSecond, asRead⟩ toSecond
    have unmarkedThen : after.stack.top.reported = false :=
      toSecond.unmarked (toFirst.unmarked (toContent.unmarked unmarked))
    refine
      .bind (.bind (.of_ensures (ensures_branchOf isSecond fun toArm => ?_)))
    cases isElse : arm.isElse with
    | false =>
        -- A quiet run does not come by the error for a missing `else`.
        exact .bind (.errorAt (toArm.unmarked unmarkedThen))
    | true =>
        refine
          .pure fun _ => .pure ⟨[{ content := content }, arm], ?_, .asRead ?_ ?_⟩
        · exact .pair isFirst spares isNew isSecond
        · simpa using ⟨firstAsRead, asRead⟩
        · exact nofun
  · intro after spares _
    have held := Draft.HoldsArms.nil.cons List.not_mem_nil isFirst
    refine .pure ⟨_, held.of_adds spares, .asRead ?_ ?_⟩
    · simpa using firstAsRead
    · rintro - only ⟨⟩
      rfl

/-- Whether there is one arm only, and that one an `else`. -/
theorem ensures_onlyElse
    {ids : List NodeId}
    {arms : List Branch}
    (holds : machine.host.draft.HoldsArms ids arms) :
    Ensures library maxDepth files levels (onlyElse ids) machine
      (fun isOnlyElse after =>
        after = machine ∧
          (isOnlyElse = true ↔
            ∃ only, arms = [only] ∧ only.isElse = true))
      (fun _ => True) := by
  obtain ⟨-, kinds⟩ := holds
  cases kinds with
  | nil =>
      exact ensures_pure ⟨rfl, by simp⟩
  | @cons id arm _ _ isArm others =>
      cases others with
      | nil =>
          exact
            ensures_bind (ensures_branchOf isArm (ensures_pure ⟨rfl, by simp⟩))
      | cons _ _ =>
          exact ensures_pure ⟨rfl, by simp⟩

/-- The branches over several lines, before they are settled. -/
theorem ensuresQuietly_blockBranches
    (subject : Option NodeId)
    (unmarked : machine.stack.top.reported = false) :
    EnsuresQuietly library maxDepth files levels (blockBranches subject) machine
      (fun ids after =>
        ∃ arms,
          after.host.draft.HoldsArms ids arms ∧ Laid subject.isSome arms)
      (fun _ => True) := by
  have dashed :
      Ensures library maxDepth files levels (Rule.parse dashedBranches) machine
        (fun ids after =>
          ∃ arms,
            after.host.draft.HoldsArms ids arms ∧ ∀ arm ∈ arms, arm.AsRead)
        (fun _ => True) := by
    refine ensures_parse (ensures_dashedBranches.mono ?_ fun _ _ _ _ => trivial)
    rintro ids after ⟨arms, holds, asRead⟩ closed closes
    exact ⟨arms, holds.closes closes, asRead⟩
  refine .bind (.attempt (.of_ensures (dashed.mono ?_ ?_)))
  · rintro ids after ⟨arms, holds, asRead⟩ _
    refine
      .bind (.of_ensures ((ensures_onlyElse holds).mono ?_ fun _ _ => trivial))
    rintro isOnlyElse _ ⟨rfl, isOnlyElse_iff⟩ _
    split
    next both =>
      obtain ⟨onlyElse, hasSubject⟩ := Bool.and_eq_true_iff.mp both
      obtain ⟨only, rfl, isElse⟩ := isOnlyElse_iff.mp onlyElse
      refine .bind (.of_ensures (ensures_makeNode.mono ?_ fun _ _ => trivial))
      rintro added made ⟨spares, isNew, isBlank⟩ _
      refine .pure ⟨[.blank, only], (holds.of_adds spares).cons ?_ isBlank, ?_⟩
      · exact fun member => Nat.not_lt_of_le isNew (holds.lt_size member)
      · rw [hasSubject]
        exact .blankFirst (asRead only List.mem_cons_self) isElse
    next notBoth =>
      refine .pure ⟨arms, holds, .asRead asRead ?_⟩
      intro hasSubject only isOnly
      by_contra isElse
      have onlyElse :=
        isOnlyElse_iff.mpr ⟨only, isOnly, by simpa using isElse⟩
      exact notBoth (Bool.and_eq_true_iff.mpr ⟨onlyElse, hasSubject⟩)
  · intro after _ quiet
    cases subject with
    | none =>
        exact fun _ => trivial
    | some subject =>
        exact ensuresQuietly_undashedBranches (quiet.unmarked unmarked)

end Reading

section Settling

variable
    {count earlier : Nat}
    {earlierConditions : Bool}
    {id : NodeId}
    {raw : Branch}

/-- An arm was settled, and no other node than its own was touched. -/
def SettledOne
    (count earlier : Nat)
    (earlierConditions isLast compared : Bool)
    (id : NodeId)
    (raw : Branch)
    (before after : Machine Workshop) : Prop :=
  Draft.Spares [id] before.host.draft after.host.draft ∧
    ∃ arm,
      after.host.draft.kind? id = some (.branch arm) ∧
        Settles count earlier earlierConditions isLast raw compared arm

theorem ensuresQuietly_settleComparedBranch
    (isLast : Bool)
    (isRaw : machine.host.draft.kind? id = some (.branch raw))
    (unmarked : machine.stack.top.reported = false) :
    EnsuresQuietly library maxDepth files levels
      (settleComparedBranch count earlier earlierConditions isLast id raw)
      machine
      (fun _ =>
        SettledOne count earlier earlierConditions isLast true id raw machine)
      (fun _ => True) := by
  have amends
      {isTrueBranch isElse matchingEquality : Bool}
      (settles :
        Settles count earlier earlierConditions isLast raw true
          { raw with
            isTrueBranch := isTrueBranch
            isElse := isElse
            matchingEquality := matchingEquality }) :
      EnsuresQuietly library maxDepth files levels
        (amend id (.role isTrueBranch isElse matchingEquality)) machine
        (fun _ =>
          SettledOne count earlier earlierConditions isLast true id raw machine)
        (fun _ => True) :=
    .of_ensures ((ensures_amend isRaw).mono
      (fun _ _ amended => ⟨amended.2, _, amended.1, settles⟩)
      fun _ _ => trivial)
  unfold settleComparedBranch
  split
  next own =>
    exact amends (.value own)
  next noOwn =>
    have noOwn : raw.ownCondition = none := by simpa using noOwn
    split
    next last =>
      obtain ⟨hasConditions, last⟩ := Bool.and_eq_true_iff.mp last
      exact amends (.otherValues noOwn hasConditions last)
    next =>
      split
      next =>
        exact .errorAt unmarked
      next mayLack =>
        have mayLack : isLast = true ∨ count ≤ 2 := by
          cases isLast <;> simp_all
        split
        next isFirst =>
          exact amends (.holds noOwn mayLack (by simpa using isFirst))
        next notFirst =>
          exact amends (.holdsNot noOwn mayLack (by simpa using notFirst))

theorem ensuresQuietly_settleConditionBranch
    {last : NodeId}
    (count earlier : Nat)
    (earlierConditions isLast : Bool)
    (isRaw : machine.host.draft.kind? id = some (.branch raw))
    (unmarked : machine.stack.top.reported = false) :
    EnsuresQuietly library maxDepth files levels
      (settleConditionBranch last isLast id raw) machine
      (fun _ =>
        SettledOne count earlier earlierConditions isLast false id raw machine)
      (fun _ => True) := by
  unfold settleConditionBranch
  split
  next noOwn =>
    have noOwn : raw.ownCondition = none := by simpa using noOwn
    split
    next last =>
      exact
        .of_ensures ((ensures_amend isRaw).mono
          (fun _ _ amended => ⟨amended.2, _, amended.1, .otherCases noOwn last⟩)
          fun _ _ => trivial)
    next =>
      split
      next =>
        refine
          .bind (.of_ensures (ensures_trivial.mono ?_ fun _ _ => trivial))
        intro arm after _ quiet
        split
        next =>
          exact .errorAt (quiet.unmarked unmarked)
        next =>
          exact .errorAt (quiet.unmarked unmarked)
      next =>
        exact .errorAt unmarked
  next own =>
    have own : raw.ownCondition.isSome = true := by
      simpa [Option.isSome_iff_ne_none] using own
    exact .pure ⟨.refl _ _, raw, isRaw, .condition own⟩

/-- Arms were settled, and no other nodes than theirs were touched. -/
def SettledAll
    (count earlier : Nat)
    (earlierConditions compared : Bool)
    (ids : List NodeId)
    (arms : List Branch)
    (before after : Machine Workshop) : Prop :=
  Draft.Spares ids before.host.draft after.host.draft ∧
    ∃ settled,
      after.host.draft.HoldsArms ids settled ∧
        SettleFrom count compared earlier earlierConditions arms settled

/-- An arm is settled, and then those behind it are. -/
theorem SettledOne.followed
    {compared : Bool}
    {rest : List NodeId}
    {others : List Branch}
    {before middle after : Machine Workshop}
    (one :
      SettledOne count earlier earlierConditions others.isEmpty compared id raw
        before middle)
    (all :
      SettledAll count (earlier + 1)
        (earlierConditions || raw.ownCondition.isSome) compared rest others
        middle after)
    (notLater : id ∉ rest) :
    SettledAll count earlier earlierConditions compared (id :: rest)
      (raw :: others) before after := by
  obtain ⟨spares, arm, isArm, settles⟩ := one
  obtain ⟨sparesThen, settled, holds, settleThen⟩ := all
  have isStillArm :=
    (sparesThen.kind? (Draft.lt_size_of_kind? isArm) notLater).trans isArm
  exact
    ⟨spares.cons sparesThen, arm :: settled, holds.cons notLater isStillArm,
      .cons settles settleThen⟩

/-- Settling under a subject settles all arms, from the first to the last. -/
theorem ensuresQuietly_settleCompared
    {ids : List NodeId}
    {arms : List Branch}
    (holds : machine.host.draft.HoldsArms ids arms)
    (unmarked : machine.stack.top.reported = false) :
    EnsuresQuietly library maxDepth files levels
      (settleCompared count earlier earlierConditions ids) machine
      (fun _ =>
        SettledAll count earlier earlierConditions true ids arms machine)
      (fun _ => True) := by
  induction ids generalizing earlier earlierConditions machine arms with
  | nil =>
      cases holds.kinds
      exact .pure ⟨.refl _ _, [], .nil, .nil⟩
  | cons id rest inductionHypothesis =>
      obtain ⟨raw, others, rfl, isRaw, holdsRest, notLater⟩ := holds.uncons
      refine .bind (.of_ensures (ensures_branchOf isRaw fun _ => ?_))
      rw [holdsRest.isEmpty]
      refine
        .bind
          ((ensuresQuietly_settleComparedBranch _ isRaw unmarked).mono ?_
            fun _ _ => trivial)
      intro _ middle one toMiddle
      have holdsThen :=
        holdsRest.of_spares one.1 (List.disjoint_singleton.mpr notLater)
      exact
        (inductionHypothesis holdsThen (toMiddle.unmarked unmarked)).mono
          (fun _ _ all => one.followed all notLater) fun _ _ => trivial

/-- Settling without a subject settles all arms, from the first to the last. -/
theorem ensuresQuietly_settleConditions
    {last : NodeId}
    {ids : List NodeId}
    {arms : List Branch}
    (holds : machine.host.draft.HoldsArms ids arms)
    (unmarked : machine.stack.top.reported = false) :
    EnsuresQuietly library maxDepth files levels (settleConditions last ids)
      machine
      (fun _ =>
        SettledAll count earlier earlierConditions false ids arms machine)
      (fun _ => True) := by
  induction ids generalizing earlier earlierConditions machine arms with
  | nil =>
      cases holds.kinds
      exact .pure ⟨.refl _ _, [], .nil, .nil⟩
  | cons id rest inductionHypothesis =>
      obtain ⟨raw, others, rfl, isRaw, holdsRest, notLater⟩ := holds.uncons
      refine .bind (.of_ensures (ensures_branchOf isRaw fun _ => ?_))
      rw [holdsRest.isEmpty]
      refine
        .bind
          ((ensuresQuietly_settleConditionBranch count earlier earlierConditions
            _ isRaw unmarked).mono ?_ fun _ _ => trivial)
      intro _ middle one toMiddle
      have holdsThen :=
        holdsRest.of_spares one.1 (List.disjoint_singleton.mpr notLater)
      exact
        (inductionHypothesis holdsThen (toMiddle.unmarked unmarked)).mono
          (fun _ _ all => one.followed all notLater) fun _ _ => trivial

theorem ensuresQuietly_settleBranches
    {subject : Option NodeId}
    {ids : List NodeId}
    {arms : List Branch}
    (holds : machine.host.draft.HoldsArms ids arms)
    (unmarked : machine.stack.top.reported = false) :
    EnsuresQuietly library maxDepth files levels (settleBranches subject ids)
      machine
      (fun _ after =>
        ∃ settled,
          after.host.draft.HoldsArms ids settled ∧
            AllSettle subject.isSome arms settled)
      (fun _ => True) := by
  cases subject with
  | some subject =>
      have sameLength : ids.length = arms.length := holds.kinds.length_eq
      simp only [settleBranches, sameLength]
      exact
        (ensuresQuietly_settleCompared holds unmarked).mono
          (fun _ _ all => all.2) fun _ _ => trivial
  | none =>
      simp only [settleBranches]
      split
      next isNone =>
        cases isNone
      next isSome =>
        exact
          (ensuresQuietly_settleConditions holds unmarked).mono
            (fun _ _ all => all.2) fun _ _ => trivial
      next isEmpty =>
        cases holds.kinds with
        | nil =>
            exact .pure ⟨[], .nil, .nil⟩
        | cons _ _ =>
            simp at isEmpty

theorem ensures_amendAll_inline
    {ids : List NodeId}
    {arms : List Branch}
    (isInline : Bool)
    (holds : machine.host.draft.HoldsArms ids arms) :
    Ensures library maxDepth files levels (amendAll (.inline isInline) ids)
      machine
      (fun _ after =>
        Draft.Spares ids machine.host.draft after.host.draft ∧
          after.host.draft.HoldsArms ids
            (arms.map ({ · with isInline := isInline })))
      (fun _ => True) := by
  induction ids generalizing machine arms with
  | nil =>
      cases holds.kinds
      exact ensures_pure ⟨.refl _ _, .nil⟩
  | cons id rest inductionHypothesis =>
      obtain ⟨raw, others, rfl, isRaw, holdsRest, notLater⟩ := holds.uncons
      refine ensures_bind ((ensures_amend isRaw).mono ?_ fun _ _ => trivial)
      rintro - middle ⟨isArm, spares⟩
      have holdsThen :=
        holdsRest.of_spares spares (List.disjoint_singleton.mpr notLater)
      refine (inductionHypothesis holdsThen).mono ?_ fun _ _ => trivial
      rintro - after ⟨sparesThen, holdsAfter⟩
      have isStillArm :=
        (sparesThen.kind? (Draft.lt_size_of_kind? isArm) notLater).trans isArm
      exact
        ⟨spares.cons sparesThen, holdsAfter.cons notLater isStillArm⟩

/-- The branches over several lines, as they are settled. -/
theorem ensuresQuietly_settledBranches
    (subject : Option NodeId)
    (unmarked : machine.stack.top.reported = false) :
    EnsuresQuietly library maxDepth files levels (settledBranches subject)
      machine
      (fun ids after =>
        ∃ raws arms,
          after.host.draft.HoldsArms ids arms ∧
            Laid subject.isSome raws ∧ AllSettle subject.isSome raws arms)
      (fun _ => True) := by
  refine
    .bind
      ((ensuresQuietly_blockBranches subject unmarked).mono ?_
        fun _ _ => trivial)
  rintro ids middle ⟨raws, holds, laid⟩ toMiddle
  refine
    .bind
      ((ensuresQuietly_settleBranches holds (toMiddle.unmarked unmarked)).mono ?_
        fun _ _ => trivial)
  rintro - after ⟨arms, holdsThen, allSettle⟩ _
  exact .pure ⟨raws, arms, holdsThen, laid, allSettle⟩

/-- Branches in one line are like settled ones; more than two of them are an error. -/
theorem ensuresQuietly_inlineBranches
    (unmarked : machine.stack.top.reported = false) :
    EnsuresQuietly library maxDepth files levels inlineBranches machine
      (fun ids after =>
        ∃ raws arms,
          after.host.draft.HoldsArms ids arms ∧
            Laid true raws ∧ AllSettle true raws arms)
      (fun _ => True) := by
  refine .bind (.of_ensures (ensures_trivial.mono ?_ fun _ _ => trivial))
  intro contents middle _ toMiddle
  split
  next =>
    exact .pure ⟨[], [], .nil, .asRead (by simp) (by simp), .nil⟩
  next held =>
    refine .bind (.of_ensures (ensures_makeNode.mono ?_ fun _ _ => trivial))
    rintro only after ⟨-, -, isArm⟩ _
    refine
      .pure
        ⟨[{ content := held }], _, .cons .nil List.not_mem_nil isArm,
          .asRead ?_ ?_, .cons (.holds rfl (.inl rfl) rfl) .nil⟩
    · exact List.forall_mem_singleton.mpr ⟨rfl, nofun⟩
    · rintro - only ⟨⟩
      rfl
  next held otherwise =>
    refine .bind (.of_ensures (ensures_makeNode.mono ?_ fun _ _ => trivial))
    rintro first made ⟨-, -, isFirst⟩ _
    refine .bind (.of_ensures (ensures_makeNode.mono ?_ fun _ _ => trivial))
    rintro second after ⟨spares, isNew, isSecond⟩ _
    refine
      .pure
        ⟨[{ content := held }, { content := otherwise, isElse := true }], _,
          .pair isFirst spares isNew isSecond, .asRead ?_ nofun,
          .cons (.holds rfl (.inr (Nat.le_refl 2)) rfl)
            (.cons (.holdsNot rfl (.inl rfl) (by decide)) .nil)⟩
    simp only [List.forall_mem_cons]
    exact ⟨⟨rfl, nofun⟩, ⟨rfl, fun _ => rfl⟩, by simp⟩
  next =>
    exact .bind (.error (toMiddle.unmarked unmarked))

/-- The branches of a conditional are well ordered, but for a first `else` of two. -/
theorem ensuresQuietly_branches
    (subject : Option NodeId)
    (unmarked : machine.stack.top.reported = false) :
    EnsuresQuietly library maxDepth files levels (branches subject) machine
      (fun ids after =>
        ∃ arms,
          after.host.draft.HoldsArms ids arms ∧
            (WellOrdered arms ↔ ¬ (subject.isSome = true ∧ ElseFirst arms)))
      (fun _ => True) := by
  have inlined
      (isInline : Bool)
      {ids : List NodeId}
      {raws arms : List Branch}
      {middle : Machine Workshop}
      (holds : middle.host.draft.HoldsArms ids arms)
      (laid : Laid subject.isSome raws)
      (allSettle : AllSettle subject.isSome raws arms) :
      EnsuresQuietly library maxDepth files levels
        (do
          amendAll (.inline isInline) ids
          return ids)
        middle
        (fun ids after =>
          ∃ arms,
            after.host.draft.HoldsArms ids arms ∧
              (WellOrdered arms ↔ ¬ (subject.isSome = true ∧ ElseFirst arms)))
        (fun _ => True) := by
    refine
      .bind
        (.of_ensures
          ((ensures_amendAll_inline isInline holds).mono ?_ fun _ _ => trivial))
    rintro - after ⟨-, holdsThen⟩ _
    refine .pure ⟨_, holdsThen, ?_⟩
    rw [Branch.wellOrdered_map_inline, Branch.elseFirst_map_inline]
    exact allSettle.wellOrdered_iff laid
  refine .bind (.of_ensures (ensures_trivial.mono ?_ fun _ _ => trivial))
  intro lineEnd middle _ toMiddle
  have unmarkedThen := toMiddle.unmarked unmarked
  cases lineEnd with
  | some _ =>
      refine
        .bind
          ((ensuresQuietly_settledBranches subject unmarkedThen).mono ?_
            fun _ _ => trivial)
      rintro ids after ⟨raws, arms, holds, laid, allSettle⟩ _
      exact inlined false holds laid allSettle
  | none =>
      cases subject with
      | none =>
          exact fun _ => trivial
      | some subject =>
          refine
            .bind
              ((ensuresQuietly_inlineBranches unmarkedThen).mono ?_
                fun _ _ => trivial)
          rintro ids after ⟨raws, arms, holds, laid, allSettle⟩ _
          exact inlined true holds laid allSettle

end Settling

/-- Branches that are read in a scope of their own without a complaint are well ordered,
unless there are two under a subject and the first is an `else`. -/
theorem branches_wellOrdered_iff
    {subject : Option NodeId}
    {found : List NodeId}
    {after : Machine Workshop}
    (matched :
      Site.outcome library maxDepth
          ⟨files, levels, Rule.parse (branches subject), machine⟩ =
        .matched found after)
    (quiet : after.delivered = machine.delivered) :
    ∃ arms,
      after.host.draft.HoldsArms found arms ∧
        (WellOrdered arms ↔ ¬ (subject.isSome = true ∧ ElseFirst arms)) := by
  have read :
      EnsuresQuietly library maxDepth files levels
        (Rule.parse (branches subject)) machine
        (fun ids after =>
          ∃ arms,
            after.host.draft.HoldsArms ids arms ∧
              (WellOrdered arms ↔ ¬ (subject.isSome = true ∧ ElseFirst arms)))
        (fun _ => True) := by
    refine
      .parse
        ((ensuresQuietly_branches subject rfl).mono ?_ fun _ _ _ _ => trivial)
    rintro ids inside ⟨arms, holds, iff⟩ closed closes
    exact ⟨arms, holds.closes closes, iff⟩
  exact (Outcome.ensures_iff.mp read).1 found after matched quiet

/-- A machine behind the subject of a switch. -/
def behindSubject : Machine Workshop :=
  let switch := "x:\n- 1: one\n- else: many\n\x7d"
  let start : Machine Workshop :=
    .start switch.toList 200 { file := none, session := {} }
  Site.after (.ofFiles []) 200 ⟨0, 20, Rule.parse condition, start⟩

/-- The values of a switch and its `else` are well ordered. -/
theorem branches_of_switch_wellOrdered :
    ∃ found after arms,
      Site.outcome (.ofFiles []) 200
          ⟨0, 20, Rule.parse (branches (some ⟨1⟩)), behindSubject⟩ =
        .matched found after ∧
      found.length = 2 ∧
      after.host.draft.HoldsArms found arms ∧ WellOrdered arms := by
  have evaluated :
      Site.yields (.ofFiles []) 200
          ⟨0, 20, Rule.parse (branches (some ⟨1⟩)), behindSubject⟩
          (·.length == 2) =
        true ∧
      (Site.after (.ofFiles []) 200
          ⟨0, 20, Rule.parse (branches (some ⟨1⟩)), behindSubject⟩).delivered =
        behindSubject.delivered ∧
      (Site.after (.ofFiles []) 200
          ⟨0, 20, Rule.parse (branches (some ⟨1⟩)),
            behindSubject⟩).host.draft.kinds.any
          (·.arm?.any (·.isTrueBranch)) =
        false := by
    decide +kernel
  obtain ⟨yields, quiet, noTrueBranch⟩ := evaluated
  obtain ⟨found, two, matched⟩ := Site.exists_matched_of_yields yields
  obtain ⟨arms, holds, iff⟩ := branches_wellOrdered_iff matched quiet
  refine ⟨found, _, arms, matched, by simpa using two, holds, iff.mpr ?_⟩
  rintro ⟨-, first, second, rfl, isTrueBranch, -⟩
  cases holds.kinds with
  | cons isFirst _ =>
      rw [Draft.kind?_eq_getElem?] at isFirst
      exact
        List.any_eq_false.mp noTrueBranch _ (List.mem_of_getElem? isFirst)
          isTrueBranch

/-- An `else` before another branch under a subject is read without a complaint. -/
theorem else_before_value_not_refused :
    ∃ reading subject first second arm other,
      readScript (.ofFiles []) {}
          "\x7b x:\n- else: first\n- x: second\n\x7d\n" none =
        .ok reading ∧
      reading.diagnostics = [] ∧
      reading.story.kind? ⟨3⟩ =
        some (.conditional (some subject) [first, second]) ∧
      reading.story.kind? first = some (.branch arm) ∧
      reading.story.kind? second = some (.branch other) ∧
      ¬ WellOrdered [arm, other] := by
  have reads :
      (readScript (.ofFiles []) {}
            "\x7b x:\n- else: first\n- x: second\n\x7d\n" none).toOption.any
          (fun reading =>
            reading.diagnostics.isEmpty &&
              (reading.story.kind? ⟨3⟩).bind (·.switch?) ==
                some (⟨4⟩, [⟨6⟩, ⟨9⟩]) &&
              ((reading.story.kind? ⟨6⟩).bind (·.arm?)).any
                (fun arm => arm.isTrueBranch && arm.isElse) &&
              ((reading.story.kind? ⟨9⟩).bind (·.arm?)).isSome) =
        true := by
    decide +kernel
  cases completes :
      readScript (.ofFiles []) {}
        "\x7b x:\n- else: first\n- x: second\n\x7d\n" none with
  | error fault =>
      rw [completes] at reads
      cases reads
  | ok reading =>
      rw [completes] at reads
      simp only [Except.toOption, Option.any_some, Bool.and_eq_true, beq_iff_eq,
        Option.bind_eq_some_iff, Option.any_eq_true, Option.isSome_iff_exists,
        NodeKind.arm?_eq_some_iff, NodeKind.switch?_eq_some_iff] at reads
      obtain
        ⟨⟨⟨quiet, kind, isConditional, rfl⟩,
          arm, ⟨kindOfFirst, isFirst, rfl⟩, isTrueBranch, isElse⟩,
          other, kindOfSecond, isSecond, rfl⟩ := reads
      exact
        ⟨reading, ⟨4⟩, ⟨6⟩, ⟨9⟩, arm, other, rfl, List.isEmpty_iff.mp quiet,
          isConditional, isFirst, isSecond,
          Branch.ElseFirst.not_wellOrdered
            ⟨arm, other, rfl, isTrueBranch, isElse⟩⟩

end Grammar

end InkSyntax
