import InkSyntax.Proofs.Story.Rejoining

namespace InkSyntax

/-!
# The arms of a conditional

Each branch of a conditional holds an arm.  Arms are well ordered if one for all other
cases comes last, and if each before the last can be told from the rest, by its own
condition or as the one for a subject that holds.

Settling decides on one arm after the other, by where it stands and by the conditions
before it.
-/

namespace NodeKind

variable
    {σ : Type}
    {kind : NodeKind σ}

/-- The arm that a branch holds. -/
def arm? : NodeKind σ → Option Branch
  | .branch arm => some arm
  | _ => none

theorem arm?_eq_some_iff
    {arm : Branch} :
    kind.arm? = some arm ↔ kind = .branch arm := by
  cases kind <;> simp [arm?]

/-- The subject of a conditional, and its branches. -/
def switch? : NodeKind σ → Option (NodeId × List NodeId)
  | .conditional (some subject) branches => some (subject, branches)
  | _ => none

theorem switch?_eq_some_iff
    {subject : NodeId}
    {branches : List NodeId} :
    kind.switch? = some (subject, branches) ↔
      kind = .conditional (some subject) branches := by
  cases kind with
  | conditional subject? _ =>
      cases subject? <;> simp [switch?]
  | _ =>
      simp [switch?]

end NodeKind

namespace Branch

/-- One `else` at most, in the end, and something to tell each other arm by. -/
structure WellOrdered (arms : List Branch) : Prop where
  isLast_of_isElse :
    ∀ index arm,
      arms[index]? = some arm → arm.isElse = true → index + 1 = arms.length
  not_both : ∀ arm ∈ arms, ¬ (arm.isTrueBranch = true ∧ arm.isElse = true)
  isTold :
    ∀ index arm,
      arms[index]? = some arm →
      index + 1 < arms.length →
      arm.ownCondition.isSome = true ∨ index = 0 ∧ arm.isTrueBranch = true

/-- There are two arms, and the first is for a subject that holds and for all other cases. -/
def ElseFirst (arms : List Branch) : Prop :=
  ∃ first second,
    arms = [first, second] ∧
      first.isTrueBranch = true ∧ first.isElse = true

/-- An arm as it was read behind a dash. -/
structure AsRead (arm : Branch) : Prop where
  isTrueBranch : arm.isTrueBranch = false
  ownCondition : arm.isElse = true → arm.ownCondition = none

/-- The arm that is put before a single `else`. -/
def blank : Branch := { isTrueBranch := true }

/-- Arms as they are before they are settled.

Under a subject, a single `else` gets a blank arm in front. -/
inductive Laid : Bool → List Branch → Prop where
  | asRead
      {compared : Bool}
      {arms : List Branch}
      (asRead : ∀ arm ∈ arms, arm.AsRead)
      (notOnlyElse :
        compared = true → ∀ only, arms = [only] → only.isElse = false) :
      Laid compared arms
  | blankFirst
      {arm : Branch}
      (asRead : arm.AsRead)
      (isElse : arm.isElse = true) :
      Laid true [blank, arm]

/-- What becomes of one arm, by how many there are and how many come before it, whether
one of these has a condition, and whether no arm comes after it. -/
inductive Settles
    (count earlier : Nat)
    (earlierConditions isLast : Bool)
    (raw : Branch) : Bool → Branch → Prop where
  /-- A value to compare the subject with. -/
  | value
      (own : raw.ownCondition.isSome = true) :
      Settles count earlier earlierConditions isLast raw true
        { raw with matchingEquality := true }
  /-- All values that were not compared. -/
  | otherValues
      (noOwn : raw.ownCondition = none)
      (hasConditions : earlierConditions = true)
      (last : isLast = true) :
      Settles count earlier earlierConditions isLast raw true
        { raw with isElse := true, matchingEquality := true }
  /-- A subject that holds. -/
  | holds
      (noOwn : raw.ownCondition = none)
      (mayLack : isLast = true ∨ count ≤ 2)
      (isFirst : earlier = 0) :
      Settles count earlier earlierConditions isLast raw true
        { raw with isTrueBranch := true }
  /-- A subject that does not hold. -/
  | holdsNot
      (noOwn : raw.ownCondition = none)
      (mayLack : isLast = true ∨ count ≤ 2)
      (notFirst : earlier ≠ 0) :
      Settles count earlier earlierConditions isLast raw true
        { raw with isElse := true }
  /-- A condition where there is no subject. -/
  | condition
      (own : raw.ownCondition.isSome = true) :
      Settles count earlier earlierConditions isLast raw false raw
  /-- All other cases where there is no subject. -/
  | otherCases
      (noOwn : raw.ownCondition = none)
      (last : isLast = true) :
      Settles count earlier earlierConditions isLast raw false
        { raw with isElse := true }

/-- Some arms became what they were to become, given what comes before them. -/
inductive SettleFrom
    (count : Nat)
    (compared : Bool) :
    Nat → Bool → List Branch → List Branch → Prop where
  | nil
      {earlier : Nat}
      {earlierConditions : Bool} :
      SettleFrom count compared earlier earlierConditions [] []
  | cons
      {earlier : Nat}
      {earlierConditions : Bool}
      {raw arm : Branch}
      {rest settled : List Branch}
      (settles :
        Settles count earlier earlierConditions rest.isEmpty raw compared arm)
      (later :
        SettleFrom count compared (earlier + 1)
          (earlierConditions || raw.ownCondition.isSome) rest settled) :
      SettleFrom count compared earlier earlierConditions (raw :: rest)
        (arm :: settled)

/-- All arms became what they were to become. -/
abbrev AllSettle (compared : Bool) (arms settled : List Branch) : Prop :=
  SettleFrom arms.length compared 0 false arms settled

variable
    {compared : Bool}
    {arms settled : List Branch}

theorem SettleFrom.length
    {count earlier : Nat}
    {earlierConditions : Bool}
    (settle :
      SettleFrom count compared earlier earlierConditions arms settled) :
    settled.length = arms.length := by
  induction settle with
  | nil =>
      rfl
  | cons _ _ inductionHypothesis =>
      rw [List.length_cons, List.length_cons, inductionHypothesis]

/-- What one of some arms became. -/
theorem SettleFrom.settles
    {count earlier : Nat}
    {earlierConditions : Bool}
    (settle :
      SettleFrom count compared earlier earlierConditions arms settled)
    {index : Nat}
    {arm : Branch}
    (atIndex : settled[index]? = some arm) :
    ∃ raw haveCondition,
      arms[index]? = some raw ∧
        Settles count (earlier + index) haveCondition
          (index + 1 == arms.length) raw compared arm := by
  induction settle generalizing index with
  | nil =>
      cases atIndex
  | @cons earlier earlierConditions raw _ rest _ settles _ inductionHypothesis =>
      cases index with
      | zero =>
          cases atIndex
          refine ⟨raw, earlierConditions, rfl, ?_⟩
          have isLast : (0 + 1 == (raw :: rest).length) = rest.isEmpty := by
            cases rest <;> rfl
          rw [isLast]
          exact settles
      | succ index =>
          obtain ⟨other, haveCondition, atOther, settlesOther⟩ :=
            inductionHypothesis atIndex
          refine ⟨other, haveCondition, atOther, ?_⟩
          have isLast :
              (index + 1 + 1 == (raw :: rest).length) =
                (index + 1 == rest.length) := by
            simp
          have place : earlier + (index + 1) = earlier + 1 + index := by
            omega
          rw [isLast, place]
          exact settlesOther

/-- Apart from a blank arm in front of another one, arms are as they were read. -/
theorem Laid.asRead_or_blank
    (laid : Laid compared arms)
    {index : Nat}
    {raw : Branch}
    (atIndex : arms[index]? = some raw) :
    raw.AsRead ∨ index = 0 ∧ arms.length = 2 ∧ raw = blank := by
  cases laid with
  | asRead asRead notOnlyElse =>
      exact .inl (asRead raw (List.mem_of_getElem? atIndex))
  | @blankFirst second asRead isElse =>
      match index with
      | 0 =>
          exact .inr ⟨rfl, rfl, (Option.some.inj atIndex).symm⟩
      | 1 =>
          exact .inl (Option.some.inj atIndex ▸ asRead)

/-- An arm that was to be an `else` has no condition. -/
theorem Laid.ownCondition_of_isElse
    (laid : Laid compared arms)
    {index : Nat}
    {raw : Branch}
    (atIndex : arms[index]? = some raw)
    (isElse : raw.isElse = true) :
    raw.ownCondition = none := by
  rcases laid.asRead_or_blank atIndex with asRead | ⟨-, -, rfl⟩
  · exact asRead.ownCondition isElse
  · rfl

/-- An `else` is not the only arm under a subject. -/
theorem Laid.length_ne_one
    (laid : Laid true arms)
    {raw : Branch}
    (atFirst : arms[0]? = some raw)
    (isElse : raw.isElse = true) :
    arms.length ≠ 1 := by
  intro single
  obtain ⟨only, rfl⟩ := List.length_eq_one_iff.mp single
  cases atFirst
  cases laid with
  | asRead asRead notOnlyElse =>
      rw [notOnlyElse rfl raw rfl] at isElse
      cases isElse

/-- A first `else` of two under a subject is also taken for the subject that holds. -/
theorem AllSettle.elseFirst
    (allSettle : AllSettle compared arms settled)
    {raw : Branch}
    (atFirst : settled[0]? = some { raw with isTrueBranch := true })
    (isElse : raw.isElse = true)
    (two : arms.length = 2) :
    ElseFirst settled := by
  obtain ⟨first, second, rfl⟩ :=
    List.length_eq_two.mp (allSettle.length.trans two)
  cases atFirst
  exact ⟨_, second, rfl, rfl, isElse⟩

/-- An `else` of settled arms is the last, but for a first one of two. -/
theorem AllSettle.isLast_of_isElse
    (allSettle : AllSettle compared arms settled)
    (laid : Laid compared arms)
    (notElseFirst : ¬ (compared = true ∧ ElseFirst settled))
    {index : Nat}
    {arm : Branch}
    (atIndex : settled[index]? = some arm)
    (isElse : arm.isElse = true) :
    index + 1 = settled.length := by
  rw [allSettle.length]
  obtain ⟨raw, _, atRaw, settles⟩ := allSettle.settles atIndex
  rw [Nat.zero_add] at settles
  obtain ⟨inside, -⟩ := List.getElem?_eq_some_iff.mp atRaw
  cases settles with
  | value own =>
      simp [laid.ownCondition_of_isElse atRaw isElse] at own
  | otherValues noOwn hasConditions last =>
      simpa using last
  | holds noOwn mayLack isFirst =>
      subst isFirst
      by_contra notLast
      have two : arms.length = 2 := by
        simp only [beq_iff_eq] at mayLack
        omega
      exact notElseFirst ⟨rfl, allSettle.elseFirst atIndex isElse two⟩
  | holdsNot noOwn mayLack notFirst =>
      simp only [beq_iff_eq] at mayLack
      omega
  | condition own =>
      simp [laid.ownCondition_of_isElse atRaw isElse] at own
  | otherCases noOwn last =>
      simpa using last

/-- No settled arm is for a subject that holds and for all others, but for a first of two. -/
theorem AllSettle.not_both
    (allSettle : AllSettle compared arms settled)
    (laid : Laid compared arms)
    (notElseFirst : ¬ (compared = true ∧ ElseFirst settled))
    {index : Nat}
    {arm : Branch}
    (atIndex : settled[index]? = some arm) :
    ¬ (arm.isTrueBranch = true ∧ arm.isElse = true) := by
  rintro ⟨isTrueBranch, isElse⟩
  obtain ⟨raw, _, atRaw, settles⟩ := allSettle.settles atIndex
  rw [Nat.zero_add] at settles
  obtain ⟨inside, -⟩ := List.getElem?_eq_some_iff.mp atRaw
  have wasRead := laid.asRead_or_blank atRaw
  cases settles with
  | value own =>
      simp [laid.ownCondition_of_isElse atRaw isElse] at own
  | otherValues noOwn hasConditions last =>
      rcases wasRead with asRead | ⟨isFirst, two, -⟩
      · rw [asRead.isTrueBranch] at isTrueBranch
        cases isTrueBranch
      · simp [isFirst, two] at last
  | holds noOwn mayLack isFirst =>
      subst isFirst
      have notSingle : arms.length ≠ 1 := laid.length_ne_one atRaw isElse
      have two : arms.length = 2 := by
        simp only [beq_iff_eq] at mayLack
        omega
      exact notElseFirst ⟨rfl, allSettle.elseFirst atIndex isElse two⟩
  | holdsNot noOwn mayLack notFirst =>
      rcases wasRead with asRead | ⟨isFirst, -, -⟩
      · rw [asRead.isTrueBranch] at isTrueBranch
        cases isTrueBranch
      · exact notFirst isFirst
  | condition own =>
      simp [laid.ownCondition_of_isElse atRaw isElse] at own
  | otherCases noOwn last =>
      rcases wasRead with asRead | ⟨isFirst, two, -⟩
      · rw [asRead.isTrueBranch] at isTrueBranch
        cases isTrueBranch
      · simp [isFirst, two] at last

/-- Before the last arm, each settled arm can be told from the others. -/
theorem AllSettle.isTold
    (allSettle : AllSettle compared arms settled)
    {index : Nat}
    {arm : Branch}
    (atIndex : settled[index]? = some arm)
    (notLast : index + 1 < settled.length) :
    arm.ownCondition.isSome = true ∨ index = 0 ∧ arm.isTrueBranch = true := by
  rw [allSettle.length] at notLast
  obtain ⟨raw, _, -, settles⟩ := allSettle.settles atIndex
  rw [Nat.zero_add] at settles
  cases settles with
  | value own =>
      exact .inl own
  | otherValues noOwn hasConditions last =>
      simp only [beq_iff_eq] at last
      omega
  | holds noOwn mayLack isFirst =>
      exact .inr ⟨isFirst, rfl⟩
  | holdsNot noOwn mayLack notFirst =>
      simp only [beq_iff_eq] at mayLack
      omega
  | condition own =>
      exact .inl own
  | otherCases noOwn last =>
      simp only [beq_iff_eq] at last
      omega

theorem ElseFirst.not_wellOrdered
    (elseFirst : ElseFirst arms) :
    ¬ WellOrdered arms := by
  rintro ⟨-, not_both, -⟩
  obtain ⟨first, second, rfl, isTrueBranch, isElse⟩ := elseFirst
  exact not_both first List.mem_cons_self ⟨isTrueBranch, isElse⟩

/-- Settled arms are well ordered unless there is a subject and a first `else` of two. -/
theorem AllSettle.wellOrdered_iff
    (allSettle : AllSettle compared arms settled)
    (laid : Laid compared arms) :
    WellOrdered settled ↔ ¬ (compared = true ∧ ElseFirst settled) := by
  constructor
  · rintro wellOrdered ⟨-, elseFirst⟩
    exact elseFirst.not_wellOrdered wellOrdered
  · intro notElseFirst
    refine ⟨?_, ?_, ?_⟩
    · intro index arm atIndex isElse
      exact allSettle.isLast_of_isElse laid notElseFirst atIndex isElse
    · intro arm member
      obtain ⟨index, atIndex⟩ := List.mem_iff_getElem?.mp member
      exact allSettle.not_both laid notElseFirst atIndex
    · intro index arm atIndex notLast
      exact allSettle.isTold atIndex notLast

/-- Whether arms are written in one line does not matter to their order. -/
theorem wellOrdered_map_inline
    (isInline : Bool) :
    WellOrdered (arms.map ({ · with isInline := isInline })) ↔
      WellOrdered arms := by
  constructor
  · rintro ⟨isLast, not_both, isTold⟩
    refine ⟨?_, ?_, ?_⟩
    · intro index arm atIndex isElse
      simpa using
        isLast index { arm with isInline := isInline } (by simp [atIndex]) isElse
    · intro arm member
      exact not_both { arm with isInline := isInline } (List.mem_map_of_mem member)
    · intro index arm atIndex notLast
      exact
        isTold index { arm with isInline := isInline } (by simp [atIndex])
          (by simpa using notLast)
  · rintro ⟨isLast, not_both, isTold⟩
    refine ⟨?_, ?_, ?_⟩
    · intro index arm atIndex isElse
      simp only [List.getElem?_map, Option.map_eq_some_iff] at atIndex
      obtain ⟨raw, atRaw, rfl⟩ := atIndex
      simpa using isLast index raw atRaw isElse
    · intro arm member
      obtain ⟨raw, isRaw, rfl⟩ := List.mem_map.mp member
      exact not_both raw isRaw
    · intro index arm atIndex notLast
      simp only [List.getElem?_map, Option.map_eq_some_iff] at atIndex
      obtain ⟨raw, atRaw, rfl⟩ := atIndex
      exact isTold index raw atRaw (by simpa using notLast)

theorem elseFirst_map_inline
    (isInline : Bool) :
    ElseFirst (arms.map ({ · with isInline := isInline })) ↔
      ElseFirst arms := by
  constructor
  · rintro ⟨first, second, two, isTrueBranch, isElse⟩
    obtain ⟨rawFirst, rest, rfl, rfl, isRest⟩ := List.map_eq_cons_iff.mp two
    obtain ⟨rawSecond, rest, rfl, -, isNil⟩ := List.map_eq_cons_iff.mp isRest
    obtain rfl := List.map_eq_nil_iff.mp isNil
    exact ⟨rawFirst, rawSecond, rfl, isTrueBranch, isElse⟩
  · rintro ⟨first, second, rfl, isTrueBranch, isElse⟩
    exact ⟨_, _, rfl, isTrueBranch, isElse⟩

end Branch

namespace Draft

variable
    {draft after : Draft}
    {ids touched : List NodeId}
    {arms : List Branch}

/-- Different nodes are branches with these arms. -/
structure HoldsArms
    (draft : Draft)
    (ids : List NodeId)
    (arms : List Branch) : Prop where
  nodup : ids.Nodup
  kinds :
    List.Forall₂ (fun id arm => draft.kind? id = some (.branch arm)) ids arms

theorem lt_size_of_kind?
    {id : NodeId}
    {kind : StoryKind}
    (isKind : draft.kind? id = some kind) :
    id.index < draft.size := by
  obtain ⟨slot, made, -⟩ := Option.map_eq_some_iff.mp isKind
  exact lt_size_of_slot? made

/-- One node was touched, and then others. -/
theorem Spares.cons
    {middle : Draft}
    {id : NodeId}
    (first : Spares [id] draft middle)
    (second : Spares ids middle after) :
    Spares (id :: ids) draft after := by
  have more : Spares (id :: ids) draft middle :=
    first.mono fun other member _ =>
      List.mem_cons.mpr (.inl (List.mem_singleton.mp member))
  exact more.trans second fun _ member _ => List.mem_cons_of_mem id member

namespace HoldsArms

theorem nil :
    draft.HoldsArms [] [] :=
  ⟨.nil, .nil⟩

theorem cons
    {id : NodeId}
    {arm : Branch}
    (holds : draft.HoldsArms ids arms)
    (isNew : id ∉ ids)
    (isArm : draft.kind? id = some (.branch arm)) :
    draft.HoldsArms (id :: ids) (arm :: arms) :=
  ⟨List.nodup_cons.mpr ⟨isNew, holds.nodup⟩, .cons isArm holds.kinds⟩

/-- The first of some nodes with arms, and the others. -/
theorem uncons
    {id : NodeId}
    (holds : draft.HoldsArms (id :: ids) arms) :
    ∃ arm others,
      arms = arm :: others ∧
        draft.kind? id = some (.branch arm) ∧
        draft.HoldsArms ids others ∧ id ∉ ids := by
  obtain ⟨nodup, kinds⟩ := holds
  obtain ⟨notLater, restNodup⟩ := List.nodup_cons.mp nodup
  cases kinds with
  | cons isArm others =>
      exact ⟨_, _, rfl, isArm, ⟨restNodup, others⟩, notLater⟩

theorem isEmpty
    (holds : draft.HoldsArms ids arms) :
    ids.isEmpty = arms.isEmpty := by
  obtain ⟨-, kinds⟩ := holds
  cases kinds <;> rfl

/-- All nodes with arms are there. -/
theorem lt_size
    (holds : draft.HoldsArms ids arms)
    {id : NodeId}
    (member : id ∈ ids) :
    id.index < draft.size := by
  obtain ⟨nodup, kinds⟩ := holds
  clear nodup
  induction kinds with
  | nil =>
      cases member
  | cons isArm _ inductionHypothesis =>
      rcases List.mem_cons.mp member with rfl | later
      · exact lt_size_of_kind? isArm
      · exact inductionHypothesis later

/-- Nodes keep their arms if they are left alone. -/
theorem of_spares
    (holds : draft.HoldsArms ids arms)
    (spares : Spares touched draft after)
    (apart : ids.Disjoint touched) :
    after.HoldsArms ids arms := by
  obtain ⟨nodup, kinds⟩ := holds
  refine ⟨nodup, ?_⟩
  clear nodup
  induction kinds with
  | nil =>
      exact .nil
  | cons isArm _ inductionHypothesis =>
      obtain ⟨firstApart, restApart⟩ := List.disjoint_cons_left.mp apart
      refine .cons ?_ (inductionHypothesis restApart)
      rw [spares.kind? (lt_size_of_kind? isArm) firstApart, isArm]

theorem reverse
    (holds : draft.HoldsArms ids arms) :
    draft.HoldsArms ids.reverse arms.reverse :=
  ⟨List.nodup_reverse.mpr holds.nodup,
    List.forall₂_reverse_iff.mpr holds.kinds⟩

/-- Nodes keep their arms if only new nodes are made. -/
theorem of_adds
    (holds : draft.HoldsArms ids arms)
    (spares : Spares [] draft after) :
    after.HoldsArms ids arms :=
  holds.of_spares spares (List.disjoint_nil_right ids)

/-- A new node with an arm after one that was there. -/
theorem pair
    {first second : NodeId}
    {arm other : Branch}
    (isFirst : draft.kind? first = some (.branch arm))
    (spares : Spares [] draft after)
    (isNew : draft.size ≤ second.index)
    (isSecond : after.kind? second = some (.branch other)) :
    after.HoldsArms [first, second] [arm, other] := by
  have isOld := lt_size_of_kind? isFirst
  refine (nil.cons List.not_mem_nil isSecond).cons ?_ ?_
  · rw [List.mem_singleton]
    rintro rfl
    exact Nat.not_lt_of_le isNew isOld
  · rw [spares.kind? isOld List.not_mem_nil, isFirst]

end HoldsArms

end Draft

end InkSyntax
