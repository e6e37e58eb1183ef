import InkSyntax.Proofs.Story.Freezing
import InkSyntax.Proofs.Story.Nesting

namespace InkSyntax

/-!
# Tags that begin and end in turn

Going through a story in the order of the text one is inside a tag or outside, and
the markers of tags tell where this changes.  Trees of a draft take one from the
state in front of them to the state behind them, if their markers fit.  Appending
aside, amendments leave that as it is; so does arranging trees in weaves, provided
that the flows among them stand outside of tags.
-/

/-- What a marker of a tag says: whether the tag begins. -/
def NodeKind.mark? {σ : Type} : NodeKind σ → Option Bool
  | .tag isStart => some isStart
  | _ => none

/-- What the markers of tags say, in the order of the nodes. -/
def Story.tagMarks (story : Story) : List Bool :=
  story.nodes.filterMap (·.kind.mark?)

/-- Beginnings and ends alternate, from a beginning to an end. -/
def Story.TagsAlternate (story : Story) : Prop :=
  ∃ count, story.tagMarks = (List.replicate count [true, false]).flatten

/-- Tags alternate in a story and in all that it includes, also through others. -/
def Story.TagsAlternateThroughout (story : Story) : Prop :=
  ∀ inner,
    Relation.ReflTransGen (fun outer inner => inner ∈ outer.includedStories)
      story inner →
    inner.TagsAlternate

namespace NodeKind

variable
    {σ : Type}
    {kind later latest : NodeKind σ}

/-- Whether one is inside a tag, in front of a node and behind its own marker. -/
def Turns (kind : NodeKind σ) (before inside : Bool) : Prop :=
  match kind with
  | .tag isStart => before = !isStart ∧ inside = isStart
  | _ => inside = before

/-- Nodes that are taken apart or dropped at times, so that no tag may begin or end in them. -/
def isLevel : NodeKind σ → Bool
  | .reference _ | .divert _ => true
  | _ => false

/-- The trees below such a node are all that matters for where it may stand. -/
def isSimple : NodeKind σ → Bool
  | .tag _ | .includedFile (some _) | .flow _ => false
  | kind => !kind.isLevel

/-- Nodes that may be changed after they were made. -/
def isAmendable : NodeKind σ → Bool
  | .text _ | .divert _ | .branch _ | .functionCall .. | .gather .. => true
  | _ => false

/-- A node is as it was, or it was amended with the same nodes below it. -/
def Becomes (kind later : NodeKind σ) : Prop :=
  later = kind ∨
    kind.isAmendable = true ∧
      later.isAmendable = true ∧
      later.isLevel = kind.isLevel ∧
      later.children = kind.children

namespace Becomes

theorem refl
    (kind : NodeKind σ) :
    kind.Becomes kind :=
  .inl rfl

theorem trans
    (first : kind.Becomes later)
    (second : later.Becomes latest) :
    kind.Becomes latest := by
  rcases first with rfl | ⟨wasAmendable, _, sameLevel, sameChildren⟩
  · exact second
  · rcases second with rfl | ⟨_, isAmendable, stillLevel, stillSame⟩
    · exact .inr ⟨wasAmendable, ‹_›, sameLevel, sameChildren⟩
    · exact
        .inr
          ⟨wasAmendable, isAmendable, stillLevel.trans sameLevel,
            stillSame.trans sameChildren⟩

theorem children
    (becomes : kind.Becomes later) :
    later.children = kind.children := by
  rcases becomes with rfl | ⟨-, -, -, same⟩
  · rfl
  · exact same

/-- All amendments but one leave a node as it was or change it in this way. -/
theorem apply
    {kind : StoryKind}
    {amendment : Amendment}
    (appendsNone : ∀ child, amendment ≠ .append child) :
    kind.Becomes (amendment.apply kind) := by
  unfold Amendment.apply
  split <;>
    first
    | exact .inl rfl
    | exact .inr ⟨rfl, rfl, rfl, rfl⟩
    | exact absurd rfl (appendsNone _)

theorem withRejoins
    (change : List NodeId → List NodeId) :
    kind.Becomes (kind.withRejoins change) := by
  cases kind <;>
    first
    | exact .inl rfl
    | exact .inr ⟨rfl, rfl, rfl, rfl⟩

end Becomes

/-- A node may stand here: its own marker fits, and a flow stands outside of tags.

What is said of inclusions has nothing to do with tags; it is what must be known of
them where trees are frozen. -/
structure Fits
    (kind : StoryKind)
    (before inside behind : Bool) : Prop where
  turns : kind.Turns before inside
  includes : ∀ story, kind = .includedFile (some story) → story.TagsAlternateThroughout
  level : kind.isLevel = true → behind = before
  flows : kind.isFlow = true → before = false ∧ behind = false

section Fitting

variable
    {kind later : StoryKind}
    {before inside behind : Bool}

theorem Fits.of_isSimple
    (isSimple : kind.isSimple = true) :
    kind.Fits before before behind := by
  refine ⟨?_, ?_, fun isLevel => ?_, fun isFlow => ?_⟩
  · cases kind <;> first | rfl | cases isSimple
  · rintro story rfl
    cases isSimple
  · cases kind <;> first | (cases isLevel; done) | cases isSimple
  · cases kind <;> first | (cases isFlow; done) | cases isSimple

/-- A node that is taken apart or dropped at times may stand where nothing changes. -/
theorem Fits.of_isLevel
    (isLevel : kind.isLevel = true) :
    kind.Fits before before before := by
  refine ⟨?_, ?_, fun _ => rfl, fun isFlow => ?_⟩
  · cases kind <;> first | rfl | cases isLevel
  · rintro story rfl
    cases isLevel
  · cases kind <;> first | (cases isFlow; done) | cases isLevel

theorem Fits.of_isFlow
    (isFlow : kind.isFlow = true) :
    kind.Fits false false false := by
  refine ⟨?_, ?_, fun _ => rfl, fun _ => ⟨rfl, rfl⟩⟩
  · cases kind <;> first | rfl | cases isFlow
  · rintro story rfl
    cases isFlow

theorem Fits.of_includes
    {story : Story}
    (alternates : story.TagsAlternateThroughout) :
    NodeKind.Fits (.includedFile (some story)) before before behind := by
  refine ⟨rfl, ?_, nofun, nofun⟩
  rintro _ ⟨⟩
  exact alternates

/-- Only a marker changes whether one is inside a tag. -/
theorem Fits.inside_eq
    (fits : kind.Fits before inside behind)
    (unmarked : ∀ isStart, kind ≠ .tag isStart) :
    inside = before := by
  have turns := fits.turns
  unfold Turns at turns
  split at turns
  next isStart =>
    exact absurd rfl (unmarked isStart)
  next =>
    exact turns

theorem Fits.becomes
    (fits : kind.Fits before inside behind)
    (becomes : kind.Becomes later) :
    later.Fits before inside behind := by
  rcases becomes with rfl | ⟨wasAmendable, isAmendable, sameLevel, -⟩
  · exact fits
  · have isInside : inside = before := by
      refine fits.inside_eq ?_
      rintro isStart rfl
      cases wasAmendable
    refine ⟨?_, ?_, fun isLevel => fits.level (sameLevel ▸ isLevel), fun isFlow => ?_⟩
    · cases later <;> first | exact isInside | cases isAmendable
    · rintro story rfl
      cases isAmendable
    · cases later <;> first | (cases isFlow; done) | cases isAmendable

end Fitting

end NodeKind

namespace Draft

variable
    {draft first middle last : Draft}
    {kind : StoryKind}
    {id : NodeId}
    {ids others : List NodeId}
    {before inside behind after : Bool}

/-- A new node is what it was made. -/
theorem kind?_add
    (draft : Draft)
    (kind : StoryKind)
    (span : Option Span) :
    (draft.add kind span).2.kind? (draft.add kind span).1 = some kind :=
  congrArg (Option.map _) (slot?_add draft kind span)

/-- All nodes stay, amended at most. -/
def Keeps (first last : Draft) : Prop :=
  ∀ id kind,
    first.kind? id = some kind →
    ∃ later, last.kind? id = some later ∧ kind.Becomes later

namespace Keeps

theorem refl
    (draft : Draft) :
    Keeps draft draft :=
  fun _ kind made => ⟨kind, made, .refl kind⟩

theorem trans
    (toMiddle : Keeps first middle)
    (toLast : Keeps middle last) :
    Keeps first last := by
  intro id kind made
  obtain ⟨later, madeLater, becomes⟩ := toMiddle id kind made
  obtain ⟨latest, madeLatest, becomesThen⟩ := toLast id later madeLater
  exact ⟨latest, madeLatest, becomes.trans becomesThen⟩

theorem of_kinds
    (same : last.kinds = first.kinds) :
    Keeps first last := by
  intro id kind made
  refine ⟨kind, ?_, .refl kind⟩
  rw [kind?_eq_getElem?, same, ← kind?_eq_getElem?]
  exact made

theorem of_spares
    (spares : Spares [] first last) :
    Keeps first last := by
  intro id kind made
  obtain ⟨slot, isSlot, rfl⟩ := Option.map_eq_some_iff.mp made
  refine ⟨slot.kind, ?_, .refl _⟩
  rw [kind?, spares.slot? id (lt_size_of_slot? isSlot) List.not_mem_nil, isSlot,
    Option.map_some]

theorem of_retains
    (retains : Retains first last) :
    Keeps first last := by
  intro id kind made
  obtain ⟨slot, isSlot, rfl⟩ := Option.map_eq_some_iff.mp made
  obtain ⟨change, changed⟩ := retains.slot? id slot isSlot
  exact ⟨_, by rw [kind?, changed, Option.map_some], .withRejoins change⟩

/-- Forgetting what is younger than a draft does it no harm. -/
theorem of_take
    (toMiddle : Keeps first middle)
    (forgets : last.kinds = middle.kinds.take first.size) :
    Keeps first last := by
  intro id kind made
  obtain ⟨later, madeLater, becomes⟩ := toMiddle id kind made
  refine ⟨later, ?_, becomes⟩
  rw [kind?_eq_getElem?] at made madeLater ⊢
  obtain ⟨old, -⟩ := List.getElem?_eq_some_iff.mp made
  rw [length_kinds] at old
  rw [forgets, List.getElem?_take, if_pos old]
  exact madeLater

theorem add
    (draft : Draft)
    (kind : StoryKind)
    (span : Option Span) :
    Keeps draft (draft.add kind span).2 :=
  of_spares (spares_add draft kind span)

theorem amend
    (draft : Draft)
    (id : NodeId)
    {amendment : Amendment}
    (appendsNone : ∀ child, amendment ≠ .append child) :
    Keeps draft (draft.modify id amendment.apply) := by
  intro other kind made
  obtain ⟨slot, isSlot, rfl⟩ := Option.map_eq_some_iff.mp made
  by_cases same : other = id
  · subst same
    refine ⟨amendment.apply slot.kind, ?_, .apply appendsNone⟩
    rw [kind?, slot?_modify, isSlot]
    rfl
  · refine ⟨slot.kind, ?_, .refl _⟩
    rw [kind?, (spares_modify draft id amendment.apply).slot? other
      (lt_size_of_slot? isSlot) (by simpa using same), isSlot, Option.map_some]

end Keeps

/-- Trees take one from inside or outside of a tag to inside or outside of one. -/
inductive Toggles
    (draft : Draft) :
    Bool → List NodeId → Bool → Prop where
  | nil {state : Bool} :
      Toggles draft state [] state
  | cons
      {before inside behind after : Bool}
      {id : NodeId}
      {kind : StoryKind}
      {rest : List NodeId}
      (made : draft.kind? id = some kind)
      (fits : kind.Fits before inside behind)
      (children : Toggles draft inside kind.children behind)
      (siblings : Toggles draft behind rest after) :
      Toggles draft before (id :: rest) after

namespace Toggles

theorem append
    (first : Toggles draft before ids inside)
    (second : Toggles draft inside others after) :
    Toggles draft before (ids ++ others) after := by
  induction first with
  | nil =>
      exact second
  | cons made fits children siblings _ siblingsHypothesis =>
      exact .cons made fits children (siblingsHypothesis second)

theorem exists_append
    (toggles : Toggles draft before (ids ++ others) after) :
    ∃ inside,
      Toggles draft before ids inside ∧
        Toggles draft inside others after := by
  induction ids generalizing before with
  | nil =>
      exact ⟨before, .nil, toggles⟩
  | cons id rest inductionHypothesis =>
      cases toggles with
      | cons made fits children siblings =>
          obtain ⟨inside, front, back⟩ := inductionHypothesis siblings
          exact ⟨inside, .cons made fits children front, back⟩

theorem eq_of_nil
    (toggles : Toggles draft before [] after) :
    after = before := by
  cases toggles
  rfl

theorem single
    (made : draft.kind? id = some kind)
    (fits : kind.Fits before inside after)
    (children : Toggles draft inside kind.children after) :
    Toggles draft before [id] after :=
  .cons made fits children .nil

theorem exists_single
    (toggles : Toggles draft before [id] after) :
    ∃ kind inside,
      draft.kind? id = some kind ∧
        kind.Fits before inside after ∧
        Toggles draft inside kind.children after := by
  cases toggles with
  | cons made fits children siblings =>
      cases siblings
      exact ⟨_, _, made, fits, children⟩

/-- A node may be dropped if no tag begins or ends in it. -/
theorem eq_of_isLevel
    (toggles : Toggles draft before [id] after)
    (made : draft.kind? id = some kind)
    (isLevel : kind.isLevel = true) :
    after = before := by
  obtain ⟨found, inside, isFound, fits, -⟩ := toggles.exists_single
  cases made.symm.trans isFound
  exact fits.level isLevel

/-- So may any of several such nodes. -/
theorem of_sublist
    {fewer : List NodeId}
    (toggles : Toggles draft before ids after)
    (areLevel :
      ∀ id ∈ ids, ∃ kind, draft.kind? id = some kind ∧ kind.isLevel = true)
    (sublist : fewer.Sublist ids) :
    Toggles draft before fewer after := by
  induction sublist generalizing before with
  | slnil =>
      exact toggles
  | cons id _ inductionHypothesis =>
      obtain ⟨⟨kind, isKind, isLevel⟩, areLevel⟩ := List.forall_mem_cons.mp areLevel
      cases toggles with
      | cons made fits children siblings =>
          cases isKind.symm.trans made
          obtain rfl := fits.level isLevel
          exact inductionHypothesis siblings areLevel
  | cons_cons id _ inductionHypothesis =>
      obtain ⟨-, areLevel⟩ := List.forall_mem_cons.mp areLevel
      cases toggles with
      | cons made fits children siblings =>
          exact .cons made fits children (inductionHypothesis siblings areLevel)

/-- A node without any below it may be dropped, unless it is a marker. -/
theorem eq_of_leaf
    (toggles : Toggles draft before [id] after)
    (made : draft.kind? id = some kind)
    (isLeaf : kind.children = [])
    (unmarked : ∀ isStart, kind ≠ .tag isStart) :
    after = before := by
  obtain ⟨found, inside, isFound, fits, children⟩ := toggles.exists_single
  cases made.symm.trans isFound
  rw [isLeaf] at children
  exact children.eq_of_nil.trans (fits.inside_eq unmarked)

/-- A node that is taken apart gives way to the nodes below it. -/
theorem children
    (toggles : Toggles draft before [id] after)
    (made : draft.kind? id = some kind)
    (unmarked : ∀ isStart, kind ≠ .tag isStart) :
    Toggles draft before kind.children after := by
  obtain ⟨found, inside, isFound, fits, children⟩ := toggles.exists_single
  cases made.symm.trans isFound
  rw [← fits.inside_eq unmarked]
  exact children

/-- Nothing stands below itself, because trees are finite. -/
theorem accessible
    (toggles : Toggles draft before ids after) :
    ∀ id ∈ ids,
      Acc (fun inner outer => inner ∈ draft.childrenOf outer) id := by
  induction toggles with
  | nil =>
      intro id member
      cases member
  | @cons _ _ _ _ id kind rest made _ _ _ childrenHypothesis
      siblingsHypothesis =>
      refine List.forall_mem_cons.mpr ⟨.intro id ?_, siblingsHypothesis⟩
      intro child isChild
      rw [childrenOf, made] at isChild
      exact childrenHypothesis child isChild

theorem not_reaches_of_child
    {child : NodeId}
    (toggles : Toggles draft before [id] after)
    (isChild : child ∈ draft.childrenOf id) :
    ¬ draft.Reaches child id := by
  intro reaches
  have upwards :
      Relation.ReflTransGen
        (fun inner outer => inner ∈ draft.childrenOf outer) id child :=
    Relation.reflTransGen_swap.mp reaches
  have below := (toggles.accessible id List.mem_cons_self).transGen
  have cyclic := Relation.TransGen.tail' upwards isChild
  generalize id = other at below cyclic
  induction below with
  | intro other _ inductionHypothesis =>
      exact inductionHypothesis other cyclic cyclic

/-- Only the nodes that trees consist of have to stay. -/
theorem carried
    (toggles : Toggles first before ids after)
    (stays :
      ∀ root ∈ ids, ∀ id kind,
        first.Reaches root id →
        first.kind? id = some kind →
        ∃ later, last.kind? id = some later ∧ kind.Becomes later) :
    Toggles last before ids after := by
  induction toggles with
  | nil =>
      exact .nil
  | @cons before inside behind after id kind rest made fits children siblings
      childrenHypothesis siblingsHypothesis =>
      obtain ⟨staysFirst, staysRest⟩ := List.forall_mem_cons.mp stays
      have below :
          Toggles last inside kind.children behind := by
        refine childrenHypothesis fun child member other found reaches => ?_
        refine staysFirst other found (.head ?_ reaches)
        rw [childrenOf, made]
        exact member
      obtain ⟨later, madeLater, becomes⟩ := staysFirst id kind .refl made
      rw [← becomes.children] at below
      exact
        .cons madeLater (fits.becomes becomes) below
          (siblingsHypothesis staysRest)

theorem kept
    (toggles : Toggles first before ids after)
    (keeps : Keeps first last) :
    Toggles last before ids after :=
  toggles.carried fun _ _ id kind _ => keeps id kind

/-- Trees without markers that may stand inside a tag may stand outside of it as well. -/
theorem of_untagged
    {state : Bool}
    (toggles : Toggles draft before ids after)
    (untagged :
      ∀ root ∈ ids, ∀ id isStart,
        draft.Reaches root id → draft.kind? id ≠ some (.tag isStart))
    (isInside : before = true) :
    Toggles draft state ids state ∧ after = true := by
  induction toggles with
  | nil =>
      exact ⟨.nil, isInside⟩
  | @cons before inside behind after id kind rest made fits children siblings
      childrenHypothesis siblingsHypothesis =>
      obtain ⟨untaggedFirst, untaggedRest⟩ := List.forall_mem_cons.mp untagged
      have unmarked (isStart : Bool) : kind ≠ .tag isStart := by
        rintro rfl
        exact untaggedFirst id isStart .refl made
      have stays := fits.inside_eq unmarked
      obtain ⟨below, isBehind⟩ := by
        refine childrenHypothesis (fun child member other isStart reaches => ?_)
          (stays.trans isInside)
        refine untaggedFirst other isStart (.head ?_ reaches)
        rw [childrenOf, made]
        exact member
      obtain ⟨beside, isAfter⟩ := siblingsHypothesis untaggedRest isBehind
      refine ⟨.cons made ?_ below beside, isAfter⟩
      refine ⟨?_, fits.includes, fun _ => rfl, fun isFlow => ?_⟩
      · cases kind <;> first | rfl | exact absurd rfl (unmarked _)
      · have isOutside := (fits.flows isFlow).1
        rw [isInside] at isOutside
        cases isOutside

/-- Flows stand outside of tags, so that they can be put behind everything else. -/
theorem filter_flows
    (isFlow : NodeId → Bool)
    (toggles : Toggles draft before ids after)
    (tells :
      ∀ id kind, draft.kind? id = some kind → isFlow id = kind.isFlow) :
    Toggles draft before (ids.filter fun id => !isFlow id) after ∧
      Toggles draft false (ids.filter isFlow) false := by
  induction ids generalizing before with
  | nil =>
      exact ⟨toggles, .nil⟩
  | cons id rest inductionHypothesis =>
      cases toggles with
      | @cons _ inside behind _ _ kind _ made fits children siblings =>
          obtain ⟨others, flows⟩ := inductionHypothesis siblings
          cases told : kind.isFlow with
          | true =>
              have isOne : isFlow id = true := (tells id kind made).trans told
              obtain ⟨rfl, rfl⟩ := fits.flows told
              rw [List.filter_cons_of_neg (by simp [isOne]),
                List.filter_cons_of_pos isOne]
              exact ⟨others, .cons made fits children flows⟩
          | false =>
              have isNone : isFlow id = false := (tells id kind made).trans told
              rw [List.filter_cons_of_pos (by simp [isNone]),
                List.filter_cons_of_neg (by simp [isNone])]
              exact ⟨.cons made fits children others, flows⟩

/-- A new node may be put in the place of trees that fit below it. -/
theorem add
    (children : Toggles draft inside kind.children after)
    (fits : kind.Fits before inside after)
    (span : Option Span) :
    Toggles (draft.add kind span).2 before [(draft.add kind span).1] after :=
  .single (kind?_add draft kind span) fits
    (children.kept (.add draft kind span))

/-- A content list may get another element if that takes one on from its end. -/
theorem appended
    {child : NodeId}
    {content : List NodeId}
    (toggles : Toggles draft before [id] inside)
    (isList : draft.kind? id = some (.contentList content))
    (further : Toggles draft inside [child] after)
    (isElsewhere : ¬ draft.Reaches child id) :
    Toggles (draft.modify id (Amendment.append child).apply) before [id]
      after := by
  have stays (other : NodeId) (kind : StoryKind)
      (isOther : other ≠ id)
      (made : draft.kind? other = some kind) :
      ∃ later,
        (draft.modify id (Amendment.append child).apply).kind? other =
            some later ∧
          kind.Becomes later := by
    refine ⟨kind, ?_, .refl kind⟩
    obtain ⟨slot, isSlot, rfl⟩ := Option.map_eq_some_iff.mp made
    rw [kind?,
      (spares_modify draft id (Amendment.append child).apply).slot? other
        (lt_size_of_slot? isSlot) (by simpa using isOther),
      isSlot, Option.map_some]
  have isAppended :
      (draft.modify id (Amendment.append child).apply).kind? id =
        some (.contentList (content ++ [child])) := by
    rw [kind?, slot?_modify]
    obtain ⟨slot, isSlot, isKind⟩ := Option.map_eq_some_iff.mp isList
    rw [isSlot, Option.map_some, Option.map_some, isKind]
    rfl
  have front :
      Toggles (draft.modify id (Amendment.append child).apply) before
        content inside := by
    refine
      (toggles.children isList (by simp)).carried
        fun root isRoot other kind reaches made => ?_
    refine stays other kind ?_ made
    rintro rfl
    refine toggles.not_reaches_of_child ?_ reaches
    rw [childrenOf, isList]
    exact isRoot
  refine .single isAppended (.of_isSimple rfl) (front.append ?_)
  refine further.carried fun root isRoot other kind reaches made => ?_
  refine stays other kind ?_ made
  rintro rfl
  rw [List.mem_singleton.mp isRoot] at reaches
  exact isElsewhere reaches

end Toggles

/-- What a node is lets some trees give way to others. -/
structure MakesWay
    (id : NodeId)
    (kind : StoryKind)
    (given left : List NodeId) : Prop where
  gives :
    ∀ {draft : Draft} {before after : Bool},
      draft.kind? id = some kind →
      Toggles draft before given after →
      Toggles draft before left after

namespace MakesWay

variable {given left : List NodeId}

theorem refl :
    MakesWay id kind given given :=
  ⟨fun _ toggles => toggles⟩

theorem of_isLevel
    (isLevel : kind.isLevel = true) :
    MakesWay id kind [id] [] := by
  refine ⟨fun made toggles => ?_⟩
  obtain rfl := toggles.eq_of_isLevel made isLevel
  exact .nil

theorem of_leaf
    (isLeaf : kind.children = [])
    (unmarked : ∀ isStart, kind ≠ .tag isStart) :
    MakesWay id kind [id] [] := by
  refine ⟨fun made toggles => ?_⟩
  obtain rfl := toggles.eq_of_leaf made isLeaf unmarked
  exact .nil

/-- A node may be taken apart. -/
theorem apart
    (unmarked : ∀ isStart, kind ≠ .tag isStart) :
    MakesWay id kind [id] kind.children :=
  ⟨fun made toggles => toggles.children made unmarked⟩

theorem amid
    (makesWay : MakesWay id kind given left)
    (front behind : List NodeId) :
    MakesWay id kind (front ++ given ++ behind) (front ++ left ++ behind) := by
  refine ⟨fun made toggles => ?_⟩
  obtain ⟨further, toFurther, others⟩ := toggles.exists_append
  obtain ⟨near, toNear, inner⟩ := toFurther.exists_append
  exact (toNear.append (makesWay.gives made inner)).append others

end MakesWay

section Weaving

theorem Toggles.addWeave
    (toggles : Toggles draft before ids after)
    (base : Nat) :
    Toggles (draft.addWeave ids base).2 before
      [(draft.addWeave ids base).1] after := by
  rw [addWeave_fst]
  refine .single (kind?_addWeave draft ids base) (.of_isSimple rfl) ?_
  exact toggles.kept (.of_retains (.addWeave draft ids base))

mutual

/-- Making weaves inside an item keeps its content in its order. -/
theorem Toggles.placeItem
    {draft : Draft}
    {before after : Bool}
    (item : WeaveTree)
    (toggles : Toggles draft before item.leaves after) :
    Keeps draft (Draft.placeItem item draft).2 ∧
      Toggles (Draft.placeItem item draft).2 before
        [(Draft.placeItem item draft).1] after := by
  cases item with
  | leaf id =>
      exact ⟨.refl draft, by simpa [Draft.placeItem, WeaveTree.leaves] using toggles⟩
  | nested base items =>
      simp only [Draft.placeItem]
      obtain ⟨keeps, placed⟩ := Toggles.placeItems items toggles
      exact
        ⟨keeps.trans (.of_retains (.addWeave _ _ base)), placed.addWeave base⟩

theorem Toggles.placeItems
    {draft : Draft}
    {before after : Bool}
    (items : List WeaveTree)
    (toggles : Toggles draft before (WeaveTree.leavesOf items) after) :
    Keeps draft (Draft.placeItems items draft).2 ∧
      Toggles (Draft.placeItems items draft).2 before
        (Draft.placeItems items draft).1 after := by
  cases items with
  | nil =>
      exact
        ⟨.refl draft, by simpa [Draft.placeItems, WeaveTree.leavesOf] using toggles⟩
  | cons item items =>
      simp only [WeaveTree.leavesOf] at toggles
      simp only [Draft.placeItems]
      obtain ⟨inside, first, others⟩ := toggles.exists_append
      obtain ⟨keeps, placed⟩ := Toggles.placeItem item first
      obtain ⟨keepsThen, rest⟩ := Toggles.placeItems items (others.kept keeps)
      exact ⟨keeps.trans keepsThen, (placed.kept keepsThen).append rest⟩

end

/-- Arranging content that ends outside of tags leaves its tags as they are. -/
theorem Toggles.weaveAndFlows
    (toggles : Toggles draft before ids false) :
    Keeps draft (draft.weaveAndFlows ids).2 ∧
      Toggles (draft.weaveAndFlows ids).2 before
        (draft.weaveAndFlows ids).1 false := by
  unfold Draft.weaveAndFlows
  obtain ⟨others, flows⟩ :=
    toggles.filter_flows
      (fun id => ((draft.kind? id).map NodeKind.isFlow).getD false)
      fun id kind made => by simp [made]
  obtain ⟨keeps, woven⟩ :=
    Toggles.placeItem
      (.nested 0
        (WeaveTree.group draft.weavePointDepth? 0
          (ids.filter fun id =>
            !((draft.kind? id).map NodeKind.isFlow).getD false)))
      (by simpa [WeaveTree.leaves] using others)
  exact ⟨keeps, woven.append (flows.kept keeps)⟩

end Weaving

section Marks

/-- Marks that take one, in turn, from inside or outside of a tag to inside or outside of one. -/
def MarksTurn (before : Bool) : List Bool → Bool → Prop
  | [], after => after = before
  | isStart :: rest, after => before = !isStart ∧ MarksTurn isStart rest after

namespace MarksTurn

variable {marks more : List Bool}

theorem append
    (first : MarksTurn before marks inside)
    (second : MarksTurn inside more after) :
    MarksTurn before (marks ++ more) after := by
  induction marks generalizing before with
  | nil =>
      cases first
      exact second
  | cons isStart rest inductionHypothesis =>
      exact ⟨first.1, inductionHypothesis first.2⟩

/-- From outside to outside, marks are pairs of a beginning and an end. -/
theorem exists_count :
    ∀ {marks : List Bool},
      MarksTurn false marks false →
      ∃ count, marks = (List.replicate count [true, false]).flatten
  | [], _ => ⟨0, rfl⟩
  | [isStart], ⟨starts, ends⟩ => by
      cases ends
      cases starts
  | first :: second :: rest, ⟨starts, ends, others⟩ => by
      obtain rfl : first = true := by simpa using starts
      obtain rfl : second = false := by simpa using ends
      obtain ⟨count, pairs⟩ := exists_count others
      exact ⟨count + 1, by rw [pairs, List.replicate_succ, List.flatten_cons]; rfl⟩

end MarksTurn

variable
    {root : NodeId}
    {rootSpan : Span}
    {parent : Option NodeId}
    {number : Nat}
    {entries : List (NodeId × Option NodeId)}
    {frozen : Array StoryNode}
    {file : Option String}

/-- What the node of an entry says if it is a marker. -/
def markAt? (draft : Draft) (entry : NodeId × Option NodeId) : Option Bool :=
  (draft.kind? entry.1).bind NodeKind.mark?

namespace Toggles

theorem marksTurn
    (toggles : Toggles draft before ids after)
    (listing : Listing draft number parent ids entries) :
    MarksTurn before (entries.filterMap draft.markAt?) after := by
  induction toggles generalizing number parent entries with
  | nil =>
      cases listing
      rfl
  | @cons before inside behind after id kind rest made fits _ _
      childrenHypothesis siblingsHypothesis =>
      cases listing with
      | @cons _ _ _ slot _ below others isSlot children siblings =>
          have isKind : draft.kind? id = some slot.kind := by
            rw [kind?, isSlot, Option.map_some]
          cases made.symm.trans isKind
          have inner :
              MarksTurn inside
                ((below ++ others).filterMap draft.markAt?) after := by
            rw [List.filterMap_append]
            exact
              (childrenHypothesis children).append (siblingsHypothesis siblings)
          rw [List.filterMap_cons]
          have turns := fits.turns
          cases isMark : slot.kind.mark? with
          | none =>
              have isInside : inside = before := by
                refine fits.inside_eq fun isStart isTag => ?_
                rw [isTag] at isMark
                cases isMark
              rw [isInside] at inner
              simpa [markAt?, isKind, isMark] using inner
          | some isStart =>
              have isTag : slot.kind = .tag isStart := by
                cases slot with
                | mk kind span =>
                    cases kind <;> cases isMark
                    rfl
              rw [isTag] at turns
              obtain ⟨starts, rfl⟩ := turns
              simpa [markAt?, isKind, isMark, MarksTurn] using
                And.intro starts inner

theorem tagsAlternateThroughout_of_listing
    (toggles : Toggles draft before ids after)
    (listing : Listing draft number parent ids entries)
    {entry : NodeId × Option NodeId}
    (member : entry ∈ entries)
    {story : Story}
    (isIncluded : draft.kind? entry.1 = some (.includedFile (some story))) :
    story.TagsAlternateThroughout := by
  induction toggles generalizing number parent entries with
  | nil =>
      cases listing
      cases member
  | @cons _ _ _ _ id kind _ made fits _ _ childrenHypothesis
      siblingsHypothesis =>
      cases listing with
      | @cons _ _ _ slot _ below others isSlot children siblings =>
          have isKind : draft.kind? id = some slot.kind := by
            rw [kind?, isSlot, Option.map_some]
          cases made.symm.trans isKind
          rcases List.mem_cons.mp member with rfl | among
          · exact fits.includes story (Option.some.inj (isKind.symm.trans isIncluded))
          · rcases List.mem_append.mp among with isBelow | isBeside
            · exact childrenHypothesis children isBelow
            · exact siblingsHypothesis siblings isBeside

end Toggles

namespace Freezes

/-- Every node was frozen for an entry, and its kind only got other numbers. -/
theorem exists_entry
    (freezes : Freezes draft root rootSpan entries frozen)
    {node : StoryNode}
    (member : node ∈ spanRoot rootSpan frozen) :
    ∃ entry ∈ entries, ∃ kind,
      draft.kind? entry.1 = some kind ∧
        node.kind =
          (kind.mapChildren fun old =>
            ((draft.number root).find? old).getD old).withRejoins
              (·.filterMap (draft.number root).find?) := by
  obtain ⟨index, id, found, entry, isFound, sameKind, -⟩ :=
    freezes.exists_frozen member
  obtain ⟨slot, made, isFrozen⟩ := freezes.node entry
  cases isFound.symm.trans isFrozen
  exact
    ⟨_, List.mem_of_getElem? entry, slot.kind,
      by rw [kind?, made, Option.map_some], sameKind⟩

theorem tagMarks
    (freezes : Freezes draft root rootSpan entries frozen) :
    (Story.mk file (spanRoot rootSpan frozen)).tagMarks =
      entries.filterMap draft.markAt? := by
  have sameMarks :
      (spanRoot rootSpan frozen).map (·.kind.mark?) =
        entries.map draft.markAt? := by
    rw [map_spanRoot _ fun _ _ => rfl]
    apply List.ext_getElem?
    intro index
    rw [List.getElem?_map, List.getElem?_map, Array.getElem?_toList]
    cases entry : entries[index]? with
    | none =>
        have beyond := List.getElem?_eq_none_iff.mp entry
        rw [← freezes.size] at beyond
        rw [Array.getElem?_eq_none beyond]
        rfl
    | some pair =>
        obtain ⟨slot, made, isNode⟩ := freezes.node entry
        rw [isNode]
        simp only [Option.map_some, markAt?, kind?, made, frozenNode,
          Option.bind_some]
        cases slot.kind <;> rfl
  have frozenMarks := congrArg (List.filterMap id) sameMarks
  rw [List.filterMap_map, List.filterMap_map] at frozenMarks
  exact frozenMarks

/-- Tags alternate in the story of a tree that begins and ends outside of tags. -/
theorem tagsAlternateThroughout
    (freezes : Freezes draft root rootSpan entries frozen)
    (toggles :
      Toggles draft false [root] false) :
    (Story.mk file (spanRoot rootSpan frozen)).TagsAlternateThroughout := by
  intro inner includes
  rcases Relation.ReflTransGen.cases_head includes with rfl | ⟨first, isFirst, others⟩
  · rw [Story.TagsAlternate, freezes.tagMarks]
    exact (toggles.marksTurn freezes.listing).exists_count
  · obtain ⟨node, isNode, isIncluded⟩ := List.mem_filterMap.mp isFirst
    obtain ⟨entry, isEntry, kind, made, sameKind⟩ := freezes.exists_entry isNode
    have isFile : node.kind = .includedFile (some first) := by
      split at isIncluded
      · next isFile =>
          rw [isFile, isIncluded]
      · cases isIncluded
    rw [isFile, eq_comm, NodeKind.withRejoins_eq_includedFile,
      NodeKind.mapChildren_eq_includedFile] at sameKind
    rw [sameKind] at made
    exact toggles.tagsAlternateThroughout_of_listing freezes.listing isEntry made inner others

end Freezes

end Marks

end Draft

end InkSyntax
