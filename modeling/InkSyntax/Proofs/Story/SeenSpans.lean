import InkSyntax.Proofs.Story.Growth

namespace InkSyntax.Draft

/-!
# Spans come from a text

A node gets its span from a scope or from the nodes that it covers.  So all spans in a
draft run between positions that reading on from one cursor comes by, whether or not
their nodes belong to the story in the end.
-/

variable
    {origin : Cursor}
    {before middle after draft : Draft}
    {id : NodeId}
    {span : Span}

/-- A span runs between two positions that reading on from a cursor comes by. -/
def SpanSeenFrom (origin : Cursor) (span : Span) : Prop :=
  origin.Sees span.start ∧ origin.Sees span.stop

/-- All spans in a draft are seen from a cursor. -/
def SeenFrom (origin : Cursor) (draft : Draft) : Prop :=
  ∀ id, ∀ span ∈ draft.span? id, SpanSeenFrom origin span

/-- No node got another span. -/
def KeepsSpans (before after : Draft) : Prop :=
  ∀ id, ∀ span ∈ after.span? id, span ∈ before.span? id

namespace KeepsSpans

theorem refl
    (draft : Draft) :
    KeepsSpans draft draft :=
  fun _ _ => id

theorem trans
    (first : KeepsSpans before middle)
    (second : KeepsSpans middle after) :
    KeepsSpans before after :=
  fun id span given => first id span (second id span given)

theorem seenFrom
    (keeps : KeepsSpans before after)
    (seen : before.SeenFrom origin) :
    after.SeenFrom origin :=
  fun id span given => seen id span (keeps id span given)

theorem add
    (draft : Draft)
    (kind : StoryKind) :
    KeepsSpans draft (draft.add kind).2 := by
  intro id span given
  by_cases isNew : id = ⟨draft.size⟩
  · subst isNew
    simp [span?, slot?_add] at given
  · have older : id.index ≠ draft.slots.size := by
      rintro same
      exact isNew (by rw [size, ← same])
    simpa [span?, Draft.slot?, Draft.add, Array.getElem?_push, older]
      using given

theorem modify
    (draft : Draft)
    (id : NodeId)
    (change : StoryKind → StoryKind) :
    KeepsSpans draft (draft.modify id change) := by
  intro other span given
  by_cases same : other = id
  · subst same
    simpa [span?, slot?_modify, Option.bind_map, Function.comp_def]
      using given
  · have apart : id.index ≠ other.index := by
      cases id
      cases other
      simpa [eq_comm] using same
    simpa [span?, Draft.slot?, Draft.modify, Array.getElem?_modify, apart]
      using given

theorem keepOldest
    (draft : Draft)
    (count : Nat) :
    KeepsSpans draft (draft.keepOldest count) := by
  intro id span given
  simp only [span?, slot?, Draft.keepOldest, Array.take_eq_extract,
    ← Array.getElem?_toList, Array.toList_extract, List.extract_eq_take_drop,
    List.drop_zero, Nat.sub_zero, List.getElem?_take] at given ⊢
  split at given
  · exact given
  · cases given

theorem joinChoices
    (draft : Draft)
    (loose content : List NodeId) :
    KeepsSpans draft (draft.joinChoices loose content) := by
  induction content generalizing draft loose with
  | nil =>
      exact .refl draft
  | cons id rest inductionHypothesis =>
      unfold Draft.joinChoices
      split
      · exact inductionHypothesis _ _
      · exact (modify _ _ _).trans (inductionHypothesis _ _)
      · exact inductionHypothesis _ _

mutual

theorem placeItem
    (item : WeaveTree)
    (draft : Draft) :
    KeepsSpans draft (Draft.placeItem item draft).2 := by
  cases item with
  | leaf id =>
      exact .refl draft
  | nested base items =>
      exact
        (placeItems items draft).trans
          ((joinChoices _ _ _).trans (add _ _))

theorem placeItems
    (items : List WeaveTree)
    (draft : Draft) :
    KeepsSpans draft (Draft.placeItems items draft).2 := by
  cases items with
  | nil =>
      exact .refl draft
  | cons item items =>
      exact (placeItem item draft).trans (placeItems items _)

end

/-- Weaves get no span of their own, and change none. -/
theorem weaveAndFlows
    (draft : Draft)
    (content : List NodeId) :
    KeepsSpans draft (draft.weaveAndFlows content).2 := by
  simp only [Draft.weaveAndFlows, Draft.weave]
  exact placeItem _ _

end KeepsSpans

namespace SeenFrom

theorem empty
    (origin : Cursor) :
    SeenFrom origin {} := by
  intro id span given
  simp [span?, slot?] at given

theorem addSpan
    {span? : Option Span}
    (seen : draft.SeenFrom origin)
    (kind : StoryKind)
    (spanSeen : ∀ span ∈ span?, SpanSeenFrom origin span) :
    SeenFrom origin (draft.add kind span?).2 := by
  intro id span given
  by_cases isNew : id = ⟨draft.size⟩
  · subst isNew
    simp only [Draft.span?, slot?_add, Option.bind_some] at given
    exact spanSeen span given
  · have older : id.index ≠ draft.slots.size := by
      rintro same
      exact isNew (by rw [size, ← same])
    refine seen id span ?_
    simpa [Draft.span?, slot?, add, Array.getElem?_push, older] using given

theorem setSpan
    (seen : draft.SeenFrom origin)
    (spanSeen : SpanSeenFrom origin span)
    (id : NodeId) :
    SeenFrom origin (draft.setSpan span id) := by
  intro other found given
  by_cases same : other = id
  · subst same
    have own := seen other
    simp only [span?, slot?_setSpan] at given own
    cases made : draft.slot? other with
    | none =>
        simp [made] at given
    | some slot =>
        rw [made] at own
        cases earlier : slot.span with
        | none =>
            simp [made, earlier] at given
            exact given ▸ spanSeen
        | some old =>
            simp [made, earlier] at given
            exact own found (by simp [earlier, given])
  · have apart : id.index ≠ other.index := by
      cases id
      cases other
      simpa [eq_comm] using same
    refine seen other found ?_
    simpa [span?, slot?, Draft.setSpan, Array.getElem?_modify, apart]
      using given

theorem setSpans
    (seen : draft.SeenFrom origin)
    (spanSeen : SpanSeenFrom origin span)
    (ids : List NodeId) :
    SeenFrom origin (draft.setSpans span ids) := by
  induction ids generalizing draft with
  | nil =>
      exact seen
  | cons id rest inductionHypothesis =>
      exact inductionHypothesis (seen.setSpan spanSeen id)

/-- The ends of a covering span are ends of spans that it covers. -/
theorem cover
    {left right : Span}
    (leftSeen : SpanSeenFrom origin left)
    (rightSeen : SpanSeenFrom origin right) :
    SpanSeenFrom origin (left.cover right) := by
  constructor
  · simp only [Span.cover, Position.earlier]
    split
    · exact leftSeen.1
    · exact rightSeen.1
  · simp only [Span.cover, Position.later]
    split
    · exact rightSeen.2
    · exact leftSeen.2

theorem cover?
    (seen : draft.SeenFrom origin)
    (ids : List NodeId) :
    ∀ span ∈ draft.cover? ids, SpanSeenFrom origin span := by
  cases ids with
  | nil =>
      intro span given
      cases given
  | cons first rest =>
      have further
          (covered : Option Span)
          (coveredSeen : ∀ span ∈ covered, SpanSeenFrom origin span) :
          ∀ span ∈ rest.foldl
              (fun covered id => do
                return (← covered).cover (← draft.span? id))
              covered,
            SpanSeenFrom origin span := by
        induction rest generalizing covered with
        | nil =>
            exact coveredSeen
        | cons id rest inductionHypothesis =>
            refine inductionHypothesis _ ?_
            intro span given
            simp only [bind, pure, Option.mem_def, Option.bind_eq_some_iff]
              at given
            obtain ⟨left, isLeft, right, isRight, isCover⟩ := given
            cases isCover
            exact cover (coveredSeen left isLeft) (seen id right isRight)
      exact further _ (seen first)

theorem addSpanning
    (seen : draft.SeenFrom origin)
    (kind : StoryKind) :
    SeenFrom origin (draft.addSpanning kind).2 :=
  seen.addSpan kind (seen.cover? kind.children)

end SeenFrom

end InkSyntax.Draft
