import InkSyntax.Proofs.Machine.Cursors
import InkSyntax.Proofs.Story.Freezing

namespace InkSyntax

/-!
# Where the nodes of a story lie

Positions count from the start of a text, so whatever a cursor comes by on its way
through a text has the line and the column of its offset there.  Every node that is
frozen without a span takes its parent's; as the trees of a draft keep the children
of such a node where the node itself lies, spans end up nested.
-/

/-- Line and column of a position are those of its offset in a text. -/
structure Position.IsIn
    (text : List Char)
    (position : Position) : Prop where
  offset_le : position.offset ≤ text.length
  line : position.line = 1 + (text.take position.offset).count '\n'
  column :
    position.column =
      1 + ((text.take position.offset).reverse.takeWhile (· != '\n')).length

/-- All nodes of a story lie in a text, each within its parent. -/
structure Story.LiesIn
    (text : List Char)
    (story : Story) : Prop where
  start_isIn : ∀ node ∈ story.nodes, node.span.start.IsIn text
  stop_isIn : ∀ node ∈ story.nodes, node.span.stop.IsIn text
  ordered :
    ∀ node ∈ story.nodes, node.span.start.offset ≤ node.span.stop.offset
  nested :
    ∀ node ∈ story.nodes, ∀ parent ∈ node.parent,
      ∃ above,
        story.node? parent = some above ∧
          above.span.contains node.span = true

namespace Cursor

theorem Sees.isIn
    {text : List Char}
    {position : Position}
    (sees : (Cursor.atStart text).Sees position) :
    position.IsIn text := by
  obtain ⟨count, rfl⟩ := sees
  have atStart : (Cursor.atStart text).Follows [] := ⟨rfl, rfl, rfl⟩
  have follows : ((Cursor.atStart text).advance count).Follows (text.take count) :=
    atStart.advance count
  have offset :
      ((Cursor.atStart text).advance count).offset = min count text.length := by
    rw [follows.offset, List.length_take]
  have taken :
      text.take ((Cursor.atStart text).advance count).offset = text.take count := by
    rw [offset, ← List.take_eq_take_min]
  constructor
  · exact le_of_eq_of_le offset (Nat.min_le_right _ _)
  · simp only [Cursor.position, taken, follows.line, Nat.add_comm]
  · simp only [Cursor.position, taken, follows.column, Nat.add_comm]

end Cursor

theorem Span.LiesWithin.contains
    {origin : Cursor}
    {inner outer : Span}
    (lies :
      inner.LiesWithin origin outer.start.offset outer.stop.offset) :
    outer.contains inner = true := by
  simp [Span.contains, lies.low_le, lies.le_high]

namespace Draft

variable
    {origin : Cursor}
    {admits : Story → Prop}
    {draft : Draft}
    {low high : Nat}
    {root id : NodeId}
    {rootSpan span : Span}
    {roots nodes : List NodeId}
    {entries : List (NodeId × Option NodeId)}
    {frozen : Array StoryNode}

/-- Each root of a forest has a tree of its own below it. -/
theorem Forest.exists_slot
    (forest : Forest origin admits draft low high roots nodes)
    (isRoot : id ∈ roots) :
    ∃ slot below,
      draft.slot? id = some slot ∧
        (∀ span ∈ slot.span, span.LiesWithin origin low high) ∧
        Forest origin admits draft (slot.low low) (slot.high high)
          slot.kind.children below := by
  induction forest with
  | nil =>
      cases isRoot
  | cons made includes lies children siblings _ siblingsHypothesis =>
      rcases List.mem_cons.mp isRoot with rfl | later
      · exact ⟨_, _, made, lies, children⟩
      · exact siblingsHypothesis later

/-- A node has got a span, and all trees below it lie within that. -/
structure Settles
    (origin : Cursor)
    (admits : Story → Prop)
    (draft : Draft)
    (id : NodeId)
    (span : Span) : Prop where
  lies : span.LiesWithin origin span.start.offset span.stop.offset
  below :
    ∃ below,
      Forest origin admits draft span.start.offset span.stop.offset
        (draft.childrenOf id) below

/-- A root takes its own span, or one that all roots lie within. -/
theorem Forest.settles
    (forest :
      Forest origin admits draft span.start.offset span.stop.offset roots
        nodes)
    (lies : span.LiesWithin origin span.start.offset span.stop.offset)
    (isRoot : id ∈ roots)
    {slot : Slot}
    (made : draft.slot? id = some slot) :
    Settles origin admits draft id (slot.span.getD span) ∧
      (slot.span.getD span).LiesWithin origin span.start.offset
        span.stop.offset := by
  obtain ⟨own, below, isOwn, ownLies, children⟩ := forest.exists_slot isRoot
  cases isOwn.symm.trans made
  have childrenOf : draft.childrenOf id = slot.kind.children := by
    simp [Draft.childrenOf, kind?, made]
  cases isSpan : slot.span with
  | none =>
      simp only [Slot.low, Slot.high, isSpan, Option.elim_none] at children
      rw [← childrenOf] at children
      exact ⟨⟨lies, below, children⟩, lies⟩
  | some inner =>
      have innerLies := ownLies inner isSpan
      simp only [Slot.low, Slot.high, isSpan, Option.elim_some] at children
      rw [← childrenOf] at children
      refine ⟨⟨?_, below, children⟩, innerLies⟩
      exact { innerLies with
        low_le := Nat.le_refl _
        le_high := Nat.le_refl _ }

theorem span_frozenNode
    {numbering : Numbering}
    {earlier : Array StoryNode}
    {slot : Slot}
    {parent : Option NodeId} :
    (frozenNode numbering rootSpan earlier slot parent).span =
      slot.span.getD
        (((parent.bind fun above => earlier[above.index]?).map (·.span)).getD
          rootSpan) := by
  simp only [frozenNode]
  cases slot.span <;> rfl

namespace Freezes

variable
    (freezes : Freezes draft root rootSpan entries frozen)
    (forest :
      Forest origin admits draft rootSpan.start.offset rootSpan.stop.offset
        [root] nodes)
    (lies :
      rootSpan.LiesWithin origin rootSpan.start.offset rootSpan.stop.offset)

include freezes forest lies

/-- Every frozen node has all trees below it within its span, and lies within its parent's. -/
theorem settles
    {index : Nat}
    {parent : Option NodeId}
    {node : StoryNode}
    (entry : entries[index]? = some (id, parent))
    (isNode : frozen[index]? = some node) :
    Settles origin admits draft id node.span ∧
      ∀ place ∈ parent, ∀ above, frozen[place.index]? = some above →
        node.span.LiesWithin origin above.span.start.offset
          above.span.stop.offset := by
  induction index using Nat.strongRecOn generalizing id parent node with
  | ind index inductionHypothesis =>
      obtain ⟨slot, made, isFrozen⟩ := freezes.node entry
      cases isNode.symm.trans isFrozen
      rcases freezes.visits.parent_of entry with
        ⟨isRoot, rfl⟩ | ⟨place, outer, further, rfl, before, isOuter, isChild⟩
      · obtain ⟨settled, -⟩ := forest.settles lies isRoot made
        rw [span_frozenNode]
        exact ⟨settled, fun place isPlace => by cases isPlace⟩
      · obtain ⟨aboveSlot, -, isAbove⟩ := freezes.node isOuter
        obtain ⟨⟨liesAbove, below, forestBelow⟩, -⟩ :=
          inductionHypothesis place before isOuter isAbove
        obtain ⟨settled, within⟩ := forestBelow.settles liesAbove isChild made
        rw [Nat.zero_add, span_frozenNode, Option.bind_some, isAbove,
          Option.map_some, Option.getD_some]
        refine ⟨settled, fun outerPlace isPlace above isThere => ?_⟩
        cases isPlace
        cases isThere.symm.trans isAbove
        exact within

theorem root_lies
    {node : StoryNode}
    (isNode : frozen[0]? = some node) :
    node.span.LiesWithin origin rootSpan.start.offset
      rootSpan.stop.offset := by
  obtain ⟨slot, made, isFrozen⟩ := freezes.node freezes.first
  cases isNode.symm.trans isFrozen
  rw [span_frozenNode]
  exact (forest.settles lies (List.mem_singleton_self root) made).2

/-- The nodes of the story lie in the text, each within its parent. -/
theorem liesIn
    {text : List Char}
    {file : Option String}
    (isStart : origin = Cursor.atStart text) :
    (Story.mk file (spanRoot rootSpan frozen)).LiesIn text := by
  subst isStart
  have liesOwn
      (node : StoryNode)
      (member : node ∈ spanRoot rootSpan frozen) :
      node.span.LiesWithin (.atStart text) node.span.start.offset
        node.span.stop.offset := by
    obtain ⟨index, id, inner, entry, isInner, -, isSpan⟩ :=
      freezes.exists_frozen member
    rw [isSpan]
    split
    · exact lies
    · exact (freezes.settles forest lies entry isInner).1.lies
  refine
    ⟨fun node member => (liesOwn node member).start_seen.isIn,
      fun node member => (liesOwn node member).stop_seen.isIn,
      fun node member => (liesOwn node member).ordered, ?_⟩
  intro node member parent isParent
  obtain ⟨index, id, inner, entry, isInner, -, isSpan⟩ :=
    freezes.exists_frozen member
  rw [isParent] at entry
  rcases freezes.visits.parent_of entry with
    ⟨-, isRoot⟩ | ⟨place, outer, further, isPlace, before, isOuter, -⟩
  · cases isRoot
  · obtain rfl : parent = ⟨place⟩ := by
      simpa using isPlace
    obtain ⟨aboveSlot, -, isAbove⟩ := freezes.node isOuter
    have within := (freezes.settles forest lies entry isInner).2 _ rfl _ isAbove
    rw [if_neg (by omega)] at isSpan
    have isThere :
        (Story.mk file (spanRoot rootSpan frozen)).node? ⟨place⟩ = _ :=
      getElem?_spanRoot place
    rw [isAbove, Option.map_some] at isThere
    refine ⟨_, isThere, ?_⟩
    rw [isSpan]
    split
    · next isRoot =>
        rw [isRoot] at isAbove
        have outerWithin := freezes.root_lies forest lies isAbove
        exact
          Span.LiesWithin.contains
            { within with
              low_le := Nat.le_trans outerWithin.low_le within.low_le
              le_high := Nat.le_trans within.le_high outerWithin.le_high }
    · exact within.contains

end Freezes

end Draft

end InkSyntax
