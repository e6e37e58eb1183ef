import InkSyntax.Grammar.Craft
import InkSyntax.Proofs.Machine.Guarantee
import InkSyntax.Proofs.Story.Kinds
import Mathlib.Data.List.Perm.Subperm

namespace InkSyntax

/-!
# Trees in a draft

Some nodes of a draft are the roots of trees that share no node.  Such a forest is
what a rule of the grammar is given and gives: making a node plants a new root on
top of given trees, and whatever happens elsewhere in the draft leaves a forest
alone.

The forest also settles where spans lie.  A node with a span holds the spans below
it; a node without one will take over that of its parent, so its children have to
lie where it lies itself.
-/

/-- The position is one that reading on from a cursor comes by. -/
def Cursor.Sees (origin : Cursor) (position : Position) : Prop :=
  ∃ count, position = (origin.advance count).position

theorem Cursor.Reaches.sees
    {origin cursor : Cursor}
    (reaches : origin.Reaches cursor) :
    origin.Sees cursor.position := by
  obtain ⟨count, rfl⟩ := reaches
  exact ⟨count, rfl⟩

/-- A span runs from one seen position to a later one, within two offsets. -/
structure Span.LiesWithin
    (origin : Cursor)
    (low high : Nat)
    (span : Span) : Prop where
  low_le : low ≤ span.start.offset
  ordered : span.start.offset ≤ span.stop.offset
  le_high : span.stop.offset ≤ high
  start_seen : origin.Sees span.start
  stop_seen : origin.Sees span.stop

namespace Slot

/-- Where the nodes below a node may begin. -/
def low (slot : Slot) (outer : Nat) : Nat :=
  slot.span.elim outer (·.start.offset)

/-- Where the nodes below a node must end. -/
def high (slot : Slot) (outer : Nat) : Nat :=
  slot.span.elim outer (·.stop.offset)

end Slot

namespace Draft

variable
    {origin : Cursor}
    {admits : Story → Prop}
    {draft after : Draft}

/-- Roots of trees within two offsets, and all nodes of these trees in order. -/
inductive Forest
    (origin : Cursor)
    (admits : Story → Prop)
    (draft : Draft) :
    Nat → Nat → List NodeId → List NodeId → Prop where
  | nil {low high : Nat} :
      Forest origin admits draft low high [] []
  | cons
      {low high : Nat}
      {id : NodeId}
      {slot : Slot}
      {below rest others : List NodeId}
      (made : draft.slot? id = some slot)
      (includes :
        ∀ story, slot.kind = .includedFile (some story) → admits story)
      (lies : ∀ span ∈ slot.span, span.LiesWithin origin low high)
      (children :
        Forest origin admits draft (slot.low low) (slot.high high)
          slot.kind.children below)
      (siblings : Forest origin admits draft low high rest others) :
      Forest origin admits draft low high (id :: rest)
        (id :: (below ++ others))

/-- Some nodes are in a draft, and so is all that is below them. -/
def Knows (draft : Draft) (known : List NodeId) : Prop :=
  ∀ id ∈ known,
    ∃ slot, draft.slot? id = some slot ∧ slot.kind.children ⊆ known

/-- Nodes are there if their numbers were given. -/
theorem missingAmong?_eq_none_iff
    {ids : List NodeId} :
    draft.missingAmong? ids = none ↔ ∀ id ∈ ids, id.index < draft.size := by
  simp [missingAmong?, kind?, slot?, size]

namespace Knows

variable {known : List NodeId}

/-- A known node is there to be looked at. -/
theorem exists_kind
    (knows : draft.Knows known)
    {id : NodeId}
    (isKnown : id ∈ known) :
    ∃ kind, draft.kind? id = some kind ∧ kind.children ⊆ known := by
  obtain ⟨slot, made, children⟩ := knows id isKnown
  exact ⟨slot.kind, by simp [kind?, made], children⟩

/-- None of some known nodes is missing. -/
theorem missingAmong?_eq_none
    (knows : draft.Knows known)
    {ids : List NodeId}
    (areKnown : ids ⊆ known) :
    draft.missingAmong? ids = none := by
  refine missingAmong?_eq_none_iff.mpr fun id member => ?_
  obtain ⟨slot, made, -⟩ := knows id (areKnown member)
  exact (Array.getElem?_eq_some_iff.mp made).1

/-- Below a known node no node is missing. -/
theorem missingWithin?_eq_none
    (knows : draft.Knows known)
    (levels : Nat)
    {id : NodeId}
    (isKnown : id ∈ known) :
    draft.missingWithin? levels id = none := by
  induction levels generalizing id with
  | zero =>
      rfl
  | succ levels inductionHypothesis =>
      obtain ⟨kind, found, children⟩ := knows.exists_kind isKnown
      simp only [missingWithin?, found, List.findSome?_eq_none_iff]
      exact fun child isChild => inductionHypothesis (children isChild)

end Knows

/-- A draft grew, and of its nodes only some were touched. -/
structure Spares (touched : List NodeId) (before after : Draft) : Prop where
  size_le : before.size ≤ after.size
  slot? :
    ∀ id, id.index < before.size → id ∉ touched →
      after.slot? id = before.slot? id

namespace Spares

variable {before middle : Draft} {touched : List NodeId}

theorem refl
    (touched : List NodeId)
    (draft : Draft) :
    Spares touched draft draft :=
  ⟨Nat.le_refl _, fun _ _ _ => rfl⟩

/-- Nodes that are touched later may also be new. -/
theorem trans
    {touchedThen : List NodeId}
    (first : Spares touched before middle)
    (second : Spares touchedThen middle after)
    (old :
      ∀ id ∈ touchedThen, id.index < before.size → id ∈ touched) :
    Spares touched before after where
  size_le := Nat.le_trans first.size_le second.size_le
  slot? id made untouched := by
    rw [second.slot? id (Nat.lt_of_lt_of_le made first.size_le)
      fun touches => untouched (old id touches made)]
    exact first.slot? id made untouched

/-- All that is touched later was touched before or is new. -/
theorem follow
    {found : List NodeId}
    (first : Spares touched before middle)
    (known : ∀ id ∈ found, id ∈ touched ∨ before.size ≤ id.index)
    (second : Spares found middle after) :
    Spares touched before after := by
  apply first.trans second
  intro id member old
  rcases known id member with touches | made
  · exact touches
  · exact absurd old (Nat.not_lt_of_le made)

theorem mono
    {more : List NodeId}
    (spares : Spares touched before after)
    (subset : ∀ id ∈ touched, id.index < before.size → id ∈ more) :
    Spares more before after :=
  (refl more before).trans spares subset

/-- If nothing was touched, the oldest nodes are all that there was. -/
theorem keepOldest
    (spares : Spares [] before after) :
    after.keepOldest before.size = before := by
  obtain ⟨slots⟩ := before
  obtain ⟨slotsAfter⟩ := after
  simp only [Draft.keepOldest, Draft.mk.injEq]
  apply Array.toList_inj.mp
  apply List.ext_getElem?
  intro index
  simp only [Array.take_eq_extract, Array.toList_extract,
    List.extract_eq_take_drop, List.drop_zero, Nat.sub_zero, List.getElem?_take]
  by_cases old : index < slots.size
  · have same := spares.slot? ⟨index⟩ old List.not_mem_nil
    simp only [Draft.slot?] at same
    simpa [size, old] using same
  · simp [size, old]

/-- Forgetting all that is new does not undo what was touched. -/
theorem rewind
    (spares : Spares touched before after) :
    Spares touched before (after.keepOldest before.size) where
  size_le := by
    have grown := spares.size_le
    simp only [size] at grown
    simp [Draft.keepOldest, size, grown]
  slot? id made untouched := by
    rw [← spares.slot? id made untouched]
    simp only [size] at made
    simp only [Draft.keepOldest, Draft.slot?, size]
    rw [Array.take_eq_extract, ← Array.getElem?_toList, Array.toList_extract,
      List.extract_eq_take_drop, List.drop_zero, Nat.sub_zero,
      List.getElem?_take, if_pos made, Array.getElem?_toList]

end Spares

theorem lt_size_of_slot?
    {id : NodeId}
    {slot : Slot}
    (made : draft.slot? id = some slot) :
    id.index < draft.size := by
  obtain ⟨bound, -⟩ := Array.getElem?_eq_some_iff.mp made
  exact bound

namespace Forest

variable
    {low high : Nat}
    {roots nodes : List NodeId}

theorem mem_of_root
    (forest : Forest origin admits draft low high roots nodes)
    {id : NodeId}
    (root : id ∈ roots) :
    id ∈ nodes := by
  induction forest with
  | nil =>
      exact root
  | cons made includes lies children siblings _ siblingsHypothesis =>
      rcases List.mem_cons.mp root with rfl | later
      · exact List.mem_cons_self
      · exact
          List.mem_cons_of_mem _
            (List.mem_append_right _ (siblingsHypothesis later))

theorem lt_size
    (forest : Forest origin admits draft low high roots nodes)
    {id : NodeId}
    (member : id ∈ nodes) :
    id.index < draft.size := by
  induction forest with
  | nil =>
      exact absurd member List.not_mem_nil
  | cons made includes lies children siblings childrenHypothesis
      siblingsHypothesis =>
      rcases List.mem_cons.mp member with rfl | inside
      · exact lt_size_of_slot? made
      · rcases List.mem_append.mp inside with below | beside
        · exact childrenHypothesis below
        · exact siblingsHypothesis beside

/-- A forest includes no other stories than are admitted. -/
theorem admits_of_mem
    (forest : Forest origin admits draft low high roots nodes)
    {id : NodeId}
    {slot : Slot}
    {story : Story}
    (member : id ∈ nodes)
    (made : draft.slot? id = some slot)
    (included : slot.kind = .includedFile (some story)) :
    admits story := by
  induction forest with
  | nil =>
      cases member
  | cons isMade includes lies children siblings childrenHypothesis
      siblingsHypothesis =>
      rcases List.mem_cons.mp member with rfl | inside
      · cases isMade.symm.trans made
        exact includes story included
      · rcases List.mem_append.mp inside with below | beside
        · exact childrenHypothesis below
        · exact siblingsHypothesis beside

/-- Below the nodes of a forest there are only nodes of it. -/
theorem knows
    (forest : Forest origin admits draft low high roots nodes) :
    draft.Knows nodes := by
  induction forest with
  | nil =>
      intro id member
      cases member
  | cons made includes lies children siblings childrenHypothesis
      siblingsHypothesis =>
      intro id member
      rcases List.mem_cons.mp member with rfl | inside
      · refine ⟨_, made, fun child isChild => ?_⟩
        have isBelow := children.mem_of_root isChild
        exact List.mem_cons_of_mem _ (List.mem_append_left _ isBelow)
      · rcases List.mem_append.mp inside with below | beside
        · obtain ⟨slot, found, closed⟩ := childrenHypothesis id below
          refine ⟨slot, found, fun child isChild => ?_⟩
          have isBelow := closed isChild
          exact List.mem_cons_of_mem _ (List.mem_append_left _ isBelow)
        · obtain ⟨slot, found, closed⟩ := siblingsHypothesis id beside
          refine ⟨slot, found, fun child isChild => ?_⟩
          have isBeside := closed isChild
          exact List.mem_cons_of_mem _ (List.mem_append_right _ isBeside)

/-- A forest stands in any stretch around its own. -/
theorem mono
    {lower higher : Nat}
    (forest : Forest origin admits draft low high roots nodes)
    (lower_le : lower ≤ low)
    (le_higher : high ≤ higher) :
    Forest origin admits draft lower higher roots nodes := by
  induction forest generalizing lower higher with
  | nil =>
      exact .nil
  | @cons low high id slot _ _ _ made includes lies children siblings
      childrenHypothesis siblingsHypothesis =>
      refine
        .cons made includes ?_ (childrenHypothesis ?_ ?_)
          (siblingsHypothesis lower_le le_higher)
      · intro span isSpan
        have inside := lies span isSpan
        exact
          { inside with
            low_le := Nat.le_trans lower_le inside.low_le
            le_high := Nat.le_trans inside.le_high le_higher }
      · unfold Slot.low
        cases slot.span with
        | none =>
            exact lower_le
        | some span =>
            exact Nat.le_refl _
      · unfold Slot.high
        cases slot.span with
        | none =>
            exact le_higher
        | some span =>
            exact Nat.le_refl _

/-- A forest stands as long as none of its nodes is touched. -/
theorem spared
    {touched : List NodeId}
    (forest : Forest origin admits draft low high roots nodes)
    (spares : draft.Spares touched after)
    (untouched : ∀ id ∈ nodes, id ∉ touched) :
    Forest origin admits after low high roots nodes := by
  induction forest with
  | nil =>
      exact .nil
  | cons made includes lies children siblings childrenHypothesis
      siblingsHypothesis =>
      have same :=
        spares.slot? _ (lt_size_of_slot? made)
          (untouched _ List.mem_cons_self)
      refine
        .cons (same.trans made) includes lies
          (childrenHypothesis fun id below => ?_)
          (siblingsHypothesis fun id beside => ?_)
      · exact
          untouched id
            (List.mem_cons_of_mem _ (List.mem_append_left _ below))
      · exact
          untouched id
            (List.mem_cons_of_mem _ (List.mem_append_right _ beside))

theorem append
    {moreRoots moreNodes : List NodeId}
    (forest : Forest origin admits draft low high roots nodes)
    (more : Forest origin admits draft low high moreRoots moreNodes) :
    Forest origin admits draft low high (roots ++ moreRoots)
      (nodes ++ moreNodes) := by
  induction forest with
  | nil =>
      exact more
  | cons made includes lies children siblings _ siblingsHypothesis =>
      have joined := siblingsHypothesis more
      simp only [List.cons_append, List.append_assoc]
      exact .cons made includes lies children joined

theorem exists_append
    {first second : List NodeId}
    (forest : Forest origin admits draft low high (first ++ second) nodes) :
    ∃ firstNodes secondNodes,
      nodes = firstNodes ++ secondNodes ∧
        Forest origin admits draft low high first firstNodes ∧
        Forest origin admits draft low high second secondNodes := by
  induction first generalizing nodes with
  | nil =>
      exact ⟨[], nodes, rfl, .nil, forest⟩
  | cons id rest inductionHypothesis =>
      cases forest with
      | cons made includes lies children siblings =>
          obtain ⟨firstNodes, secondNodes, rfl, firstForest, secondForest⟩ :=
            inductionHypothesis siblings
          refine
            ⟨_, secondNodes, ?_,
              .cons made includes lies children firstForest, secondForest⟩
          simp

/-- The order of the roots does not matter. -/
theorem perm
    {others : List NodeId}
    (forest : Forest origin admits draft low high roots nodes)
    (same : roots.Perm others) :
    ∃ found,
      Forest origin admits draft low high others found ∧
        nodes.Perm found := by
  induction same generalizing nodes with
  | nil =>
      exact ⟨nodes, forest, .refl nodes⟩
  | cons id _ inductionHypothesis =>
      cases forest with
      | @cons _ _ _ _ below _ _ made includes lies children siblings =>
          obtain ⟨found, standing, same⟩ := inductionHypothesis siblings
          exact
            ⟨_, .cons made includes lies children standing,
              (same.append_left below).cons id⟩
  | swap second first rest =>
      cases forest with
      | @cons _ _ _ _ below _ _ made includes lies children siblings =>
          cases siblings with
          | @cons _ _ _ _ below' _ others made' includes' lies' children'
              siblings' =>
              refine
                ⟨_, .cons made' includes' lies' children'
                  (.cons made includes lies children siblings'), ?_⟩
              rw [List.perm_iff_count]
              intro id
              simp only [List.count_cons, List.count_append]
              omega
  | trans _ _ firstHypothesis secondHypothesis =>
      obtain ⟨found, standing, same⟩ := firstHypothesis forest
      obtain ⟨found', standing', same'⟩ := secondHypothesis standing
      exact ⟨found', standing', same.trans same'⟩

/-- Some trees of a forest are a forest again. -/
theorem subperm
    {some : List NodeId}
    (forest : Forest origin admits draft low high roots nodes)
    (among : some.Subperm roots) :
    ∃ found,
      Forest origin admits draft low high some found ∧
        found.Subperm nodes := by
  obtain ⟨ordered, reordered, sublist⟩ := among
  obtain ⟨others, split⟩ := sublist.exists_perm_append
  obtain ⟨found, standing, sameNodes⟩ :=
    forest.perm (split.trans (reordered.append_right others))
  obtain ⟨someNodes, otherNodes, rfl, someForest, -⟩ :=
    standing.exists_append
  exact
    ⟨someNodes, someForest,
      ((List.sublist_append_left _ _).subperm).trans
        sameNodes.symm.subperm⟩

end Forest

end Draft

end InkSyntax
