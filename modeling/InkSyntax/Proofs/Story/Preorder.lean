import InkSyntax.Proofs.Story.FrozenGathers

namespace InkSyntax

/-!
# The order of the nodes in a story

Freezing numbers each node just before the nodes below it, and these one after the
other.  So what stands below a node has the numbers that follow its own, and walking
down the child lists comes by them in turn.  Parents have smaller numbers than their
children, so walking up comes to the root.
-/

namespace Story

/-- The second node is a child of the first, or stands below one. -/
abbrev IsAbove (story : Story) : NodeId → NodeId → Prop :=
  Relation.TransGen fun outer inner => inner ∈ story.children outer

/-- Trees that are numbered on from a number, each node before those below it.

Before the second number all their nodes have their numbers. -/
inductive Spreads (story : Story) : Nat → List NodeId → Nat → Prop where
  | nil {first : Nat} :
      Spreads story first [] first
  | cons
      {first middle last : Nat}
      {kind : StoryKind}
      {rest : List NodeId}
      (isKind : story.kind? ⟨first⟩ = some kind)
      (children : Spreads story (first + 1) kind.children middle)
      (siblings : Spreads story middle rest last) :
      Spreads story first (⟨first⟩ :: rest) last

variable
    {story : Story}
    {first middle last steps : Nat}
    {roots more : List NodeId}
    {id outer inner : NodeId}

theorem children_eq
    {kind : StoryKind}
    (isKind : story.kind? id = some kind) :
    story.children id = kind.children := by
  simp [children, isKind]

theorem lt_size_of_kind?
    {kind : StoryKind}
    (isKind : story.kind? id = some kind) :
    id.index < story.size := by
  obtain ⟨node, isNode, -⟩ := Option.map_eq_some_iff.mp isKind
  exact (List.getElem?_eq_some_iff.mp isNode).1

namespace Spreads

theorem le
    (spreads : story.Spreads first roots last) :
    first ≤ last := by
  induction spreads with
  | nil =>
      exact Nat.le_refl _
  | cons isKind children siblings childrenHypothesis siblingsHypothesis =>
      omega

theorem append
    (spreads : story.Spreads first roots middle)
    (others : story.Spreads middle more last) :
    story.Spreads first (roots ++ more) last := by
  induction spreads with
  | nil =>
      exact others
  | cons isKind children siblings _ siblingsHypothesis =>
      exact .cons isKind children (siblingsHypothesis others)

theorem mem_range_of_root
    (spreads : story.Spreads first roots last)
    (root : id ∈ roots) :
    first ≤ id.index ∧ id.index < last := by
  induction spreads with
  | nil =>
      cases root
  | cons isKind children siblings _ siblingsHypothesis =>
      have below := children.le
      have beside := siblings.le
      rcases List.mem_cons.mp root with rfl | isOther
      · exact ⟨Nat.le_refl _, Nat.lt_of_lt_of_le below beside⟩
      · obtain ⟨from_, until_⟩ := siblingsHypothesis isOther
        exact ⟨by omega, until_⟩

/-- The trees below any of the nodes are numbered on from it. -/
theorem exists_below
    (spreads : story.Spreads first roots last)
    (from_ : first ≤ id.index)
    (until_ : id.index < last) :
    ∃ stop,
      story.Spreads (id.index + 1) (story.children id) stop ∧ stop ≤ last := by
  induction spreads with
  | nil =>
      omega
  | @cons first middle last kind rest isKind children siblings childrenHypothesis
      siblingsHypothesis =>
      have beside := siblings.le
      rcases Nat.lt_or_ge id.index middle with isBelow | isBeside
      · rcases Nat.eq_or_lt_of_le from_ with isFirst | isLater
        · have isRoot : id = ⟨first⟩ := congrArg NodeId.mk isFirst.symm
          rw [isRoot, children_eq isKind]
          exact ⟨middle, children, beside⟩
        · obtain ⟨stop, spreads, ends⟩ := childrenHypothesis isLater isBelow
          exact ⟨stop, spreads, by omega⟩
      · exact siblingsHypothesis isBeside until_

/-- Walking through the trees comes by their nodes in the order of their numbers. -/
theorem subtreesFrom_eq
    {count : Nat}
    (spreads : story.Spreads first roots (first + count))
    (enough : count ≤ steps) :
    story.subtreesFrom steps roots = (List.range' first count).map NodeId.mk := by
  induction count generalizing first roots steps with
  | zero =>
      cases roots with
      | nil =>
          cases steps <;> rfl
      | cons root rest =>
          have range := spreads.mem_range_of_root List.mem_cons_self
          omega
  | succ count inductionHypothesis =>
      obtain ⟨steps, rfl⟩ : ∃ fewer, steps = fewer + 1 :=
        ⟨steps - 1, by omega⟩
      generalize isLast : first + (count + 1) = last at spreads
      cases spreads with
      | nil =>
          omega
      | @cons _ middle _ kind rest isKind children siblings =>
          have follow :
              story.Spreads (first + 1) (kind.children ++ rest) (first + 1 + count) := by
            rw [show first + 1 + count = last by omega]
            exact children.append siblings
          rw [subtreesFrom, children_eq isKind,
            inductionHypothesis follow (by omega), List.range'_succ,
            List.map_cons]

/-- What the roots reach are the nodes with these numbers. -/
theorem exists_root_iff
    (spreads : story.Spreads first roots last) :
    (∃ root ∈ roots,
        Relation.ReflTransGen (fun outer inner => inner ∈ story.children outer)
          root id) ↔
      first ≤ id.index ∧ id.index < last := by
  constructor
  · rintro ⟨root, isRoot, reaches⟩
    induction reaches with
    | refl =>
        exact spreads.mem_range_of_root isRoot
    | tail _ isChild inductionHypothesis =>
        obtain ⟨from_, until_⟩ := inductionHypothesis
        obtain ⟨stop, below, ends⟩ := spreads.exists_below from_ until_
        have range := below.mem_range_of_root isChild
        omega
  · rintro ⟨from_, until_⟩
    induction spreads with
    | nil =>
        omega
    | @cons first middle last kind rest isKind children siblings
        childrenHypothesis siblingsHypothesis =>
        rcases Nat.lt_or_ge id.index middle with isBelow | isBeside
        · rcases Nat.eq_or_lt_of_le from_ with isFirst | isLater
          · have isRoot : (⟨first⟩ : NodeId) = id := congrArg NodeId.mk isFirst
            exact ⟨_, List.mem_cons_self, isRoot ▸ .refl⟩
          · obtain ⟨child, isChild, reaches⟩ := childrenHypothesis isLater isBelow
            rw [← children_eq isKind] at isChild
            exact ⟨_, List.mem_cons_self, .head isChild reaches⟩
        · obtain ⟨root, isRoot, reaches⟩ := siblingsHypothesis isBeside until_
          exact ⟨root, List.mem_cons_of_mem _ isRoot, reaches⟩

section Whole

variable (spreads : story.Spreads 0 [Story.root] story.size)

include spreads

/-- The nodes below one have the numbers that follow its own. -/
theorem exists_descendants_eq
    (inRange : id.index < story.size) :
    ∃ count,
      id.index + count < story.size ∧
        ∀ steps, story.size ≤ steps →
          story.subtreesFrom steps (story.children id) =
            (List.range' (id.index + 1) count).map NodeId.mk := by
  obtain ⟨stop, below, ends⟩ := spreads.exists_below (Nat.zero_le _) inRange
  obtain ⟨count, rfl⟩ := Nat.exists_eq_add_of_le below.le
  exact
    ⟨count, by omega, fun steps enough => below.subtreesFrom_eq (by omega)⟩

/-- A walk down the child lists finds all nodes below one. -/
theorem mem_descendants_iff
    (inRange : id.index < story.size)
    (inner : NodeId) :
    inner ∈ story.descendants id ↔ story.IsAbove id inner := by
  obtain ⟨stop, below, ends⟩ := spreads.exists_below (Nat.zero_le _) inRange
  obtain ⟨count, rfl⟩ := Nat.exists_eq_add_of_le below.le
  rw [descendants, below.subtreesFrom_eq (by omega), IsAbove,
    Relation.TransGen.head'_iff, below.exists_root_iff]
  constructor
  · intro member
    obtain ⟨index, inRun, rfl⟩ := List.mem_map.mp member
    simpa [List.mem_range'_1] using inRun
  · intro inRun
    exact List.mem_map.mpr ⟨inner.index, by simpa [List.mem_range'_1] using inRun, rfl⟩

end Whole

end Spreads

namespace IsTree

variable (isTree : story.IsTree)

include isTree

theorem parent?_root :
    story.parent? Story.root = none := by
  obtain ⟨⟨node, content, isNode, -, noParent⟩, -⟩ := isTree.root
  simp [parent?, isNode, noParent]

/-- The root is nobody's child. -/
theorem range_of_mem_children
    (isChild : inner ∈ story.children outer) :
    0 < inner.index ∧ inner.index < story.size := by
  obtain ⟨node, isNode, listed⟩ := exists_node_of_mem_children isChild
  have member : node ∈ story.nodes := List.mem_of_getElem? isNode
  refine
    ⟨Nat.pos_of_ne_zero fun isFirst => isTree.root.2 ?_,
      isTree.inRange node member inner listed⟩
  have isRoot : inner = Story.root := congrArg NodeId.mk isFirst
  exact List.mem_flatMap.mpr ⟨node, member, isRoot ▸ listed⟩

/-- Parent links and child lists tell the same. -/
theorem parent?_eq_some_iff :
    story.parent? inner = some outer ↔ inner ∈ story.children outer := by
  constructor
  · intro isParent
    obtain ⟨node, isNode, -⟩ := Option.bind_eq_some_iff.mp isParent
    have inRange : inner.index < story.size :=
      (List.getElem?_eq_some_iff.mp isNode).1
    have notRoot : 0 < inner.index := by
      refine Nat.pos_of_ne_zero fun isFirst => ?_
      have isRoot : inner = Story.root := congrArg NodeId.mk isFirst
      rw [isRoot, isTree.parent?_root] at isParent
      cases isParent
    obtain ⟨above, isAbove, -, isChild, -⟩ := isTree.below inner notRoot inRange
    rw [isParent] at isAbove
    rwa [Option.some.inj isAbove]
  · intro isChild
    obtain ⟨notRoot, inRange⟩ := isTree.range_of_mem_children isChild
    obtain ⟨above, isAbove, -, isOther, -⟩ := isTree.below inner notRoot inRange
    rw [isAbove, isTree.eq_of_mem_children inner isOther isChild]

theorem lt_of_parent
    (isParent : story.parent? inner = some outer) :
    outer.index < inner.index := by
  obtain ⟨notRoot, inRange⟩ :=
    isTree.range_of_mem_children (isTree.parent?_eq_some_iff.mp isParent)
  obtain ⟨above, isAbove, before, -⟩ := isTree.below inner notRoot inRange
  rw [isParent] at isAbove
  rwa [Option.some.inj isAbove]

/-- What a parent hands down to its children holds everywhere. -/
theorem induction_down
    {motive : NodeId → Prop}
    (step :
      ∀ inner,
        (∀ outer, story.parent? inner = some outer → motive outer) →
        motive inner)
    (id : NodeId) :
    motive id := by
  induction atIndex : id.index using Nat.strong_induction_on generalizing id with
  | _ index inductionHypothesis =>
      subst atIndex
      exact step id fun outer isParent =>
        inductionHypothesis outer.index (isTree.lt_of_parent isParent) outer rfl

/-- Walking up is not cut short once there are as many steps as nodes before. -/
theorem parentsFrom_eq
    {fewer : Nat}
    (enough : id.index ≤ fewer)
    (more : fewer ≤ steps) :
    story.parentsFrom steps id = story.parentsFrom fewer id := by
  induction fewer generalizing id steps with
  | zero =>
      have isRoot : id = Story.root :=
        congrArg NodeId.mk (Nat.le_zero.mp enough)
      cases steps with
      | zero =>
          rfl
      | succ steps =>
          simp only [parentsFrom, isRoot, isTree.parent?_root]
  | succ fewer inductionHypothesis =>
      obtain ⟨steps, rfl⟩ : ∃ others, steps = others + 1 :=
        ⟨steps - 1, by omega⟩
      rw [parentsFrom, parentsFrom]
      cases isParent : story.parent? id with
      | none =>
          rfl
      | some parent =>
          have before := isTree.lt_of_parent isParent
          simp only
          rw [inductionHypothesis (by omega) (by omega)]

theorem ancestors_of_parent
    (isParent : story.parent? inner = some outer) :
    story.ancestors inner = outer :: story.ancestors outer := by
  obtain ⟨-, inRange⟩ :=
    isTree.range_of_mem_children (isTree.parent?_eq_some_iff.mp isParent)
  have before := isTree.lt_of_parent isParent
  have unfolded :
      story.ancestors inner = story.parentsFrom (story.size + 1) inner :=
    (isTree.parentsFrom_eq (Nat.le_of_lt inRange) (Nat.le_succ _)).symm
  rw [unfolded, parentsFrom, isParent, ancestors]

omit isTree in
theorem ancestors_of_no_parent
    (noParent : story.parent? id = none) :
    story.ancestors id = [] := by
  rw [ancestors]
  cases story.size with
  | zero =>
      rfl
  | succ steps =>
      rw [parentsFrom, noParent]

/-- The ancestors of a node are the nodes that it is below. -/
theorem mem_ancestors_iff :
    outer ∈ story.ancestors inner ↔ story.IsAbove outer inner := by
  induction inner using isTree.induction_down with
  | step inner inductionHypothesis =>
      rw [IsAbove, Relation.TransGen.tail'_iff]
      cases isParent : story.parent? inner with
      | none =>
          rw [ancestors_of_no_parent isParent]
          constructor
          · intro member
            cases member
          · rintro ⟨parent, -, isChild⟩
            rw [isTree.parent?_eq_some_iff.mpr isChild] at isParent
            cases isParent
      | some parent =>
          rw [isTree.ancestors_of_parent isParent, List.mem_cons,
            inductionHypothesis parent isParent]
          constructor
          · intro above
            refine ⟨parent, ?_, isTree.parent?_eq_some_iff.mp isParent⟩
            rcases above with rfl | above
            · exact .refl
            · exact above.to_reflTransGen
          · rintro ⟨other, reaches, isChild⟩
            rw [isTree.parent?_eq_some_iff.mpr isChild] at isParent
            cases isParent
            exact (Relation.reflTransGen_iff_eq_or_transGen.mp reaches).imp
              Eq.symm id

/-- Going up, the numbers fall. -/
theorem pairwise_ancestors
    (id : NodeId) :
    (id :: story.ancestors id).Pairwise fun inner outer =>
      outer.index < inner.index := by
  induction id using isTree.induction_down with
  | step inner inductionHypothesis =>
      cases isParent : story.parent? inner with
      | none =>
          rw [ancestors_of_no_parent isParent]
          exact List.pairwise_singleton _ _
      | some outer =>
          rw [isTree.ancestors_of_parent isParent]
          have falls := inductionHypothesis outer isParent
          have before := isTree.lt_of_parent isParent
          refine List.pairwise_cons.mpr ⟨fun above member => ?_, falls⟩
          rcases List.mem_cons.mp member with rfl | further
          · exact before
          · exact Nat.lt_trans ((List.pairwise_cons.mp falls).1 above further)
              before

/-- Going up from any node ends at the root. -/
theorem getLast?_ancestors
    (inRange : id.index < story.size) :
    (id :: story.ancestors id).getLast? = some Story.root := by
  induction id using isTree.induction_down with
  | step inner inductionHypothesis =>
      cases isParent : story.parent? inner with
      | none =>
          have isFirst : inner.index = 0 := by
            by_contra notFirst
            obtain ⟨outer, isOuter, -⟩ :=
              isTree.below inner (Nat.pos_of_ne_zero notFirst) inRange
            rw [isParent] at isOuter
            cases isOuter
          rw [ancestors_of_no_parent isParent]
          exact congrArg some (congrArg NodeId.mk isFirst)
      | some outer =>
          have before := isTree.lt_of_parent isParent
          rw [isTree.ancestors_of_parent isParent, List.getLast?_cons_cons]
          exact inductionHypothesis outer isParent
            (Nat.lt_trans before inRange)

end IsTree

end Story

namespace Draft.Freezes

variable
    {draft : Draft}
    {root : NodeId}
    {rootSpan : Span}
    {first : Nat}
    {parent : Option NodeId}
    {roots : List NodeId}
    {entries part : List (NodeId × Option NodeId)}
    {frozen : Array StoryNode}
    (freezes : Freezes draft root rootSpan entries frozen)

include freezes

theorem exists_kind
    (file : Option String)
    {index : Nat}
    {id : NodeId}
    (entry : entries[index]? = some (id, parent)) :
    ∃ kind,
      (Story.mk file (spanRoot rootSpan frozen)).kind? ⟨index⟩ = some kind ∧
        kind.children = (draft.childrenOf id).map (renumber draft root) := by
  have children := congrArg (·[index]?) freezes.childLists
  simp only [List.getElem?_map, entry, Option.map_some] at children
  obtain ⟨node, isNode, lists⟩ := Option.map_eq_some_iff.mp children
  refine ⟨node.kind, ?_, lists⟩
  simp [Story.kind?, Story.node?, Story.nodes, isNode]

/-- A part of the listing is numbered on from its place in it. -/
theorem spreads_of_listing
    (file : Option String)
    (listing : Listing draft first parent roots part)
    (lies : ∀ index, index < part.length → entries[first + index]? = part[index]?) :
    (Story.mk file (spanRoot rootSpan frozen)).Spreads first
      (roots.map (renumber draft root)) (first + part.length) := by
  induction listing with
  | nil =>
      exact .nil
  | @cons first parent id slot rest below others made children siblings
      childrenHypothesis siblingsHypothesis =>
      have entry : entries[first]? = some (id, parent) := by
        simpa using lies 0 (Nat.succ_pos _)
      have inChildren := childrenHypothesis fun index bound => by
        have here := lies (index + 1)
        simp only [List.length_cons, List.length_append] at here
        rw [Nat.add_assoc, Nat.add_comm 1, here (by omega),
          List.getElem?_cons_succ, List.getElem?_append_left bound]
      have inSiblings := siblingsHypothesis fun index bound => by
        have here := lies (below.length + index + 1)
        simp only [List.length_cons, List.length_append] at here
        rw [show first + 1 + below.length + index =
            first + (below.length + index + 1) by omega,
          here (by omega), List.getElem?_cons_succ,
          List.getElem?_append_right (by omega), Nat.add_sub_cancel_left]
      obtain ⟨kind, isKind, lists⟩ := freezes.exists_kind file entry
      rw [childrenOf_eq made] at lists
      rw [← lists] at inChildren
      rw [List.map_cons, freezes.renumber_eq entry]
      refine .cons isKind inChildren ?_
      simpa only [List.length_cons, List.length_append, Nat.add_assoc,
        Nat.add_comm 1] using inSiblings

/-- A story is numbered on from its root. -/
theorem spreads
    (file : Option String) :
    (Story.mk file (spanRoot rootSpan frozen)).Spreads 0 [Story.root]
      (Story.mk file (spanRoot rootSpan frozen)).size := by
  have whole :=
    freezes.spreads_of_listing file freezes.listing fun index _ => by
      rw [Nat.zero_add]
  rw [List.map_singleton, freezes.renumber_eq freezes.first, Nat.zero_add,
    ← freezes.length_spanRoot] at whole
  exact whole

end Draft.Freezes

end InkSyntax
