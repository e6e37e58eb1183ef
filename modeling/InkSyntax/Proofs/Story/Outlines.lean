import InkSyntax.Proofs.Story.Preorder
import InkSyntax.Proofs.Text.Unbroken
import InkSyntax.Story.Outline
import Mathlib.Algebra.GroupWithZero.Nat
import Mathlib.Algebra.Order.BigOperators.Group.List
import Mathlib.Algebra.Order.Group.Nat
import Mathlib.Data.List.Induction

namespace InkSyntax

/-!
# What an outline lists

An outline goes through the numbers of the nodes and looks up their depths, which come
from the parent links.  Going down the child lists instead, and into the stories of
included files, comes by the same nodes in the same order, since nodes are numbered
that way.  So an outline lists each node of a story and of all that it includes.
-/

/-- What a line of an outline is about: a node of a story, some levels deep. -/
structure OutlineLine where
  level : Nat
  story : Story
  id : NodeId

namespace OutlineLine

/-- The text of a line, up to its line feed: the indentation, the label and, if wanted, the span. -/
def text (withSpans : Bool) (line : OutlineLine) : String :=
  match line.story.node? line.id with
  | some node =>
      String.ofList (List.replicate (2 * line.level) ' ') ++
        line.story.label line.id node.kind ++
          if withSpans then s!"  @{node.span.display}" else ""
  | none => ""

end OutlineLine

namespace Story

/-- Nodes with all below them, in the order of the text, each with the level that it stands at.

An included story stands below the node that includes it. -/
inductive Lists : Story → Nat → List NodeId → List OutlineLine → Prop where
  | nil {story : Story} {level : Nat} :
      Lists story level [] []
  | node
      {story : Story}
      {level : Nat}
      {id : NodeId}
      {kind : StoryKind}
      {rest : List NodeId}
      {below beside : List OutlineLine}
      (isKind : story.kind? id = some kind)
      (includesNone : ∀ inner, kind ≠ .includedFile (some inner))
      (children : Lists story (level + 1) kind.children below)
      (siblings : Lists story level rest beside) :
      Lists story level (id :: rest) (⟨level, story, id⟩ :: (below ++ beside))
  | inclusion
      {story inner : Story}
      {level : Nat}
      {id : NodeId}
      {rest : List NodeId}
      {below beside : List OutlineLine}
      (isKind : story.kind? id = some (.includedFile (some inner)))
      (inside : Lists inner (level + 1) [Story.root] below)
      (siblings : Lists story level rest beside) :
      Lists story level (id :: rest) (⟨level, story, id⟩ :: (below ++ beside))

mutual

/-- Number of the nodes of a story and of all stories that it includes. -/
def total : Story → Nat
  | .mk _ nodes => totalNodes nodes

/-- The nodes of a list, and those of the stories that they include. -/
def totalNodes : List (Node Story) → Nat
  | [] => 0
  | node :: others => totalNode node + totalNodes others

/-- A node, and those of the story that it includes. -/
def totalNode : Node Story → Nat
  | ⟨kind, _, _⟩ => totalKind kind + 1

/-- The nodes of an included story. -/
def totalKind : NodeKind Story → Nat
  | .includedFile (some included) => total included
  | _ => 0

end

variable
    {story inner : Story}
    {withSpans : Bool}
    {depth level first last : Nat}
    {roots : List NodeId}
    {id outer : NodeId}
    {kind : StoryKind}
    {lines : List OutlineLine}

section Totals

theorem total_eq
    (story : Story) :
    story.total = story.size + (story.includedStories.map total).sum := by
  obtain ⟨file, nodes⟩ := story
  simp only [total, size, includedStories, Story.nodes]
  induction nodes with
  | nil =>
      rfl
  | cons node others inductionHypothesis =>
      obtain ⟨kind, parent, span⟩ := node
      rw [totalNodes, totalNode, inductionHypothesis, List.length_cons]
      cases kind with
      | includedFile included =>
          cases included with
          | none =>
              simp only [totalKind, List.filterMap_cons]
              omega
          | some included =>
              simp only [totalKind, List.filterMap_cons, List.map_cons,
                List.sum_cons]
              omega
      | _ =>
          simp only [totalKind, List.filterMap_cons]
          omega

theorem total_lt
    (member : inner ∈ story.includedStories) :
    inner.total < story.total := by
  have includer : 0 < story.size := by
    obtain ⟨node, isNode, -⟩ := List.mem_filterMap.mp member
    exact List.length_pos_of_mem isNode
  have among : inner.total ≤ (story.includedStories.map total).sum :=
    List.le_sum_of_mem (List.mem_map_of_mem member)
  rw [total_eq story]
  omega

/-- What an including story has from those that it includes holds of all stories. -/
theorem induction_included
    {motive : Story → Prop}
    (step :
      ∀ story, (∀ inner ∈ story.includedStories, motive inner) → motive story)
    (story : Story) :
    motive story := by
  induction isTotal : story.total using Nat.strong_induction_on generalizing story with
  | _ total inductionHypothesis =>
      subst isTotal
      exact step story fun inner member =>
        inductionHypothesis inner.total (total_lt member) inner rfl

end Totals

section Depths

/-- The depth of a node, given the depths of the nodes before it. -/
def depthAfter (known : Array Nat) (node : StoryNode) : Nat :=
  (node.parent.map fun parent => (known[parent.index]?).getD 0 + 1).getD 0

/-- The depths of some nodes, each found with those before it. -/
def depthsOf (nodes : List StoryNode) : Array Nat :=
  nodes.foldl (fun known node => known.push (depthAfter known node)) #[]

theorem depthsOf_append_singleton
    (nodes : List StoryNode)
    (last : StoryNode) :
    depthsOf (nodes ++ [last]) =
      (depthsOf nodes).push (depthAfter (depthsOf nodes) last) :=
  List.foldl_append

@[simp] theorem size_depthsOf
    (nodes : List StoryNode) :
    (depthsOf nodes).size = nodes.length := by
  induction nodes using List.reverseRecOn with
  | nil =>
      rfl
  | append_singleton nodes last inductionHypothesis =>
      rw [depthsOf_append_singleton, Array.size_push, inductionHypothesis,
        List.length_append, List.length_singleton]

/-- What comes later does not matter for a node whose parent is known. -/
theorem depthAfter_push
    {known : Array Nat}
    {node : StoryNode}
    (before : ∀ parent, node.parent = some parent → parent.index < known.size)
    (next : Nat) :
    depthAfter (known.push next) node = depthAfter known node := by
  unfold depthAfter
  cases isParent : node.parent with
  | none =>
      rfl
  | some parent =>
      have isBefore := before parent isParent
      rw [Option.map_some, Option.map_some, Array.getElem?_push,
        if_neg (by omega)]

theorem getElem?_depthsOf
    {nodes : List StoryNode}
    {index : Nat}
    {node : StoryNode}
    (isNode : nodes[index]? = some node)
    (before : ∀ parent, node.parent = some parent → parent.index < index) :
    (depthsOf nodes)[index]? = some (depthAfter (depthsOf nodes) node) := by
  induction nodes using List.reverseRecOn with
  | nil =>
      cases isNode
  | append_singleton nodes last inductionHypothesis =>
      have inRange := (List.getElem?_eq_some_iff.mp isNode).1
      rw [List.length_append, List.length_singleton] at inRange
      have known :
          ∀ parent, node.parent = some parent →
            parent.index < (depthsOf nodes).size := by
        intro parent isParent
        have isBefore := before parent isParent
        rw [size_depthsOf]
        omega
      rw [depthsOf_append_singleton, depthAfter_push known, Array.getElem?_push,
        size_depthsOf]
      split
      · next isLast =>
          subst isLast
          rw [List.getElem?_concat_length] at isNode
          rw [Option.some.inj isNode]
      · next isEarlier =>
          rw [List.getElem?_append_left (by omega)] at isNode
          exact inductionHypothesis isNode

/-- The root is not below any node. -/
theorem IsTree.depths_root
    (isTree : story.IsTree) :
    story.depths[Story.root.index]? = some 0 := by
  obtain ⟨⟨node, content, isNode, -, noParent⟩, -⟩ := isTree.root
  have known :=
    getElem?_depthsOf isNode fun parent isParent => by
      rw [noParent] at isParent
      cases isParent
  rw [depthAfter, noParent] at known
  rw [← Array.getElem?_toList] at known
  exact known

/-- A child is one level below its parent. -/
theorem IsTree.depths_child
    (isTree : story.IsTree)
    (isChild : id ∈ story.children outer)
    (isLevel : story.depths[outer.index]? = some level) :
    story.depths[id.index]? = some (level + 1) := by
  have isParent := isTree.parent?_eq_some_iff.mpr isChild
  have isBefore := isTree.lt_of_parent isParent
  obtain ⟨node, isNode, above⟩ := Option.bind_eq_some_iff.mp isParent
  have known :=
    getElem?_depthsOf isNode fun parent isOther => by
      rw [above] at isOther
      exact Option.some.inj isOther ▸ isBefore
  have parentLevel : (depthsOf story.nodes)[outer.index]? = some level := by
    rw [← Array.getElem?_toList]
    exact isLevel
  rw [depthAfter, above, Option.map_some, parentLevel] at known
  rw [← Array.getElem?_toList] at known
  exact known

end Depths

/-- The nodes of a story form a tree, and they are numbered in its order. -/
structure IsOrdered (story : Story) : Prop where
  isTree : story.IsTree
  spreads : story.Spreads 0 [Story.root] story.size

/-- The second story is the first, or included in it, be it by way of others. -/
abbrev Comprises : Story → Story → Prop :=
  Relation.ReflTransGen fun outer inner => inner ∈ outer.includedStories

/-- An outline that begins at some depth has a line for each of the listed nodes. -/
structure Outlines
    (story : Story)
    (withSpans : Bool)
    (depth : Nat)
    (lines : List OutlineLine) : Prop where
  lists : story.Lists depth [Story.root] lines
  shown :
    story.outlineLines withSpans depth = lines.map fun line => line.text withSpans ++ "\n"
  total : lines.length = story.total

section Lines

theorem drop_eq_cons
    {α : Type}
    {values : List α}
    {index : Nat}
    {value : α}
    (isValue : values[index]? = some value) :
    values.drop index = value :: values.drop (index + 1) := by
  obtain ⟨inRange, rfl⟩ := List.getElem?_eq_some_iff.mp isValue
  exact List.drop_eq_getElem_cons inRange

/-- A node has one line, and what it includes follows that. -/
theorem outlineNodes_drop
    {node : StoryNode}
    (isNode : story.nodes[first]? = some node)
    (isLevel : story.depths[first]? = some level) :
    outlineNodes withSpans depth story (story.depths.drop first) first
        (story.nodes.drop first) =
      ((OutlineLine.mk (depth + level) story ⟨first⟩).text withSpans ++ "\n") ::
        (outlineKind withSpans (depth + level + 1) node.kind ++
          outlineNodes withSpans depth story (story.depths.drop (first + 1)) (first + 1)
            (story.nodes.drop (first + 1))) := by
  have isFound : story.node? ⟨first⟩ = some node := isNode
  obtain ⟨kind, parent, span⟩ := node
  rw [drop_eq_cons isNode, drop_eq_cons isLevel]
  simp only [outlineNodes, outlineNode, List.headD_cons, List.tail_cons,
    OutlineLine.text, isFound, line, List.cons_append]

theorem totalNodes_drop
    {node : StoryNode}
    (isNode : story.nodes[first]? = some node) :
    totalNodes (story.nodes.drop first) =
      totalKind node.kind + 1 + totalNodes (story.nodes.drop (first + 1)) := by
  obtain ⟨kind, parent, span⟩ := node
  rw [drop_eq_cons isNode, totalNodes, totalNode]

/-- Nothing follows the line of a node that includes no story. -/
theorem outlineKind_eq_nil
    (includesNone : ∀ inner, kind ≠ .includedFile (some inner)) :
    outlineKind withSpans depth kind = [] ∧ totalKind kind = 0 := by
  cases kind with
  | includedFile included =>
      cases included with
      | none => exact ⟨rfl, rfl⟩
      | some inner => exact absurd rfl (includesNone inner)
  | _ => exact ⟨rfl, rfl⟩

theorem mem_includedStories_iff :
    inner ∈ story.includedStories ↔
      ∃ id, story.kind? id = some (.includedFile (some inner)) := by
  constructor
  · intro member
    obtain ⟨node, isIn, includes⟩ := List.mem_filterMap.mp member
    obtain ⟨index, isNode⟩ := List.mem_iff_getElem?.mp isIn
    refine ⟨⟨index⟩, Option.map_eq_some_iff.mpr ⟨node, isNode, ?_⟩⟩
    split at includes
    · next isKind => rw [isKind, includes]
    · cases includes
  · rintro ⟨id, isKind⟩
    obtain ⟨node, isNode, includes⟩ := Option.map_eq_some_iff.mp isKind
    exact
      List.mem_filterMap.mpr
        ⟨node, List.mem_of_getElem? isNode, by rw [includes]⟩

/-- Trees of a story are shown as they are listed, with what they include. -/
theorem exists_lists_of_spreads
    (isTree : story.IsTree)
    (outlines :
      ∀ inner ∈ story.includedStories,
        ∀ depth, ∃ lines, inner.Outlines withSpans depth lines)
    (spreads : story.Spreads first roots last)
    (levels : ∀ root ∈ roots, story.depths[root.index]? = some level) :
    ∃ lines,
      story.Lists (depth + level) roots lines ∧
        outlineNodes withSpans depth story (story.depths.drop first) first
            (story.nodes.drop first) =
          lines.map (fun line => line.text withSpans ++ "\n") ++
            outlineNodes withSpans depth story (story.depths.drop last) last
              (story.nodes.drop last) ∧
        totalNodes (story.nodes.drop first) =
          lines.length + totalNodes (story.nodes.drop last) := by
  induction spreads generalizing level with
  | nil =>
      exact ⟨[], .nil, rfl, (Nat.zero_add _).symm⟩
  | @cons first middle last kind rest isKind children siblings childrenHypothesis
      siblingsHypothesis =>
      obtain ⟨node, isNode, rfl⟩ := Option.map_eq_some_iff.mp isKind
      obtain ⟨isLevel, otherLevels⟩ := List.forall_mem_cons.mp levels
      obtain ⟨beside, listsBeside, shownBeside, totalBeside⟩ :=
        siblingsHypothesis otherLevels
      by_cases includes : ∃ inner, node.kind = .includedFile (some inner)
      · obtain ⟨inner, includes⟩ := includes
        obtain ⟨below, lists, shown, total⟩ :=
          outlines inner (mem_includedStories_iff.mpr ⟨_, includes ▸ isKind⟩)
            (depth + level + 1)
        -- An included story takes the place of children, so the next number comes next.
        rw [includes] at children
        cases children
        refine
          ⟨_, .inclusion (includes ▸ isKind) lists listsBeside, ?_, ?_⟩
        · rw [outlineNodes_drop isNode isLevel, includes, outlineKind, shown,
            shownBeside, List.map_cons, List.map_append, List.cons_append,
            List.append_assoc]
        · rw [totalNodes_drop isNode, includes, totalKind, ← total, totalBeside,
            List.length_cons, List.length_append]
          omega
      · have includesNone (inner : Story) : node.kind ≠ .includedFile (some inner) :=
          fun same => includes ⟨inner, same⟩
        obtain ⟨noLines, noNodes⟩ :
            outlineKind withSpans (depth + level + 1) node.kind = [] ∧
              totalKind node.kind = 0 :=
          outlineKind_eq_nil includesNone
        have childLevels :
            ∀ child ∈ node.kind.children,
              story.depths[child.index]? = some (level + 1) := by
          intro child isChild
          rw [← children_eq isKind] at isChild
          exact isTree.depths_child isChild isLevel
        obtain ⟨below, listsBelow, shownBelow, totalBelow⟩ :=
          childrenHypothesis childLevels
        refine
          ⟨_, .node isKind includesNone listsBelow listsBeside, ?_, ?_⟩
        · rw [outlineNodes_drop isNode isLevel, noLines, List.nil_append, shownBelow,
            shownBeside, List.map_cons, List.map_append, List.cons_append,
            List.append_assoc]
        · rw [totalNodes_drop isNode, noNodes, totalBelow, totalBeside,
            List.length_cons, List.length_append]
          omega

/-- An outline lists a story with all that it includes, if these are all in order. -/
theorem exists_outlines
    (withSpans : Bool)
    (areOrdered : ∀ inner, story.Comprises inner → inner.IsOrdered)
    (depth : Nat) :
    ∃ lines, story.Outlines withSpans depth lines := by
  induction story using induction_included generalizing depth with
  | step story inductionHypothesis =>
      have isOrdered := areOrdered story .refl
      have outlines
          (inner : Story)
          (member : inner ∈ story.includedStories) :=
        inductionHypothesis inner member fun other includes =>
          areOrdered other (.head member includes)
      obtain ⟨lines, lists, shown, total⟩ :=
        exists_lists_of_spreads isOrdered.isTree outlines isOrdered.spreads
          (List.forall_mem_singleton.mpr isOrdered.isTree.depths_root)
      obtain ⟨file, nodes⟩ := story
      refine ⟨lines, lists, ?_, ?_⟩
      · simpa [outlineLines, outlineNodes, Story.nodes, size] using shown
      · simpa [Story.total, totalNodes, Story.nodes, size] using total.symm

end Lines

section Coverage

namespace Lists

/-- What is below a listed node in its story is listed too. -/
theorem exists_mem_of_reaches
    (lists : story.Lists level roots lines)
    {root : NodeId}
    (isRoot : root ∈ roots)
    (reaches :
      Relation.ReflTransGen (fun outer inner => inner ∈ story.children outer) root id) :
    ∃ level, ⟨level, story, id⟩ ∈ lines := by
  induction lists generalizing root with
  | nil =>
      cases isRoot
  | @node story level first kind rest below beside isKind _ _ _ childrenHypothesis
      siblingsHypothesis =>
      rcases List.mem_cons.mp isRoot with rfl | isOther
      · rcases reaches.cases_head with rfl | ⟨child, isChild, reaches⟩
        · exact ⟨level, List.mem_cons_self⟩
        · rw [children_eq isKind] at isChild
          obtain ⟨level, member⟩ := childrenHypothesis isChild reaches
          exact ⟨level, List.mem_cons_of_mem _ (List.mem_append_left _ member)⟩
      · obtain ⟨level, member⟩ := siblingsHypothesis isOther reaches
        exact ⟨level, List.mem_cons_of_mem _ (List.mem_append_right _ member)⟩
  | @inclusion story inner level first rest below beside isKind _ _ _
      siblingsHypothesis =>
      rcases List.mem_cons.mp isRoot with rfl | isOther
      · rcases reaches.cases_head with rfl | ⟨child, isChild, -⟩
        · exact ⟨level, List.mem_cons_self⟩
        · rw [children_eq isKind] at isChild
          cases isChild
      · obtain ⟨level, member⟩ := siblingsHypothesis isOther reaches
        exact ⟨level, List.mem_cons_of_mem _ (List.mem_append_right _ member)⟩

/-- The story that a listed node includes is listed too, from its root. -/
theorem exists_lists_included
    (lists : story.Lists level roots lines)
    {line : OutlineLine}
    (member : line ∈ lines)
    (includes : line.story.kind? line.id = some (.includedFile (some inner))) :
    ∃ level below, inner.Lists level [Story.root] below ∧ below ⊆ lines := by
  have further
      {first : OutlineLine}
      {below beside found : List OutlineLine}
      (among : found ⊆ below ∨ found ⊆ beside) :
      found ⊆ first :: (below ++ beside) := by
    apply List.subset_cons_of_subset
    rcases among with isBelow | isBeside
    · exact List.subset_append_of_subset_left _ isBelow
    · exact List.subset_append_of_subset_right _ isBeside
  induction lists with
  | nil =>
      cases member
  | node isKind includesNone _ _ childrenHypothesis siblingsHypothesis =>
      rcases List.mem_cons.mp member with rfl | isOther
      · rw [isKind] at includes
        exact absurd (Option.some.inj includes) (includesNone inner)
      · rcases List.mem_append.mp isOther with isBelow | isBeside
        · obtain ⟨level, found, lists, among⟩ := childrenHypothesis isBelow
          exact ⟨level, found, lists, further (.inl among)⟩
        · obtain ⟨level, found, lists, among⟩ := siblingsHypothesis isBeside
          exact ⟨level, found, lists, further (.inr among)⟩
  | inclusion isKind inside _ insideHypothesis siblingsHypothesis =>
      rcases List.mem_cons.mp member with rfl | isOther
      · rw [isKind] at includes
        cases includes
        exact ⟨_, _, inside, further (.inl (List.Subset.refl _))⟩
      · rcases List.mem_append.mp isOther with isBelow | isBeside
        · obtain ⟨level, found, lists, among⟩ := insideHypothesis isBelow
          exact ⟨level, found, lists, further (.inl among)⟩
        · obtain ⟨level, found, lists, among⟩ := siblingsHypothesis isBeside
          exact ⟨level, found, lists, further (.inr among)⟩

/-- With a story all that it includes are listed, each from its root. -/
theorem exists_lists_of_comprises
    (lists : story.Lists level [Story.root] lines)
    (areOrdered : ∀ inner, story.Comprises inner → inner.IsOrdered)
    (comprises : story.Comprises inner) :
    ∃ level below, inner.Lists level [Story.root] below ∧ below ⊆ lines := by
  induction comprises with
  | refl =>
      exact ⟨level, lines, lists, List.Subset.refl _⟩
  | @tail outer inner reaches member inductionHypothesis =>
      obtain ⟨level, found, lists, among⟩ := inductionHypothesis
      obtain ⟨id, includes⟩ := mem_includedStories_iff.mp member
      have inRange := lt_size_of_kind? includes
      obtain ⟨root, isRoot, isBelow⟩ :=
        (areOrdered outer reaches).spreads.exists_root_iff.mpr
          ⟨Nat.zero_le _, inRange⟩
      obtain ⟨level, isListed⟩ := lists.exists_mem_of_reaches isRoot isBelow
      obtain ⟨level, below, lists, inside⟩ :=
        lists.exists_lists_included isListed includes
      exact ⟨level, below, lists, List.Subset.trans inside among⟩

/-- Every node of these stories is listed. -/
theorem exists_mem_of_comprises
    (lists : story.Lists level [Story.root] lines)
    (areOrdered : ∀ inner, story.Comprises inner → inner.IsOrdered)
    (comprises : story.Comprises inner)
    (isKind : inner.kind? id = some kind) :
    ∃ level, ⟨level, inner, id⟩ ∈ lines := by
  obtain ⟨level, below, lists, among⟩ :=
    lists.exists_lists_of_comprises areOrdered comprises
  obtain ⟨root, isRoot, isBelow⟩ :=
    (areOrdered inner comprises).spreads.exists_root_iff.mpr
      ⟨Nat.zero_le _, lt_size_of_kind? isKind⟩
  obtain ⟨level, isListed⟩ := lists.exists_mem_of_reaches isRoot isBelow
  exact ⟨level, among isListed⟩

/-- Nothing else is listed. -/
theorem comprises_of_mem
    (lists : story.Lists level roots lines)
    {line : OutlineLine}
    (member : line ∈ lines) :
    story.Comprises line.story ∧ ∃ node, line.story.node? line.id = some node := by
  induction lists with
  | nil =>
      cases member
  | node isKind _ _ _ childrenHypothesis siblingsHypothesis =>
      rcases List.mem_cons.mp member with rfl | isOther
      · obtain ⟨node, isNode, -⟩ := Option.map_eq_some_iff.mp isKind
        exact ⟨.refl, node, isNode⟩
      · rcases List.mem_append.mp isOther with isBelow | isBeside
        · exact childrenHypothesis isBelow
        · exact siblingsHypothesis isBeside
  | inclusion isKind _ _ insideHypothesis siblingsHypothesis =>
      rcases List.mem_cons.mp member with rfl | isOther
      · obtain ⟨node, isNode, -⟩ := Option.map_eq_some_iff.mp isKind
        exact ⟨.refl, node, isNode⟩
      · rcases List.mem_append.mp isOther with isBelow | isBeside
        · obtain ⟨comprises, isNode⟩ := insideHypothesis isBelow
          exact ⟨.head (mem_includedStories_iff.mpr ⟨_, isKind⟩) comprises, isNode⟩
        · exact siblingsHypothesis isBeside

end Lists

end Coverage

end Story

namespace OutlineLine

variable
    {line : OutlineLine}
    {node : StoryNode}

/-- A line is broken just where its label is. -/
theorem unbroken_text_iff
    (withSpans : Bool)
    (isNode : line.story.node? line.id = some node) :
    Unbroken (line.text withSpans) ↔
      Unbroken (line.story.label line.id node.kind) := by
  have indentation (count : Nat) :
      Unbroken (String.ofList (List.replicate count ' ')) := by
    simp [unbroken_ofList]
  have span : Unbroken (if withSpans then s!"  @{node.span.display}" else "") := by
    split <;> simp +decide [Span.unbroken_display]
  simp only [text, isNode, unbroken_append, indentation, span, true_and, and_true]

end OutlineLine

namespace Story.Outlines

variable
    {story : Story}
    {withSpans : Bool}
    {lines : List OutlineLine}

/-- The lines of an outline are broken just where labels of the listed nodes are. -/
theorem unbroken_texts_iff
    (outlines : story.Outlines withSpans 0 lines)
    (areOrdered : ∀ inner, story.Comprises inner → inner.IsOrdered) :
    (∀ line ∈ lines, Unbroken (line.text withSpans)) ↔
      ∀ inner, story.Comprises inner →
        ∀ id kind, inner.kind? id = some kind → Unbroken (inner.label id kind) := by
  constructor
  · intro unbroken inner comprises id kind isKind
    obtain ⟨level, member⟩ :=
      outlines.lists.exists_mem_of_comprises areOrdered comprises isKind
    obtain ⟨node, isNode, rfl⟩ := Option.map_eq_some_iff.mp isKind
    exact (OutlineLine.unbroken_text_iff withSpans isNode).mp (unbroken _ member)
  · intro unbroken line member
    obtain ⟨comprises, node, isNode⟩ := outlines.lists.comprises_of_mem member
    exact
      (OutlineLine.unbroken_text_iff withSpans isNode).mpr
        (unbroken line.story comprises line.id node.kind
          (Option.map_eq_some_iff.mpr ⟨node, isNode, rfl⟩))

theorem outline_eq
    (outlines : story.Outlines withSpans 0 lines) :
    story.outline withSpans =
      String.join (lines.map fun line => line.text withSpans ++ "\n") :=
  congrArg String.join outlines.shown

theorem toList_outline
    (outlines : story.Outlines withSpans 0 lines) :
    (story.outline withSpans).toList =
      (lines.map fun line => (line.text withSpans).toList).flatMap (· ++ ['\n']) := by
  rw [outlines.outline_eq, String.toList_join, List.flatMap_map, List.flatMap_map]
  simp only [String.toList_append]
  rfl

/-- An outline has one line for each node just if no line is broken. -/
theorem length_linesWithEnds_iff
    (outlines : story.Outlines withSpans 0 lines) :
    (linesWithEnds (story.outline withSpans).toList).length = story.total ↔
      ∀ line ∈ lines, Unbroken (line.text withSpans) := by
  rw [outlines.toList_outline, ← outlines.total,
    ← List.length_map fun line : OutlineLine => (line.text withSpans).toList,
    length_linesWithEnds_flatMap_iff, List.forall_mem_map]
  rfl

theorem linesWithEnds_eq
    (outlines : story.Outlines withSpans 0 lines)
    (unbroken : ∀ line ∈ lines, Unbroken (line.text withSpans)) :
    linesWithEnds (story.outline withSpans).toList =
      lines.map fun line => (line.text withSpans ++ "\n").toList := by
  rw [outlines.toList_outline,
    linesWithEnds_flatMap (List.forall_mem_map.mpr unbroken), List.map_map]
  simp only [String.toList_append]
  rfl

end Story.Outlines

end InkSyntax
