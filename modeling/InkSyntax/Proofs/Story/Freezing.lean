import InkSyntax.Proofs.Story.Numbering

namespace InkSyntax

/-!
# The story of a tree

Freezing a draft turns the listing of a tree into the nodes of a story, one for
each entry.  Parents stay those of the listing, and child lists stay those of the
draft under the new numbers.  As no node of a tree stands in it twice, the story
is a tree again.
-/

/-- The nodes of a story are one tree under its first node. -/
structure Story.IsTree (story : Story) : Prop where
  /-- The root is that of a story; it has no parent and is nobody's child. -/
  root :
    (∃ node content,
        story.node? Story.root = some node ∧
          node.kind = .story content ∧
          node.parent = none) ∧
      Story.root ∉ story.nodes.flatMap (·.kind.children)
  inRange :
    ∀ node ∈ story.nodes, ∀ child ∈ node.kind.children,
      child.index < story.size
  /-- Any other node has one parent, which is before it and lists it, and is listed once. -/
  below :
    ∀ id : NodeId, 0 < id.index → id.index < story.size →
      ∃ parent,
        story.parent? id = some parent ∧
          parent.index < id.index ∧
          id ∈ story.children parent ∧
          (story.nodes.flatMap (·.kind.children)).count id = 1

namespace Draft

variable
    {origin : Cursor}
    {admits : Story → Prop}
    {draft : Draft}
    {low high : Nat}
    {root : NodeId}
    {rootSpan : Span}
    {file : Option String}
    {nodes : List NodeId}
    {entries : List (NodeId × Option NodeId)}

section Folding

variable {numbering : Numbering}

/-- The node for one more entry, if it is in the draft. -/
def freezeNext
    (draft : Draft)
    (numbering : Numbering)
    (rootSpan : Span)
    (earlier : Array StoryNode)
    (entry : NodeId × Option NodeId) : Array StoryNode :=
  match draft.slot? entry.1 with
  | some slot =>
      earlier.push (frozenNode numbering rootSpan earlier slot entry.2)
  | none => earlier

/-- The nodes for all entries, after some earlier ones. -/
def freezeAll
    (draft : Draft)
    (numbering : Numbering)
    (rootSpan : Span)
    (earlier : Array StoryNode)
    (entries : List (NodeId × Option NodeId)) : Array StoryNode :=
  entries.foldl (draft.freezeNext numbering rootSpan) earlier

theorem freezeAll_cons
    (earlier : Array StoryNode)
    (entry : NodeId × Option NodeId)
    (rest : List (NodeId × Option NodeId)) :
    draft.freezeAll numbering rootSpan earlier (entry :: rest) =
      draft.freezeAll numbering rootSpan
        (draft.freezeNext numbering rootSpan earlier entry) rest :=
  rfl

/-- A frozen node depends on its parent only, of all nodes before it. -/
theorem frozenNode_congr
    {first second : Array StoryNode}
    {slot : Slot}
    {parent : Option NodeId}
    (same : ∀ above ∈ parent, first[above.index]? = second[above.index]?) :
    frozenNode numbering rootSpan first slot parent =
      frozenNode numbering rootSpan second slot parent := by
  cases parent with
  | none =>
      rfl
  | some above =>
      simp [frozenNode, same above rfl]

theorem getElem?_freezeAll_of_lt
    {earlier : Array StoryNode}
    {index : Nat}
    (old : index < earlier.size) :
    (draft.freezeAll numbering rootSpan earlier entries)[index]? =
      earlier[index]? := by
  induction entries generalizing earlier with
  | nil =>
      rfl
  | cons entry rest inductionHypothesis =>
      rw [freezeAll_cons]
      unfold freezeNext
      split
      · have older (node : StoryNode) : index < (earlier.push node).size := by
          simp only [Array.size_push]
          omega
        rw [inductionHypothesis (older _)]
        simp [Array.getElem?_push, Nat.ne_of_lt old]
      · exact inductionHypothesis old

theorem size_freezeAll
    {earlier : Array StoryNode}
    (made : ∀ id ∈ entries.map Prod.fst, ∃ slot, draft.slot? id = some slot) :
    (draft.freezeAll numbering rootSpan earlier entries).size =
      earlier.size + entries.length := by
  induction entries generalizing earlier with
  | nil =>
      rfl
  | cons entry rest inductionHypothesis =>
      simp only [List.map_cons, List.forall_mem_cons] at made
      obtain ⟨⟨slot, isSlot⟩, madeRest⟩ := made
      rw [freezeAll_cons, inductionHypothesis madeRest, freezeNext, isSlot]
      simp only [Array.size_push, List.length_cons]
      omega

/-- Each entry becomes a node, given that its parent stands before it. -/
theorem getElem?_freezeAll
    {earlier : Array StoryNode}
    (made : ∀ id ∈ entries.map Prod.fst, ∃ slot, draft.slot? id = some slot)
    (before :
      ∀ index id above,
        entries[index]? = some (id, some above) →
        above.index < earlier.size + index)
    {index : Nat}
    {id : NodeId}
    {parent : Option NodeId}
    {slot : Slot}
    (entry : entries[index]? = some (id, parent))
    (isSlot : draft.slot? id = some slot) :
    (draft.freezeAll numbering rootSpan earlier entries)[earlier.size + index]? =
      some
        (frozenNode numbering rootSpan
          (draft.freezeAll numbering rootSpan earlier entries) slot parent) := by
  induction entries generalizing earlier index with
  | nil =>
      cases entry
  | cons head rest inductionHypothesis =>
      simp only [List.map_cons, List.forall_mem_cons] at made
      obtain ⟨⟨headSlot, isHeadSlot⟩, madeRest⟩ := made
      let grown :=
        earlier.push (frozenNode numbering rootSpan earlier headSlot head.2)
      have unfolded :
          draft.freezeAll numbering rootSpan earlier (head :: rest) =
            draft.freezeAll numbering rootSpan grown rest := by
        rw [freezeAll_cons, freezeNext, isHeadSlot]
      have sizeGrown : grown.size = earlier.size + 1 := Array.size_push _
      rw [unfolded]
      cases index with
      | zero =>
          cases entry
          cases isHeadSlot.symm.trans isSlot
          rw [Nat.add_zero, getElem?_freezeAll_of_lt (by omega)]
          have own :
              grown[earlier.size]? =
                some (frozenNode numbering rootSpan earlier slot parent) := by
            simp [grown]
          rw [own]
          apply congrArg some
          apply frozenNode_congr
          intro above isAbove
          have old := before 0 id above (by rw [← isAbove]; rfl)
          rw [getElem?_freezeAll_of_lt (by omega)]
          have kept : above.index ≠ earlier.size := by omega
          simp [grown, Array.getElem?_push, kept]
      | succ index =>
          have beforeRest :
              ∀ index id above,
                rest[index]? = some (id, some above) →
                above.index < grown.size + index := by
            intro index id above isEntry
            have early := before (index + 1) id above isEntry
            omega
          have frozen := inductionHypothesis madeRest beforeRest entry
          rw [sizeGrown] at frozen
          rw [← Nat.add_assoc, Nat.add_right_comm]
          exact frozen

end Folding

/-- What freezing makes of a tree: a listing of it, and a node for each entry.

The story has these nodes, only that its root gets a given span in the end. -/
structure Freezes
    (draft : Draft)
    (root : NodeId)
    (rootSpan : Span)
    (entries : List (NodeId × Option NodeId))
    (frozen : Array StoryNode) : Prop where
  listing : Listing draft 0 none [root] entries
  nodup : (entries.map Prod.fst).Nodup
  perm :
    (entries.map Prod.fst).Perm
      (root :: (entries.map Prod.fst).flatMap draft.childrenOf)
  number :
    ∀ {index : Nat} {id : NodeId} {parent : Option NodeId},
      entries[index]? = some (id, parent) →
      (draft.number root).find? id = some ⟨index⟩
  size : frozen.size = entries.length
  node :
    ∀ {index : Nat} {id : NodeId} {parent : Option NodeId},
      entries[index]? = some (id, parent) →
      ∃ slot,
        draft.slot? id = some slot ∧
          frozen[index]? =
            some (frozenNode (draft.number root) rootSpan frozen slot parent)

/-- The nodes of a story, with the span that the root has in the end. -/
def spanRoot
    (rootSpan : Span)
    (frozen : Array StoryNode) : List StoryNode :=
  frozen.toList.modifyHead ({ · with span := rootSpan })

theorem freeze_eq
    (order : (draft.number root).order.toList = entries)
    (rootSpan : Span)
    (file : Option String) :
    draft.freeze root rootSpan file =
      .mk file
        (spanRoot rootSpan
          (draft.freezeAll (draft.number root) rootSpan #[] entries)) := by
  unfold freeze spanRoot
  extract_lets numbering nodes
  have isAll : nodes = draft.freezeAll numbering rootSpan #[] entries := by
    rw [freezeAll, ← order, Array.foldl_toList]
    rfl
  rw [isAll]
  cases (draft.freezeAll numbering rootSpan #[] entries).toList <;> rfl

section Walking

variable (visits : Visits draft [] 0 none [root] entries)

include visits

/-- The nodes that freezing makes for a walk. -/
theorem Visits.size_freezeAll
    (rootSpan : Span) :
    (draft.freezeAll (draft.number root) rootSpan #[] entries).size =
      entries.length := by
  have size :
      (draft.freezeAll (draft.number root) rootSpan #[] entries).size =
        (#[] : Array StoryNode).size + entries.length :=
    Draft.size_freezeAll fun _ member => visits.made_of_mem member
  simpa using size

/-- The parent of a node is frozen before it. -/
theorem Visits.getElem?_freezeAll
    (rootSpan : Span)
    {index : Nat}
    {id : NodeId}
    {parent : Option NodeId}
    (entry : entries[index]? = some (id, parent)) :
    ∃ slot,
      draft.slot? id = some slot ∧
        (draft.freezeAll (draft.number root) rootSpan #[] entries)[index]? =
          some
            (frozenNode (draft.number root) rootSpan
              (draft.freezeAll (draft.number root) rootSpan #[] entries) slot
              parent) := by
  have before :
      ∀ index id above,
        entries[index]? = some (id, some above) →
        above.index < (#[] : Array StoryNode).size + index := by
    intro index id above entry
    rcases visits.parent_of entry with
      ⟨-, isRoot⟩ | ⟨place, outer, further, isPlace, early, -, -⟩
    · cases isRoot
    · cases isPlace
      simpa using early
  obtain ⟨slot, isSlot⟩ :=
    visits.made_of_mem
      (List.mem_map.mpr ⟨_, List.mem_of_getElem? entry, rfl⟩)
  refine ⟨slot, isSlot, ?_⟩
  have isNode :
      (draft.freezeAll (draft.number root) rootSpan #[]
          entries)[(#[] : Array StoryNode).size + index]? = _ :=
    Draft.getElem?_freezeAll (fun _ member => visits.made_of_mem member) before
      entry isSlot
  simpa using isNode

end Walking

theorem Holds.exists_freezes
    (holds : Holds origin admits draft low high [root] nodes)
    (rootSpan : Span) :
    ∃ entries frozen,
      Freezes draft root rootSpan entries frozen ∧
        entries.map Prod.fst = nodes ∧
        ∀ file,
          draft.freeze root rootSpan file =
            .mk file (spanRoot rootSpan frozen) := by
  obtain ⟨entries, listing, visits, listed⟩ := holds.exists_listing
  refine
    ⟨entries, draft.freezeAll (draft.number root) rootSpan #[] entries,
      ⟨listing, visits.nodup, ?_, visits.find?_number,
        visits.size_freezeAll rootSpan, visits.getElem?_freezeAll rootSpan⟩,
      listed, freeze_eq visits.order_number rootSpan⟩
  rw [listed]
  exact holds.forest.perm_children

section Spanning

variable {frozen : Array StoryNode}

theorem getElem?_spanRoot
    (index : Nat) :
    (spanRoot rootSpan frozen)[index]? =
      frozen[index]?.map fun node =>
        if index = 0 then { node with span := rootSpan } else node := by
  rw [spanRoot, ← Array.getElem?_toList]
  cases frozen.toList with
  | nil =>
      rfl
  | cons first others =>
      cases index with
      | zero =>
          rfl
      | succ index =>
          simp

/-- Whatever does not depend on spans is the same for all nodes. -/
theorem map_spanRoot
    {β : Type}
    (look : StoryNode → β)
    (same : ∀ node span, look { node with span := span } = look node) :
    (spanRoot rootSpan frozen).map look = frozen.toList.map look := by
  rw [spanRoot]
  cases frozen.toList with
  | nil =>
      rfl
  | cons first others =>
      simp [same]

end Spanning

namespace Freezes

variable {frozen : Array StoryNode}

/-- The new number of a node of the tree. -/
def renumber
    (draft : Draft)
    (root id : NodeId) : NodeId :=
  ((draft.number root).find? id).getD id

theorem children_frozenNode
    {earlier : Array StoryNode}
    {slot : Slot}
    {parent : Option NodeId} :
    (frozenNode (draft.number root) rootSpan earlier slot
        parent).kind.children =
      slot.kind.children.map (renumber draft root) := by
  rw [frozenNode, NodeKind.children_withRejoins, NodeKind.children_mapChildren]
  rfl

theorem exists_index
    {id : NodeId}
    (member : id ∈ entries.map Prod.fst) :
    ∃ index parent,
      index < entries.length ∧ entries[index]? = some (id, parent) := by
  obtain ⟨⟨_, parent⟩, isEntry, rfl⟩ := List.mem_map.mp member
  obtain ⟨index, bound, entry⟩ := List.getElem_of_mem isEntry
  exact ⟨index, parent, bound, List.getElem?_eq_some_iff.mpr ⟨bound, entry⟩⟩

variable (freezes : Freezes draft root rootSpan entries frozen)

include freezes

theorem visits :
    Visits draft [] 0 none [root] entries :=
  freezes.listing.visits freezes.nodup fun _ _ => List.not_mem_nil

theorem first :
    entries[0]? = some (root, none) := by
  cases freezes.listing
  rfl

theorem renumber_eq
    {index : Nat}
    {id : NodeId}
    {parent : Option NodeId}
    (entry : entries[index]? = some (id, parent)) :
    renumber draft root id = ⟨index⟩ := by
  rw [renumber, freezes.number entry, Option.getD_some]

theorem parents :
    (spanRoot rootSpan frozen).map (·.parent) = entries.map Prod.snd := by
  rw [map_spanRoot _ fun _ _ => rfl]
  apply List.ext_getElem?
  intro index
  rw [List.getElem?_map, List.getElem?_map, Array.getElem?_toList]
  cases entry : entries[index]? with
  | none =>
      have beyond := List.getElem?_eq_none_iff.mp entry
      rw [← freezes.size] at beyond
      rw [Array.getElem?_eq_none beyond]
      rfl
  | some pair =>
      obtain ⟨slot, -, isNode⟩ := freezes.node entry
      rw [isNode]
      rfl

theorem childLists :
    (spanRoot rootSpan frozen).map (·.kind.children) =
      (entries.map Prod.fst).map fun id =>
        (draft.childrenOf id).map (renumber draft root) := by
  rw [map_spanRoot _ fun _ _ => rfl]
  apply List.ext_getElem?
  intro index
  rw [List.getElem?_map, List.getElem?_map, List.getElem?_map,
    Array.getElem?_toList]
  cases entry : entries[index]? with
  | none =>
      have beyond := List.getElem?_eq_none_iff.mp entry
      rw [← freezes.size] at beyond
      rw [Array.getElem?_eq_none beyond]
      rfl
  | some pair =>
      obtain ⟨slot, made, isNode⟩ := freezes.node entry
      rw [isNode]
      simp [children_frozenNode, childrenOf, kind?, made]

theorem length_spanRoot :
    (spanRoot rootSpan frozen).length = entries.length := by
  have lengths := congrArg List.length freezes.parents
  simpa using lengths

/-- Every node of the story was frozen for an entry of the listing. -/
theorem exists_frozen
    {node : StoryNode}
    (member : node ∈ spanRoot rootSpan frozen) :
    ∃ index id inner,
      entries[index]? = some (id, node.parent) ∧
        frozen[index]? = some inner ∧
        node.kind = inner.kind ∧
        node.span = if index = 0 then rootSpan else inner.span := by
  obtain ⟨index, bound, rfl⟩ := List.getElem_of_mem member
  have entered : index < entries.length := by
    rwa [freezes.length_spanRoot] at bound
  have entry : entries[index]? = some entries[index] :=
    List.getElem?_eq_getElem entered
  obtain ⟨slot, -, isFrozen⟩ := freezes.node entry
  have isNode : (spanRoot rootSpan frozen)[index]? = _ :=
    getElem?_spanRoot index
  rw [isFrozen, List.getElem?_eq_getElem bound, Option.map_some,
    Option.some.injEq] at isNode
  refine ⟨index, entries[index].1, _, ?_, isFrozen, ?_⟩
  · rw [entry, isNode]
    split <;> rfl
  · rw [isNode]
    split <;> exact ⟨rfl, rfl⟩

/-- All children in the story are nodes of the tree, under their new numbers. -/
theorem flatMap_children :
    (spanRoot rootSpan frozen).flatMap (·.kind.children) =
      ((entries.map Prod.fst).flatMap draft.childrenOf).map
        (renumber draft root) := by
  rw [List.flatMap_def, freezes.childLists, ← List.flatMap_def,
    List.map_flatMap]

/-- The root is listed nowhere, any other node once. -/
theorem count_children
    {index : Nat}
    {id : NodeId}
    {parent : Option NodeId}
    (entry : entries[index]? = some (id, parent)) :
    ((spanRoot rootSpan frozen).flatMap (·.kind.children)).count ⟨index⟩ +
        [root].count id =
      1 := by
  have member : id ∈ entries.map Prod.fst :=
    List.mem_map.mpr ⟨_, List.mem_of_getElem? entry, rfl⟩
  have listed :
      ∀ child ∈ (entries.map Prod.fst).flatMap draft.childrenOf,
        (renumber draft root child == (⟨index⟩ : NodeId)) = true ↔
          (child == id) = true := by
    intro child isChild
    obtain ⟨place, above, -, isEntry⟩ :=
      exists_index (freezes.perm.symm.subset (List.mem_cons_of_mem _ isChild))
    rw [freezes.renumber_eq isEntry, beq_iff_eq, beq_iff_eq]
    constructor
    · intro same
      cases same
      exact congrArg Prod.fst (Option.some.inj (isEntry.symm.trans entry))
    · rintro rfl
      rw [← freezes.renumber_eq isEntry, freezes.renumber_eq entry]
  have once : (entries.map Prod.fst).count id = 1 :=
    List.count_eq_one_of_mem freezes.nodup member
  rw [freezes.perm.count_eq, ← List.singleton_append, List.count_append]
    at once
  rw [freezes.flatMap_children, List.count, List.countP_map]
  rw [Nat.add_comm, ← once]
  congr 1
  exact List.countP_congr listed

/-- The stories that the story includes are those that the tree was made with. -/
theorem admits_of_mem
    (forest : Forest origin admits draft low high [root] nodes)
    (listed : entries.map Prod.fst = nodes)
    {inner : Story}
    (member :
      inner ∈ (Story.mk file (spanRoot rootSpan frozen)).includedStories) :
    admits inner := by
  obtain ⟨node, isNode, includes⟩ := List.mem_filterMap.mp member
  obtain ⟨index, id, found, entry, isFound, sameKind, -⟩ :=
    freezes.exists_frozen isNode
  obtain ⟨slot, made, isFrozen⟩ := freezes.node entry
  cases isFound.symm.trans isFrozen
  have isIncluded : node.kind = .includedFile (some inner) := by
    split at includes
    · next isFile =>
        rw [isFile, includes]
    · cases includes
  rw [sameKind] at isIncluded
  simp only [frozenNode, NodeKind.withRejoins_eq_includedFile,
    NodeKind.mapChildren_eq_includedFile] at isIncluded
  have inTree : id ∈ nodes := by
    rw [← listed]
    exact List.mem_map.mpr ⟨_, List.mem_of_getElem? entry, rfl⟩
  exact forest.admits_of_mem inTree made isIncluded

/-- The story of a tree is a tree. -/
theorem isTree
    {content : List NodeId}
    (isStory : draft.kind? root = some (.story content)) :
    (Story.mk file (spanRoot rootSpan frozen)).IsTree where
  root := by
    have isRoot := freezes.first
    constructor
    · obtain ⟨slot, made, isFrozen⟩ := freezes.node isRoot
      have isKind : slot.kind = .story content := by
        simpa [kind?, made] using isStory
      have isNode :
          (Story.mk file (spanRoot rootSpan frozen)).node? Story.root = _ :=
        getElem?_spanRoot 0
      rw [isFrozen] at isNode
      have frozenKind :
          (frozenNode (draft.number root) rootSpan frozen slot none).kind =
            .story (content.map (renumber draft root)) := by
        simp only [frozenNode, isKind]
        rfl
      exact ⟨_, _, isNode, frozenKind, rfl⟩
    · have listed := freezes.count_children isRoot
      rw [List.count_singleton_self] at listed
      exact List.count_eq_zero.mp (Nat.succ.inj listed)
  inRange := by
    intro node member child isChild
    have listed :
        child ∈ (spanRoot rootSpan frozen).flatMap (·.kind.children) :=
      List.mem_flatMap.mpr ⟨node, member, isChild⟩
    rw [freezes.flatMap_children] at listed
    obtain ⟨old, isOld, rfl⟩ := List.mem_map.mp listed
    obtain ⟨index, above, bound, entry⟩ :=
      exists_index (freezes.perm.symm.subset (List.mem_cons_of_mem _ isOld))
    rw [freezes.renumber_eq entry]
    exact Nat.lt_of_lt_of_eq bound freezes.length_spanRoot.symm
  below := by
    intro id notRoot bound
    have room : id.index < entries.length :=
      Nat.lt_of_lt_of_eq bound freezes.length_spanRoot
    obtain ⟨⟨old, parent⟩, entry⟩ :
        ∃ pair, entries[id.index]? = some pair :=
      ⟨_, List.getElem?_eq_getElem room⟩
    have apart : old ≠ root := by
      rintro rfl
      have again := freezes.renumber_eq freezes.first
      rw [freezes.renumber_eq entry] at again
      exact absurd (congrArg NodeId.index again) (Nat.ne_of_gt notRoot)
    rcases freezes.visits.parent_of entry with
      ⟨isRoot, -⟩ | ⟨place, outer, further, rfl, before, isOuter, isChild⟩
    · exact absurd (List.mem_singleton.mp isRoot) apart
    · refine ⟨⟨place⟩, ?_, before, ?_, ?_⟩
      · have parent := congrArg (·[id.index]?) freezes.parents
        simp only [List.getElem?_map, entry, Option.map_some] at parent
        obtain ⟨node, isNode, isParent⟩ := Option.map_eq_some_iff.mp parent
        simp [Story.parent?, Story.node?, Story.nodes, isNode, isParent]
      · have children := congrArg (·[place]?) freezes.childLists
        simp only [List.getElem?_map, isOuter, Option.map_some] at children
        obtain ⟨node, isNode, lists⟩ := Option.map_eq_some_iff.mp children
        have among : renumber draft root old ∈ node.kind.children := by
          rw [lists]
          exact List.mem_map_of_mem isChild
        rw [freezes.renumber_eq entry] at among
        simpa [Story.children, Story.kind?, Story.node?, Story.nodes, isNode]
          using among
      · have listed := freezes.count_children entry
        rw [List.count_singleton, if_neg (by simpa using apart.symm)] at listed
        exact listed

end Freezes

end Draft

end InkSyntax
