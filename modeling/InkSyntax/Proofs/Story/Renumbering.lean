import InkSyntax.Proofs.Story.Freezing

namespace InkSyntax

/-!
# Freezing renumbers

Freezing needs no tree: nodes may be shared, and may even stand below each other,
as long as what the root reaches is in the draft.  The story then has a node for
each first visit of the walk from the root, in its order, and is otherwise a copy:
every reference to a node is replaced by the place of this node in the walk.  The
root gets its span when all other nodes have theirs, so it passes on the one it had.
-/

namespace NodeKind

variable
    {σ : Type}
    {kind : NodeKind σ}

/-- Renaming looks at the children only. -/
theorem mapChildren_congr
    {first second : NodeId → NodeId}
    (same : ∀ id ∈ kind.children, first id = second id) :
    kind.mapChildren first = kind.mapChildren second := by
  have optional {value : Option NodeId}
      (sameValue : ∀ id, value = some id → first id = second id) :
      value.map first = value.map second :=
    Option.map_congr sameValue
  cases kind <;> grind [mapChildren, children, List.map_congr_left]

end NodeKind

namespace Draft

variable
    {draft : Draft}
    {root id : NodeId}
    {rootSpan : Span}
    {index : Nat}
    {parent : Option NodeId}
    {entries : List (NodeId × Option NodeId)}

/-- The new number of a node is its place in a walk. -/
def placeIn
    (entries : List (NodeId × Option NodeId))
    (id : NodeId) : NodeId :=
  ⟨(entries.map Prod.fst).idxOf id⟩

/-- What freezing makes of the walk from a root. -/
structure Renumbers
    (draft : Draft)
    (root : NodeId)
    (rootSpan : Span)
    (file : Option String)
    (entries : List (NodeId × Option NodeId))
    (story : Story) : Prop where
  /-- The entries are the first visits of a walk that goes below a node before it goes on. -/
  visits : Visits draft [] 0 none [root] entries
  exactly : ∀ id, id ∈ entries.map Prod.fst ↔ draft.Reaches root id
  once : (entries.map Prod.fst).Nodup
  first : entries[0]? = some (root, none)
  file : story.file = file
  size : story.size = entries.length
  /-- Every entry is in the draft and became a node, a copy under new numbers. -/
  node :
    ∀ {index : Nat} {id : NodeId} {parent : Option NodeId},
      entries[index]? = some (id, parent) →
      ∃ slot node,
        draft.slot? id = some slot ∧
          story.node? ⟨index⟩ = some node ∧
          node.kind =
            (slot.kind.mapChildren (placeIn entries)).withRejoins
              (fun rejoins =>
                (rejoins.filter (· ∈ entries.map Prod.fst)).map
                  (placeIn entries)) ∧
          node.kind.children = slot.kind.children.map (placeIn entries) ∧
          node.parent = parent
  /-- All but the root stand below an earlier node. -/
  below :
    ∀ id : NodeId, 0 < id.index → id.index < story.size →
      ∃ parent,
        story.parent? id = some parent ∧
          parent.index < id.index ∧
          id ∈ story.children parent
  /-- The root gets the given span, also where it had one. -/
  spanOfRoot : story.span? Story.root = some rootSpan
  /-- Any other node keeps a span of its own. -/
  ownSpan :
    ∀ {index : Nat} {id above : NodeId} {own : Span},
      entries[index]? = some (id, some above) →
      draft.span? id = some own →
      story.span? ⟨index⟩ = some own
  /-- Without one it has its parent's, only that a root counts with the span it had, if any. -/
  inheritedSpan :
    ∀ {index : Nat} {id above : NodeId},
      entries[index]? = some (id, some above) →
      draft.span? id = none →
      story.span? ⟨index⟩ =
        if above = Story.root then
          some ((draft.span? root).getD rootSpan)
        else
          story.span? above

namespace Visits

variable (visits : Visits draft [] 0 none [root] entries)

include visits

theorem placeIn_eq
    (entry : entries[index]? = some (id, parent)) :
    placeIn entries id = ⟨index⟩ := by
  have place : (entries.map Prod.fst)[index]? = some id := by
    rw [List.getElem?_map, entry, Option.map_some]
  obtain ⟨bound, isId⟩ := List.getElem?_eq_some_iff.mp place
  rw [placeIn, ← isId, visits.nodup.idxOf_getElem]

theorem find?_number_eq
    (id : NodeId) :
    (draft.number root).find? id =
      if id ∈ entries.map Prod.fst then some (placeIn entries id) else none := by
  split
  · next member =>
      obtain ⟨index, parent, -, entry⟩ := Freezes.exists_index member
      rw [visits.find?_number entry, visits.placeIn_eq entry]
  · next others =>
      exact visits.find?_number_of_not_mem others

theorem filterMap_find?_number
    (ids : List NodeId) :
    ids.filterMap (draft.number root).find? =
      (ids.filter (· ∈ entries.map Prod.fst)).map (placeIn entries) := by
  induction ids with
  | nil =>
      rfl
  | cons id rest inductionHypothesis =>
      rw [List.filterMap_cons, visits.find?_number_eq, List.filter_cons]
      by_cases member : id ∈ entries.map Prod.fst
      · rw [if_pos member, if_pos (by simpa using member), List.map_cons,
          inductionHypothesis]
      · rw [if_neg member, if_neg (by simpa using member),
          inductionHypothesis]

/-- A frozen node is a copy under the places in the walk. -/
theorem kind_frozenNode
    (rootSpan : Span)
    (earlier : Array StoryNode)
    {slot : Slot}
    (entry : entries[index]? = some (id, parent))
    (made : draft.slot? id = some slot) :
    (frozenNode (draft.number root) rootSpan earlier slot parent).kind =
      (slot.kind.mapChildren (placeIn entries)).withRejoins
        (fun rejoins =>
          (rejoins.filter (· ∈ entries.map Prod.fst)).map
            (placeIn entries)) := by
  have member : id ∈ entries.map Prod.fst :=
    List.mem_map.mpr ⟨_, List.mem_of_getElem? entry, rfl⟩
  have sameNumbers :
      slot.kind.mapChildren
          (fun old => ((draft.number root).find? old).getD old) =
        slot.kind.mapChildren (placeIn entries) := by
    apply NodeKind.mapChildren_congr
    intro child isChild
    rw [← childrenOf_eq made] at isChild
    have visited : child ∈ entries.map Prod.fst := by
      simpa using visits.mem_of_child member isChild
    rw [visits.find?_number_eq, if_pos visited, Option.getD_some]
  have sameRejoins :
      (fun rejoins : List NodeId =>
          rejoins.filterMap (draft.number root).find?) =
        fun rejoins =>
          (rejoins.filter (· ∈ entries.map Prod.fst)).map
            (placeIn entries) :=
    funext visits.filterMap_find?_number
  simp only [frozenNode, sameNumbers, sameRejoins]

end Visits

/-- The nodes of the story are the frozen ones, only that the root has the given span. -/
theorem Visits.node?_freeze
    (visits : Visits draft [] 0 none [root] entries)
    (rootSpan : Span)
    (file : Option String)
    (entry : entries[index]? = some (id, parent)) :
    ∃ slot node,
      draft.slot? id = some slot ∧
        node =
          frozenNode (draft.number root) rootSpan
            (draft.freezeAll (draft.number root) rootSpan #[] entries) slot
            parent ∧
        (draft.freezeAll (draft.number root) rootSpan #[] entries)[index]? =
          some node ∧
        (draft.freeze root rootSpan file).node? ⟨index⟩ =
          some
            (if index = 0 then { node with span := rootSpan } else node) := by
  obtain ⟨slot, made, isFrozen⟩ :=
    visits.getElem?_freezeAll rootSpan entry
  refine ⟨slot, _, made, rfl, isFrozen, ?_⟩
  rw [freeze_eq visits.order_number]
  simp only [Story.node?, Story.nodes, getElem?_spanRoot, isFrozen,
    Option.map_some]

theorem Visits.exists_copy
    (visits : Visits draft [] 0 none [root] entries)
    (rootSpan : Span)
    (file : Option String)
    (entry : entries[index]? = some (id, parent)) :
    ∃ slot node,
      draft.slot? id = some slot ∧
        (draft.freeze root rootSpan file).node? ⟨index⟩ = some node ∧
        node.kind =
          (slot.kind.mapChildren (placeIn entries)).withRejoins
            (fun rejoins =>
              (rejoins.filter (· ∈ entries.map Prod.fst)).map
                (placeIn entries)) ∧
        node.kind.children = slot.kind.children.map (placeIn entries) ∧
        node.parent = parent := by
  obtain ⟨slot, node, made, rfl, -, isNode⟩ :=
    visits.node?_freeze rootSpan file entry
  have kind :=
    visits.kind_frozenNode rootSpan
      (draft.freezeAll (draft.number root) rootSpan #[] entries) entry made
  refine ⟨slot, _, made, isNode, ?_, ?_, ?_⟩
  · split <;> exact kind
  · rw [apply_ite Node.kind, ite_self, kind, NodeKind.children_withRejoins,
      NodeKind.children_mapChildren]
  · split <;> rfl

theorem Visits.size_freeze
    (visits : Visits draft [] 0 none [root] entries)
    (rootSpan : Span)
    (file : Option String) :
    (draft.freeze root rootSpan file).size = entries.length := by
  rw [freeze_eq visits.order_number]
  simp [Story.size, Story.nodes, spanRoot, visits.size_freezeAll]

theorem Visits.first
    (visits : Visits draft [] 0 none [root] entries) :
    entries[0]? = some (root, none) := by
  cases visits with
  | again known =>
      cases known
  | visit =>
      rfl

theorem Visits.exists_parent
    (visits : Visits draft [] 0 none [root] entries)
    (rootSpan : Span)
    (file : Option String)
    (notRoot : 0 < id.index)
    (bound : id.index < (draft.freeze root rootSpan file).size) :
    ∃ parent,
      (draft.freeze root rootSpan file).parent? id = some parent ∧
        parent.index < id.index ∧
        id ∈ (draft.freeze root rootSpan file).children parent := by
  rw [visits.size_freeze] at bound
  obtain ⟨⟨old, parent⟩, entry⟩ : ∃ entry, entries[id.index]? = some entry :=
    ⟨_, List.getElem?_eq_getElem bound⟩
  have place := visits.placeIn_eq entry
  rcases visits.parent_of entry with
    ⟨isRoot, -⟩ | ⟨above, outer, further, rfl, before, isOuter, isChild⟩
  · rw [List.mem_singleton.mp isRoot, visits.placeIn_eq visits.first] at place
    exact absurd (congrArg NodeId.index place) (Nat.ne_of_lt notRoot)
  · rw [Nat.zero_add] at entry
    obtain ⟨-, node, -, isNode, -, -, isParent⟩ :=
      visits.exists_copy rootSpan file entry
    obtain ⟨slot, outerNode, made, isOuterNode, -, children, -⟩ :=
      visits.exists_copy rootSpan file isOuter
    refine ⟨⟨above⟩, ?_, before, ?_⟩
    · simp [Story.parent?, isNode, isParent]
    · have listed : id ∈ outerNode.kind.children := by
        rw [children, ← childrenOf_eq made]
        exact List.mem_map.mpr ⟨old, isChild, place⟩
      simpa [Story.children, Story.kind?, isOuterNode] using listed

/-- Each node's span follows from its parent's, until the root is given its own. -/
theorem Visits.exists_taken
    (visits : Visits draft [] 0 none [root] entries)
    (rootSpan : Span)
    (file : Option String) :
    ∃ taken : NodeId → Span,
      ∀ {index : Nat} {id : NodeId} {parent : Option NodeId},
        entries[index]? = some (id, parent) →
        taken ⟨index⟩ =
            (draft.span? id).getD ((parent.map taken).getD rootSpan) ∧
          (draft.freeze root rootSpan file).span? ⟨index⟩ =
            some (if index = 0 then rootSpan else taken ⟨index⟩) := by
  let frozen := draft.freezeAll (draft.number root) rootSpan #[] entries
  refine
    ⟨fun id => ((frozen[id.index]?).map (·.span)).getD rootSpan,
      fun {index id parent} entry => ?_⟩
  obtain ⟨slot, node, made, isFrozen, isHere, isNode⟩ :=
    visits.node?_freeze rootSpan file entry
  constructor
  · simp only [frozen, isHere, Option.map_some, Option.getD_some, isFrozen,
      frozenNode, span?, made, Option.bind_some]
    cases slot.span with
    | some own =>
        rfl
    | none =>
        cases parent <;> simp
  · simp only [Story.span?, isNode, frozen, isHere, Option.map_some,
      Option.getD_some]
    split <;> rfl

/-- A node below the root comes behind its parent in the walk. -/
theorem Visits.parent_before
    (visits : Visits draft [] 0 none [root] entries)
    {above : NodeId}
    (entry : entries[index]? = some (id, some above)) :
    above.index < index ∧
      ∃ outer further, entries[above.index]? = some (outer, further) := by
  rcases visits.parent_of entry with
    ⟨-, impossible⟩ | ⟨place, outer, further, isAbove, before, isOuter, -⟩
  · cases impossible
  · rw [Nat.zero_add, Option.some.injEq] at isAbove
    subst isAbove
    exact ⟨before, outer, further, isOuter⟩

theorem Visits.span?_root
    (visits : Visits draft [] 0 none [root] entries)
    (rootSpan : Span)
    (file : Option String) :
    (draft.freeze root rootSpan file).span? Story.root = some rootSpan := by
  obtain ⟨taken, takes⟩ := visits.exists_taken rootSpan file
  obtain ⟨-, here⟩ := takes visits.first
  rw [Story.root, here, if_pos rfl]

/-- A node that has a span keeps it, unless it is the root. -/
theorem Visits.span?_of_own
    (visits : Visits draft [] 0 none [root] entries)
    (rootSpan : Span)
    (file : Option String)
    {above : NodeId}
    {own : Span}
    (entry : entries[index]? = some (id, some above))
    (hasOwn : draft.span? id = some own) :
    (draft.freeze root rootSpan file).span? ⟨index⟩ = some own := by
  obtain ⟨before, -⟩ := visits.parent_before entry
  obtain ⟨taken, takes⟩ := visits.exists_taken rootSpan file
  obtain ⟨isTaken, here⟩ := takes entry
  rw [here, if_neg (by omega), isTaken, hasOwn, Option.getD_some]

/-- A node without a span takes its parent's, before the root gets the given one. -/
theorem Visits.span?_of_none
    (visits : Visits draft [] 0 none [root] entries)
    (rootSpan : Span)
    (file : Option String)
    {above : NodeId}
    (entry : entries[index]? = some (id, some above))
    (noSpan : draft.span? id = none) :
    (draft.freeze root rootSpan file).span? ⟨index⟩ =
      if above = Story.root then
        some ((draft.span? root).getD rootSpan)
      else
        (draft.freeze root rootSpan file).span? above := by
  obtain ⟨before, outer, further, isOuter⟩ := visits.parent_before entry
  obtain ⟨taken, takes⟩ := visits.exists_taken rootSpan file
  have fromAbove :
      (draft.freeze root rootSpan file).span? ⟨index⟩ =
        some (taken above) := by
    obtain ⟨isTaken, here⟩ := takes entry
    rw [here, if_neg (by omega), isTaken, noSpan]
    rfl
  rw [fromAbove]
  by_cases isRoot : above = Story.root
  · obtain ⟨ofRoot, -⟩ := takes visits.first
    rw [if_pos isRoot, isRoot, Story.root, ofRoot]
    rfl
  · obtain ⟨-, there⟩ := takes isOuter
    have notFirst : above.index ≠ 0 :=
      fun isFirst => isRoot (congrArg NodeId.mk isFirst)
    rw [if_neg isRoot, there, if_neg notFirst]

theorem Visits.renumbers
    (visits : Visits draft [] 0 none [root] entries)
    (rootSpan : Span)
    (file : Option String) :
    Renumbers draft root rootSpan file entries
      (draft.freeze root rootSpan file) where
  visits := visits
  exactly _ := visits.mem_iff_reaches
  once := visits.nodup
  first := visits.first
  file := by
    rw [freeze_eq visits.order_number]
    rfl
  size := visits.size_freeze rootSpan file
  node := visits.exists_copy rootSpan file
  below _ := visits.exists_parent rootSpan file
  spanOfRoot := visits.span?_root rootSpan file
  ownSpan := visits.span?_of_own rootSpan file
  inheritedSpan := visits.span?_of_none rootSpan file

/-- Freezing copies exactly what the root reaches, in the order of the first visits. -/
theorem freeze_renumbers
    (draft : Draft)
    (root : NodeId)
    (rootSpan : Span)
    (file : Option String)
    (inRange : ∀ id, draft.Reaches root id → id.index < draft.size) :
    ∃ entries,
      Renumbers draft root rootSpan file entries
        (draft.freeze root rootSpan file) := by
  obtain ⟨entries, visits⟩ := exists_visits root inRange
  exact ⟨entries, visits.renumbers rootSpan file⟩

/-- Nothing outside is reached where all children of all nodes are in the draft. -/
theorem index_lt_of_reaches
    (closed :
      ∀ index < draft.size,
        ∀ child ∈ draft.childrenOf ⟨index⟩, child.index < draft.size)
    (made : root.index < draft.size)
    (reaches : draft.Reaches root id) :
    id.index < draft.size := by
  induction reaches with
  | refl =>
      exact made
  | @tail outer inner _ isChild bound =>
      exact closed outer.index bound inner isChild

/-- A shared node and a cycle: the node at the bottom rejoins one that is dropped. -/
theorem freeze_renumbers_cycle :
    let draft : Draft :=
      ⟨#[⟨.text "dropped", none⟩, ⟨.contentList [⟨2⟩, ⟨3⟩], none⟩,
        ⟨.contentList [⟨3⟩, ⟨1⟩], none⟩, ⟨.gather (some ⟨2⟩) 1 [⟨0⟩, ⟨1⟩], none⟩]⟩
    (∀ id, draft.Reaches ⟨1⟩ id → id.index < draft.size) ∧
      ((draft.freeze ⟨1⟩ {} none).nodes.map fun node =>
          (node.kind.children, node.kind.rejoins)) =
        [([⟨1⟩, ⟨2⟩], []), ([⟨2⟩, ⟨0⟩], []), ([⟨1⟩], [⟨0⟩])] ∧
      ∃ entries,
        Renumbers draft ⟨1⟩ {} none entries (draft.freeze ⟨1⟩ {} none) := by
  intro draft
  have inRange : ∀ id, draft.Reaches ⟨1⟩ id → id.index < draft.size :=
    fun _ => index_lt_of_reaches (by decide) (by decide)
  exact ⟨inRange, by decide +kernel, freeze_renumbers draft ⟨1⟩ {} none inRange⟩

/-- The root gets the given span too late for a node below it, which has what the root had. -/
theorem freeze_passes_on_own_span_of_root :
    let own : Span := ⟨{}, { offset := 4, column := 4 }⟩
    let given : Span := ⟨{}, { offset := 10, column := 10 }⟩
    let draft : Draft :=
      ⟨#[⟨.text "kept", none⟩, ⟨.story [⟨0⟩], some own⟩]⟩
    let story := draft.freeze ⟨1⟩ given none
    (∀ id, draft.Reaches ⟨1⟩ id → id.index < draft.size) ∧
      draft.span? ⟨0⟩ = none ∧
      story.text? ⟨1⟩ = some "kept" ∧
      story.parent? ⟨1⟩ = some Story.root ∧
      story.span? Story.root = some given ∧
      story.span? ⟨1⟩ = some own ∧
      story.span? ⟨1⟩ ≠ story.span? Story.root := by
  intro own given draft story
  have inRange : ∀ id, draft.Reaches ⟨1⟩ id → id.index < draft.size :=
    fun _ => index_lt_of_reaches (by decide) (by decide)
  exact ⟨inRange, by decide +kernel⟩

end Draft

end InkSyntax
