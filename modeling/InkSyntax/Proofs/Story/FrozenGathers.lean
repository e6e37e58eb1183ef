import InkSyntax.Proofs.Story.Rejoining
import InkSyntax.Proofs.Story.Renumbering

namespace InkSyntax

/-!
# The gathers of a story

Freezing copies a weave and the gathers in it under new numbers, and what a gather
rejoins goes along.  In a story that is a tree, a gather therefore has one weave as
its parent and rejoins what is loose before it there.  Two gathers never rejoin the
same choice: the first of them in the weave leaves it loose no longer.
-/

/-- What a node of a story rejoins. -/
def Story.rejoins (story : Story) (id : NodeId) : List NodeId :=
  ((story.kind? id).map NodeKind.rejoins).getD []

section LooseChoices

variable
    {kind? : NodeId → Option StoryKind}
    {passed : List NodeId}
    {id : NodeId}

theorem mem_of_looseChoices
    (isLoose : id ∈ looseChoices kind? passed) :
    id ∈ passed :=
  (List.rtakeWhile_suffix _ passed).subset (List.mem_filter.mp isLoose).1

theorem exists_choice_of_looseChoices
    (isLoose : id ∈ looseChoices kind? passed) :
    ∃ option, kind? id = some (.choice option) := by
  have isChoice := (List.mem_filter.mp isLoose).2
  cases isKind : kind? id with
  | none =>
      simp [isKind] at isChoice
  | some kind =>
      cases kind with
      | choice option =>
          exact ⟨option, rfl⟩
      | _ =>
          simp [isKind, NodeKind.isChoice] at isChoice

/-- A gather leaves nothing loose that is before it. -/
theorem looseChoices_behind_gather
    {gather : NodeId}
    (isGather : (kind? gather).any NodeKind.isGather = true)
    (before behind : List NodeId) :
    looseChoices kind? (before ++ gather :: behind) =
      looseChoices kind? behind := by
  induction behind using List.reverseRecOn with
  | nil =>
      rw [looseChoices_concat, if_pos isGather]
      rfl
  | append_singleton behind id inductionHypothesis =>
      rw [← List.cons_append, ← List.append_assoc, looseChoices_concat,
        looseChoices_concat, inductionHypothesis]

/-- No choice is loose before a gather and before a later one too. -/
theorem eq_of_looseChoices
    {gather later : NodeId}
    {before between rest others : List NodeId}
    (isGather : (kind? gather).any NodeKind.isGather = true)
    (nodup : (before ++ gather :: rest).Nodup)
    (follows : gather :: rest = between ++ later :: others)
    (isLoose : id ∈ looseChoices kind? before)
    (again : id ∈ looseChoices kind? (before ++ between)) :
    gather = later := by
  cases between with
  | nil =>
      exact (List.cons.inj follows).1
  | cons first between =>
      obtain ⟨rfl, rfl⟩ := List.cons.inj follows
      rw [looseChoices_behind_gather isGather] at again
      refine
        ((List.nodup_append'.mp nodup).2.2 (mem_of_looseChoices isLoose) ?_).elim
      simp [mem_of_looseChoices again]

end LooseChoices

namespace NodeKind

/-- A copy under new names, which rejoins only some of what the node did. -/
def copy
    {σ : Type}
    (rename : NodeId → NodeId)
    (keep : NodeId → Bool)
    (kind : NodeKind σ) : NodeKind σ :=
  (kind.mapChildren rename).withRejoins fun rejoins =>
    (rejoins.filter keep).map rename

variable
    {σ : Type}
    {kind : NodeKind σ}
    {rename : NodeId → NodeId}
    {keep : NodeId → Bool}

@[simp] theorem isGather_copy :
    (kind.copy rename keep).isGather = kind.isGather := by
  cases kind <;> rfl

@[simp] theorem isChoice_copy :
    (kind.copy rename keep).isChoice = kind.isChoice := by
  cases kind <;> rfl

@[simp] theorem children_copy :
    (kind.copy rename keep).children = kind.children.map rename := by
  rw [copy, children_withRejoins, children_mapChildren]

theorem exists_of_copy_eq_weave
    {content : List NodeId}
    {base : Nat}
    (isWeave : kind.copy rename keep = .weave content base) :
    ∃ older, kind = .weave older base ∧ older.map rename = content := by
  cases kind with
  | weave older at_ =>
      cases isWeave
      exact ⟨older, rfl, rfl⟩
  | _ =>
      cases isWeave

theorem exists_of_copy_eq_gather
    {name : Option NodeId}
    {depth : Nat}
    {rejoins : List NodeId}
    (isGather : kind.copy rename keep = .gather name depth rejoins) :
    ∃ ownName older,
      kind = .gather ownName depth older ∧
        (older.filter keep).map rename = rejoins := by
  cases kind with
  | gather ownName at_ older =>
      cases isGather
      exact ⟨ownName, older, rfl, rfl⟩
  | _ =>
      cases isGather

end NodeKind

/-- A copy under new names has its gathers in order if what they rejoin is kept. -/
theorem GathersAt.copied
    {kind? kind?' : NodeId → Option StoryKind}
    {rename : NodeId → NodeId}
    {keep : NodeId → Bool}
    {id : NodeId}
    {kind : StoryKind}
    (gathersAt : GathersAt kind? id)
    (isKind : kind? id = some kind)
    (copies :
      ∀ other ∈ id :: kind.children,
        kind?' (rename other) = (kind? other).map (·.copy rename keep))
    (kept : ∀ child ∈ kind.children, keep child = true) :
    GathersAt kind?' (rename id) := by
  obtain ⟨isCopy, copiesBelow⟩ := List.forall_mem_cons.mp copies
  rw [isKind, Option.map_some] at isCopy
  have isGather_eq :
      ∀ child ∈ kind.children,
        (kind?' (rename child)).any NodeKind.isGather =
          (kind? child).any NodeKind.isGather := by
    intro child isChild
    rw [copiesBelow child isChild]
    cases kind? child <;> simp
  have isChoice_eq :
      ∀ child ∈ kind.children,
        (kind?' (rename child)).any NodeKind.isChoice =
          (kind? child).any NodeKind.isChoice := by
    intro child isChild
    rw [copiesBelow child isChild]
    cases kind? child <;> simp
  refine ⟨?_, ?_⟩
  · intro other isOther child isChild isGather
    cases isCopy.symm.trans isOther
    rw [NodeKind.children_copy] at isChild
    obtain ⟨older, isOlder, rfl⟩ := List.mem_map.mp isChild
    rw [isGather_eq older isOlder] at isGather
    obtain ⟨content, base, rfl⟩ :=
      gathersAt.isWeave kind isKind older isOlder isGather
    exact ⟨content.map rename, base, rfl⟩
  · intro passed gather rest base name depth rejoins isWeave isGather
    rw [isCopy, Option.some.injEq] at isWeave
    obtain ⟨content, rfl, renamed⟩ := NodeKind.exists_of_copy_eq_weave isWeave
    obtain ⟨before, behind, rfl, rfl, renamedBehind⟩ :=
      List.map_eq_append_iff.mp renamed
    obtain ⟨older, others, rfl, rfl, -⟩ :=
      List.map_eq_cons_iff.mp renamedBehind
    rw [copiesBelow older (by simp [NodeKind.children])] at isGather
    obtain ⟨own, isOwn, isOwnCopy⟩ := Option.map_eq_some_iff.mp isGather
    obtain ⟨ownName, olderRejoins, rfl, rfl⟩ :=
      NodeKind.exists_of_copy_eq_gather isOwnCopy
    simp only [NodeKind.children, List.forall_mem_append]
      at isGather_eq isChoice_eq kept
    rw [gathersAt.rejoins before older others base ownName depth olderRejoins
      isKind isOwn]
    rw [looseChoices_map rename isGather_eq.1 isChoice_eq.1]
    congr 1
    apply List.filter_eq_self.mpr
    exact fun choice isLoose => kept.1 choice (mem_of_looseChoices isLoose)

namespace Draft.Renumbers

variable
    {draft : Draft}
    {root old : NodeId}
    {rootSpan : Span}
    {file : Option String}
    {entries : List (NodeId × Option NodeId)}
    {story : Story}
    (renumbers : Renumbers draft root rootSpan file entries story)

include renumbers

theorem kind?_placeIn
    (member : old ∈ entries.map Prod.fst) :
    story.kind? (placeIn entries old) =
      (draft.kind? old).map
        (·.copy (placeIn entries) (· ∈ entries.map Prod.fst)) := by
  obtain ⟨index, parent, -, entry⟩ := Freezes.exists_index member
  obtain ⟨slot, node, made, isNode, isCopy, -, -⟩ := renumbers.node entry
  rw [renumbers.visits.placeIn_eq entry]
  simp [Story.kind?, isNode, isCopy, kind?, made, NodeKind.copy]

/-- The story of trees in order has its gathers in order. -/
theorem gathersAt
    (arranged : draft.Arranged [root])
    (id : NodeId) :
    GathersAt story.kind? id := by
  by_cases inRange : id.index < entries.length
  · obtain ⟨⟨old, parent⟩, entry⟩ : ∃ entry, entries[id.index]? = some entry :=
      ⟨_, List.getElem?_eq_getElem inRange⟩
    have member : old ∈ entries.map Prod.fst :=
      List.mem_map.mpr ⟨_, List.mem_of_getElem? entry, rfl⟩
    obtain ⟨slot, made⟩ := renumbers.visits.made_of_mem member
    have isKind : draft.kind? old = some slot.kind := by
      simp [kind?, made]
    have visited : ∀ child ∈ slot.kind.children, child ∈ entries.map Prod.fst := by
      intro child isChild
      rw [← childrenOf_eq made] at isChild
      simpa using renumbers.visits.mem_of_child member isChild
    have gathersAt : GathersAt draft.kind? old :=
      arranged root List.mem_cons_self old ((renumbers.exactly old).mp member)
    have place : placeIn entries old = id :=
      renumbers.visits.placeIn_eq entry
    rw [← place]
    refine
      gathersAt.copied isKind (fun other isOther => ?_) fun child isChild =>
        decide_eq_true (visited child isChild)
    rcases List.mem_cons.mp isOther with rfl | isChild
    · exact renumbers.kind?_placeIn member
    · exact renumbers.kind?_placeIn (visited other isChild)
  · have none : story.kind? id = none := by
      rw [← renumbers.size] at inRange
      simp [Story.kind?, Story.node?,
        List.getElem?_eq_none (Nat.not_lt.mp inRange)]
    exact
      ⟨fun _ isKind => by simp [none] at isKind,
        fun _ _ _ _ _ _ _ isKind => by simp [none] at isKind⟩

end Draft.Renumbers

namespace Story

variable
    {story : Story}
    {id above other : NodeId}

theorem exists_node_of_mem_children
    (isChild : id ∈ story.children above) :
    ∃ node, story.nodes[above.index]? = some node ∧ id ∈ node.kind.children := by
  simp only [children, kind?, node?] at isChild
  cases isNode : story.nodes[above.index]? with
  | none =>
      simp [isNode] at isChild
  | some node =>
      exact ⟨node, rfl, by simpa [isNode] using isChild⟩

namespace IsTree

variable (isTree : story.IsTree)

include isTree

theorem nodup_children :
    (story.nodes.flatMap (·.kind.children)).Nodup := by
  rw [List.nodup_iff_count_le_one]
  intro id
  by_cases listed : id ∈ story.nodes.flatMap (·.kind.children)
  · obtain ⟨node, member, isChild⟩ := List.mem_flatMap.mp listed
    have notRoot : 0 < id.index := by
      refine Nat.pos_of_ne_zero fun isFirst => isTree.root.2 ?_
      have isRoot : id = Story.root := congrArg NodeId.mk isFirst
      rwa [isRoot] at listed
    obtain ⟨-, -, -, -, once⟩ :=
      isTree.below id notRoot (isTree.inRange node member id isChild)
    exact Nat.le_of_eq once
  · rw [List.count_eq_zero.mpr listed]
    exact Nat.zero_le 1

theorem nodup_of_kind
    {kind : StoryKind}
    (isKind : story.kind? id = some kind) :
    kind.children.Nodup := by
  obtain ⟨node, isNode, rfl⟩ := Option.map_eq_some_iff.mp isKind
  exact
    (List.nodup_flatMap.mp isTree.nodup_children).1 node
      (List.mem_of_getElem? isNode)

/-- No node stands below two others. -/
theorem eq_of_mem_children
    (id : NodeId)
    (isChild : id ∈ story.children above)
    (isOther : id ∈ story.children other) :
    above = other := by
  obtain ⟨node, isNode, below⟩ := exists_node_of_mem_children isChild
  obtain ⟨otherNode, isOtherNode, belowOther⟩ :=
    exists_node_of_mem_children isOther
  have apart := (List.nodup_flatMap.mp isTree.nodup_children).2
  obtain ⟨bound, rfl⟩ := List.getElem?_eq_some_iff.mp isNode
  obtain ⟨otherBound, rfl⟩ := List.getElem?_eq_some_iff.mp isOtherNode
  rw [List.pairwise_iff_getElem] at apart
  rcases Nat.lt_trichotomy above.index other.index with first | same | second
  · exact (apart _ _ bound otherBound first below belowOther).elim
  · exact congrArg NodeId.mk same
  · exact (apart _ _ otherBound bound second belowOther below).elim

end IsTree

section Gathers

variable {choice : NodeId}

theorem exists_gather
    (isGather : (story.kind? id).any NodeKind.isGather = true) :
    ∃ name depth,
      story.kind? id = some (.gather name depth (story.rejoins id)) := by
  cases isKind : story.kind? id with
  | none =>
      simp [isKind] at isGather
  | some kind =>
      cases kind with
      | gather name depth rejoins =>
          exact ⟨name, depth, by simp [Story.rejoins, isKind, NodeKind.rejoins]⟩
      | _ =>
          simp [isKind, NodeKind.isGather] at isGather

theorem isGather_of_mem_rejoins
    (rejoined : choice ∈ story.rejoins id) :
    (story.kind? id).any NodeKind.isGather = true := by
  unfold Story.rejoins at rejoined
  cases isKind : story.kind? id with
  | none =>
      simp [isKind] at rejoined
  | some kind =>
      cases kind with
      | gather name depth rejoins =>
          rfl
      | _ =>
          simp [isKind, NodeKind.rejoins] at rejoined

/-- A gather stands in the weave that is its parent, and rejoins what is loose before it. -/
theorem IsTree.exists_weave
    (isTree : story.IsTree)
    (gathersAt : ∀ id, GathersAt story.kind? id)
    (isGather : (story.kind? id).any NodeKind.isGather = true) :
    ∃ weave passed rest base,
      story.parent? id = some weave ∧
        story.kind? weave = some (.weave (passed ++ id :: rest) base) ∧
        story.rejoins id = looseChoices story.kind? passed := by
  obtain ⟨⟨root, content, isRoot, isStory, -⟩, -⟩ := isTree.root
  obtain ⟨name, depth, isKind⟩ := exists_gather isGather
  have notRoot : 0 < id.index := by
    refine Nat.pos_of_ne_zero fun isFirst => ?_
    have same : id = Story.root := congrArg NodeId.mk isFirst
    simp [same, kind?, isRoot, isStory] at isKind
  have bound : id.index < story.size := by
    obtain ⟨node, isNode, -⟩ := Option.map_eq_some_iff.mp isKind
    exact (List.getElem?_eq_some_iff.mp isNode).1
  obtain ⟨weave, isParent, -, isChild, -⟩ := isTree.below id notRoot bound
  cases isOuter : story.kind? weave with
  | none =>
      simp [children, isOuter] at isChild
  | some kind =>
      have listed : id ∈ kind.children := by
        simpa [children, isOuter] using isChild
      obtain ⟨content, base, rfl⟩ :=
        (gathersAt weave).isWeave kind isOuter id listed isGather
      obtain ⟨passed, rest, rfl⟩ := List.append_of_mem listed
      exact
        ⟨weave, passed, rest, base, isParent, isOuter,
          (gathersAt weave).rejoins passed id rest base name depth _ isOuter
            isKind⟩

/-- No choice is rejoined by two gathers. -/
theorem IsTree.eq_of_mem_rejoins
    (isTree : story.IsTree)
    (gathersAt : ∀ id, GathersAt story.kind? id)
    (rejoined : choice ∈ story.rejoins id)
    (again : choice ∈ story.rejoins other) :
    id = other := by
  have isGather := isGather_of_mem_rejoins rejoined
  have isOther := isGather_of_mem_rejoins again
  obtain ⟨weave, passed, rest, base, -, isWeave, ofWeave⟩ :=
    isTree.exists_weave gathersAt isGather
  obtain ⟨otherWeave, otherPassed, otherRest, otherBase, -, isOtherWeave,
      ofOther⟩ :=
    isTree.exists_weave gathersAt isOther
  rw [ofWeave] at rejoined
  rw [ofOther] at again
  have same : weave = otherWeave := by
    apply isTree.eq_of_mem_children choice
    · simp [children, isWeave, NodeKind.children, mem_of_looseChoices rejoined]
    · simp [children, isOtherWeave, NodeKind.children,
        mem_of_looseChoices again]
  subst same
  have contents : passed ++ id :: rest = otherPassed ++ other :: otherRest := by
    have kinds := isWeave.symm.trans isOtherWeave
    simp only [Option.some.injEq, NodeKind.weave.injEq] at kinds
    exact kinds.1
  rcases List.append_eq_append_iff.mp contents with
    ⟨between, rfl, follows⟩ | ⟨between, rfl, follows⟩
  · exact
      eq_of_looseChoices isGather (isTree.nodup_of_kind isWeave) follows
        rejoined again
  · exact
      (eq_of_looseChoices isOther (isTree.nodup_of_kind isOtherWeave) follows
        again rejoined).symm

end Gathers

end Story

end InkSyntax
