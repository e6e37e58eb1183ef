import InkSyntax.Proofs.Story.Growth

namespace InkSyntax

/-!
# What weaving does to a draft

Grouping content moves no node: read from left to right, the weaves inside weaves
hold the content in its order.  Making these weaves therefore takes the trees of
the content and gives one tree with all of them below it.
-/

namespace WeaveTree

mutual

/-- The nodes inside a grouped item, from left to right. -/
def leaves : WeaveTree → List NodeId
  | .leaf id => [id]
  | .nested _ items => leavesOf items

/-- The nodes inside grouped items, from left to right. -/
def leavesOf : List WeaveTree → List NodeId
  | [] => []
  | item :: items => item.leaves ++ leavesOf items

end

theorem leavesOf_map_leaf
    (content : List NodeId) :
    leavesOf (content.map leaf) = content := by
  induction content with
  | nil =>
      simp [leavesOf]
  | cons id rest inductionHypothesis =>
      simp [leavesOf, leaves, inductionHypothesis]

theorem leavesOf_groupWithin
    (depth? : NodeId → Option Nat)
    (steps base : Nat)
    (content : List NodeId) :
    leavesOf (groupWithin depth? steps base content) = content := by
  induction steps generalizing base content with
  | zero =>
      exact leavesOf_map_leaf content
  | succ steps inductionHypothesis =>
      cases content with
      | nil =>
          simp [groupWithin, leavesOf]
      | cons first rest =>
          simp only [groupWithin]
          split
          · simp [leavesOf, leaves, inductionHypothesis,
              List.takeWhile_append_dropWhile]
          · simp [leavesOf, leaves, inductionHypothesis]

@[simp] theorem leavesOf_group
    (depth? : NodeId → Option Nat)
    (base : Nat)
    (content : List NodeId) :
    leavesOf (group depth? base content) = content :=
  leavesOf_groupWithin depth? _ base content

end WeaveTree

namespace Draft.Holds

variable
    {origin : Cursor}
    {admits : Story → Prop}
    {draft : Draft}
    {low high : Nat}
    {roots nodes content : List NodeId}

theorem gains_withRejoins
    {id : NodeId}
    (holds : Holds origin admits draft low high roots nodes)
    (root : id ∈ roots)
    (change : List NodeId → List NodeId) :
    Gains origin admits low high nodes draft
      (draft.modify id (·.withRejoins change)) roots := by
  apply holds.gains_modify root
  · simp
  · simp

/-- Telling gathers what they rejoin changes no tree. -/
theorem gains_joinChoices
    {ids : List NodeId}
    (holds : Holds origin admits draft low high roots nodes)
    (loose : List NodeId)
    (among : ids ⊆ roots) :
    Gains origin admits low high nodes draft (draft.joinChoices loose ids)
      roots := by
  induction ids generalizing draft nodes loose with
  | nil =>
      exact holds.gains
  | cons id rest inductionHypothesis =>
      obtain ⟨isRoot, restAmong⟩ := List.cons_subset.mp among
      unfold joinChoices
      split
      · exact inductionHypothesis holds _ restAmong
      · obtain ⟨spares, found, holdsFound, known⟩ :=
          holds.gains_withRejoins isRoot fun _ => loose
        exact .trans spares known (inductionHypothesis holdsFound _ restAmong)
      · exact inductionHypothesis holds _ restAmong

theorem gains_addWeave
    (holds : Holds origin admits draft low high content nodes)
    (base : Nat) :
    Gains origin admits low high nodes draft (draft.addWeave content base).2
      [(draft.addWeave content base).1] := by
  obtain ⟨spares, found, holdsFound, known⟩ :=
    holds.gains_joinChoices [] (List.Subset.refl content)
  exact .trans spares known (Holds.gains_add holdsFound (by simp) (by simp))

mutual

theorem gains_placeItem
    {draft : Draft}
    {nodes : List NodeId}
    (item : WeaveTree)
    (holds : Holds origin admits draft low high item.leaves nodes) :
    Gains origin admits low high nodes draft (placeItem item draft).2
      [(placeItem item draft).1] := by
  cases item with
  | leaf id =>
      simpa [placeItem, WeaveTree.leaves] using holds.gains
  | nested base items =>
      simp only [placeItem]
      obtain ⟨spares, found, holdsFound, known⟩ :=
        gains_placeItems items holds
      exact .trans spares known (holdsFound.gains_addWeave base)

theorem gains_placeItems
    {draft : Draft}
    {nodes : List NodeId}
    (items : List WeaveTree)
    (holds :
      Holds origin admits draft low high (WeaveTree.leavesOf items) nodes) :
    Gains origin admits low high nodes draft (placeItems items draft).2
      (placeItems items draft).1 := by
  cases items with
  | nil =>
      simpa [placeItems, WeaveTree.leavesOf] using holds.gains
  | cons item items =>
      simp only [WeaveTree.leavesOf] at holds
      simp only [placeItems]
      obtain ⟨itemNodes, otherNodes, rfl, holdsItem, holdsOthers, apart⟩ :=
        holds.exists_append
      obtain ⟨spares, found, holdsFound, known⟩ :=
        (gains_placeItem item holdsItem).beside holdsOthers (Nat.le_refl _)
          apart
      apply Gains.trans spares known
      obtain ⟨placedNodes, restNodes, rfl, holdsPlaced, holdsRest, restApart⟩ :=
        holdsFound.exists_append
      have rest :=
        (gains_placeItems items holdsRest).beside holdsPlaced (Nat.le_refl _)
          (List.disjoint_symm restApart)
      refine
        (rest.mono (Nat.le_refl _) (Nat.le_refl _) ?_).subperm ?_
      · intro id
        simp [or_comm]
      · exact (List.perm_append_singleton _ _).symm.subperm

end

theorem gains_weave
    (holds : Holds origin admits draft low high content nodes)
    (base : Nat) :
    Gains origin admits low high nodes draft (draft.weave content base).2
      [(draft.weave content base).1] := by
  apply gains_placeItem
  simpa [WeaveTree.leaves] using holds

/-- Arranging content into a weave and flows uses each of its trees once. -/
theorem gains_weaveAndFlows
    (holds : Holds origin admits draft low high content nodes) :
    Gains origin admits low high nodes draft (draft.weaveAndFlows content).2
      (draft.weaveAndFlows content).1 := by
  unfold weaveAndFlows
  generalize
    (fun id => ((draft.kind? id).map NodeKind.isFlow).getD false) = isFlow
  have parts :
      (content.filter (fun id => !isFlow id) ++ content.filter isFlow).Perm
        content :=
    List.perm_append_comm.trans (List.filter_append_perm isFlow content)
  obtain ⟨found, holdsParts, fewer⟩ := holds.subperm parts.subperm
  obtain ⟨wovenNodes, flowNodes, rfl, holdsWoven, holdsFlows, apart⟩ :=
    holdsParts.exists_append
  have woven :=
    (holdsWoven.gains_weave 0).beside holdsFlows (Nat.le_refl _) apart
  exact woven.mono (Nat.le_refl _) (Nat.le_refl _) fewer.subset

end Draft.Holds

end InkSyntax
