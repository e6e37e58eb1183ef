import InkSyntax.Proofs.Story.Casting
import InkSyntax.Proofs.Story.Weaving

namespace InkSyntax

/-!
# Roles in weaves

Arranging statements into a weave and flows gives each of them a place that suits
it: the flows stand beside the weave, and everything else in a weave.
-/

namespace NodeKind

/-- What a gather rejoins does not matter for the role that it plays. -/
theorem admits_withRejoins
    {role : Role}
    {kind : StoryKind}
    (change : List NodeId → List NodeId)
    (admits : role.Admits kind) :
    role.Admits (kind.withRejoins change) ∧
      role.demands (kind.withRejoins change) = role.demands kind := by
  cases kind with
  | gather name depth rejoins =>
      refine ⟨⟨?_, admits.proper⟩, ?_⟩
      · have isSuited := admits.suits
        cases role <;> exact isSuited
      · cases role <;> rfl
  | _ =>
      exact ⟨admits, rfl⟩

end NodeKind

namespace Draft

/-- A statement in a weave is no flow, and what is beside the weave is one. -/
theorem admits_of_statement
    {place : Place}
    {kind : StoryKind}
    (admits : (Role.statement place).Admits kind) :
    (if kind.isFlow then Role.division place else .woven).Admits kind := by
  refine ⟨?_, .inr (admits.proper.resolve_left (by simp))⟩
  have isSuited := admits.suits
  cases kind with
  | flow part =>
      exact isSuited
  | gather name depth rejoins =>
      rfl
  | _ =>
      first | exact isSuited | cases isSuited

namespace Plays

variable
    {draft : Draft}
    {parts : List Part}
    {nodes content : List NodeId}
    {role : Role}

theorem recasts_joinChoices
    {ids : List NodeId}
    (plays : Plays draft parts nodes)
    (loose : List NodeId)
    (among : ∀ id ∈ ids, (id, role) ∈ parts) :
    Recasts nodes draft (draft.joinChoices loose ids) parts := by
  induction ids generalizing draft nodes loose with
  | nil =>
      exact plays.recasts
  | cons id rest inductionHypothesis =>
      obtain ⟨isRoot, restAmong⟩ := List.forall_mem_cons.mp among
      unfold joinChoices
      split
      · exact inductionHypothesis plays _ restAmong
      · obtain ⟨spares, found, playsFound, known⟩ :=
          plays.recasts_modify_of_mem isRoot fun kind admits =>
            NodeKind.admits_withRejoins (fun _ => loose) admits
        exact .trans spares known (inductionHypothesis playsFound _ restAmong)
      · exact inductionHypothesis plays _ restAmong

theorem recasts_addWeave
    (plays : Plays draft (Role.woven.parts content) nodes)
    (base : Nat)
    (suits :
      role.suits (.weave content base : StoryKind) = true) :
    Recasts nodes draft (draft.addWeave content base).2
      [((draft.addWeave content base).1, role)] := by
  obtain ⟨spares, found, playsFound, known⟩ :=
    plays.recasts_joinChoices [] fun id member =>
      List.mem_map_of_mem (f := (·, Role.woven)) member
  refine .trans spares known (Plays.recasts_add ?_ ⟨suits, .inr trivial⟩)
  rwa [Role.demands_weave]

mutual

theorem recasts_placeItem
    {draft : Draft}
    {nodes : List NodeId}
    (item : WeaveTree)
    (plays : Plays draft (Role.woven.parts item.leaves) nodes) :
    Recasts nodes draft (placeItem item draft).2
      [((placeItem item draft).1, .woven)] := by
  cases item with
  | leaf id =>
      simpa [placeItem, WeaveTree.leaves] using plays.recasts
  | nested base items =>
      simp only [placeItem]
      obtain ⟨spares, found, playsFound, known⟩ :=
        recasts_placeItems items plays
      exact .trans spares known (playsFound.recasts_addWeave base rfl)

theorem recasts_placeItems
    {draft : Draft}
    {nodes : List NodeId}
    (items : List WeaveTree)
    (plays :
      Plays draft (Role.woven.parts (WeaveTree.leavesOf items)) nodes) :
    Recasts nodes draft (placeItems items draft).2
      (Role.woven.parts (placeItems items draft).1) := by
  cases items with
  | nil =>
      simpa [placeItems, WeaveTree.leavesOf] using plays.recasts
  | cons item items =>
      simp only [WeaveTree.leavesOf, Role.parts_append] at plays
      simp only [placeItems, Role.parts_cons]
      obtain ⟨itemNodes, otherNodes, rfl, playsItem, playsOthers, apart⟩ :=
        plays.exists_append
      obtain ⟨spares, found, playsFound, known⟩ :=
        (recasts_placeItem item playsItem).beside playsOthers apart
      apply Recasts.trans spares known
      obtain ⟨placedNodes, restNodes, rfl, playsPlaced, playsRest, restApart⟩ :=
        playsFound.exists_append
      have rest :=
        (recasts_placeItems items playsRest).beside playsPlaced
          (List.disjoint_symm restApart)
      refine (rest.mono ?_).subperm ?_
      · intro id
        simp [or_comm]
      · exact (List.perm_append_singleton _ _).symm.subperm

end

/-- Arranging statements gives the weave of a place and the flows at it. -/
theorem recasts_weaveAndFlows
    {place : Place}
    (plays : Plays draft (Role.parts (.statement place) content) nodes) :
    Recasts nodes draft (draft.weaveAndFlows content).2
      (Role.parts (.division place) (draft.weaveAndFlows content).1) := by
  unfold weaveAndFlows
  generalize isFlow_eq :
    (fun id => ((draft.kind? id).map NodeKind.isFlow).getD false) = isFlow
  let others := content.filter fun id => !isFlow id
  let flows := content.filter isFlow
  have arranged :
      (Role.parts (.statement place) (others ++ flows)).Perm
        (Role.parts (.statement place) content) :=
    (List.perm_append_comm.trans (List.filter_append_perm isFlow content)).map _
  obtain ⟨found, playsParts, fewer⟩ := plays.subperm arranged.subperm
  have playsTheirs :
      Plays draft
        (Role.woven.parts others ++ Role.parts (.division place) flows)
        found := by
    refine ⟨playsParts.cast.become ?_, playsParts.nodup⟩
    rw [Role.parts_append]
    refine List.rel_append (Role.forall₂_parts ?_) (Role.forall₂_parts ?_)
    · intro id member
      refine ⟨rfl, fun kind isKind admits => ?_⟩
      have notFlow := (List.mem_filter.mp member).2
      simp only [← isFlow_eq, isKind, Option.map_some, Option.getD_some,
        Bool.not_eq_true'] at notFlow
      have admitsIts := admits_of_statement admits
      rw [notFlow] at admitsIts
      exact ⟨admitsIts, by simp [Role.demands_eq_parts]⟩
    · intro id member
      refine ⟨rfl, fun kind isKind admits => ?_⟩
      have isFlow := (List.mem_filter.mp member).2
      simp only [← isFlow_eq, isKind, Option.map_some, Option.getD_some]
        at isFlow
      have admitsIts := admits_of_statement admits
      rw [isFlow] at admitsIts
      exact ⟨admitsIts, by simp [Role.demands_eq_parts]⟩
  obtain ⟨wovenNodes, flowNodes, rfl, playsWoven, playsFlows, apart⟩ :=
    playsTheirs.exists_append
  have woven :
      Recasts wovenNodes draft (draft.weave others 0).2
        [((draft.weave others 0).1, .division place)] := by
    simp only [weave, placeItem]
    rw [← WeaveTree.leavesOf_group draft.weavePointDepth? 0 others]
      at playsWoven
    obtain ⟨spares, found, playsFound, known⟩ :=
      recasts_placeItems _ playsWoven
    exact .trans spares known (playsFound.recasts_addWeave 0 rfl)
  exact (woven.beside playsFlows apart).mono fewer.subset

end Plays

end Draft

end InkSyntax
