import InkSyntax.Proofs.Story.Nesting
import InkSyntax.Proofs.Story.Numbering
import Mathlib.Data.List.DropRight

namespace InkSyntax

/-!
# What gathers rejoin

A gather rejoins the choices that stand before it in its weave, back to the gather
before it.  Weaves are made from the inside out, and each tells the gathers among its
own content what they rejoin.  As no node has two places in a tree, what a gather was
told is never changed by a weave farther out.
-/

/-- The choices among some nodes that no gather among them follows. -/
def looseChoices
    (kind? : NodeId → Option StoryKind)
    (passed : List NodeId) :
    List NodeId :=
  (passed.rtakeWhile fun id => !(kind? id).any NodeKind.isGather).filter
    fun id => (kind? id).any NodeKind.isChoice

/-- Gathers below a node are those of a weave, and rejoin what is loose before them. -/
structure GathersAt
    (kind? : NodeId → Option StoryKind)
    (id : NodeId) : Prop where
  isWeave :
    ∀ kind, kind? id = some kind →
      ∀ child ∈ kind.children,
        (kind? child).any NodeKind.isGather = true →
        ∃ content base, kind = .weave content base
  rejoins :
    ∀ passed gather rest base name depth rejoins,
      kind? id = some (.weave (passed ++ gather :: rest) base) →
      kind? gather = some (.gather name depth rejoins) →
      rejoins = looseChoices kind? passed

section LooseChoices

variable
    {kind? kind?' : NodeId → Option StoryKind}
    {passed : List NodeId}
    {id : NodeId}

theorem looseChoices_concat :
    looseChoices kind? (passed ++ [id]) =
      if (kind? id).any NodeKind.isGather then []
      else
        looseChoices kind? passed ++
          if (kind? id).any NodeKind.isChoice then [id] else [] := by
  unfold looseChoices
  rw [List.rtakeWhile_concat]
  split
  next stays =>
    simp only [Bool.not_eq_true'] at stays
    rw [stays, List.filter_append, List.filter_singleton]
    simp
  next stops =>
    simp only [Bool.not_eq_true', Bool.not_eq_false] at stops
    simp [stops]

theorem looseChoices_map
    (rename : NodeId → NodeId)
    (gathers :
      ∀ id ∈ passed,
        (kind?' (rename id)).any NodeKind.isGather =
          (kind? id).any NodeKind.isGather)
    (choices :
      ∀ id ∈ passed,
        (kind?' (rename id)).any NodeKind.isChoice =
          (kind? id).any NodeKind.isChoice) :
    looseChoices kind?' (passed.map rename) =
      (looseChoices kind? passed).map rename := by
  induction passed using List.reverseRecOn with
  | nil =>
      rfl
  | append_singleton passed id inductionHypothesis =>
      simp only [List.forall_mem_append, List.forall_mem_singleton]
        at gathers choices
      rw [List.map_append, List.map_singleton, looseChoices_concat,
        looseChoices_concat, gathers.2, choices.2,
        inductionHypothesis gathers.1 choices.1]
      split
      · rfl
      · rw [List.map_append]
        split <;> rfl

theorem looseChoices_congr
    (gathers :
      ∀ id ∈ passed,
        (kind?' id).any NodeKind.isGather = (kind? id).any NodeKind.isGather)
    (choices :
      ∀ id ∈ passed,
        (kind?' id).any NodeKind.isChoice = (kind? id).any NodeKind.isChoice) :
    looseChoices kind?' passed = looseChoices kind? passed := by
  simpa using looseChoices_map id gathers choices

end LooseChoices

namespace NodeKind

variable
    {σ : Type}
    {kind : NodeKind σ}

@[simp] theorem isGather_withRejoins
    (change : List NodeId → List NodeId) :
    (kind.withRejoins change).isGather = kind.isGather := by
  cases kind <;> rfl

@[simp] theorem isChoice_withRejoins
    (change : List NodeId → List NodeId) :
    (kind.withRejoins change).isChoice = kind.isChoice := by
  cases kind <;> rfl

end NodeKind

namespace GathersAt

variable
    {kind? kind?' : NodeId → Option StoryKind}
    {id : NodeId}
    {kind : StoryKind}

/-- A node without gathers directly below it that is no weave. -/
theorem of_none
    (isKind : kind? id = some kind)
    (notWeave : ∀ content base, kind ≠ .weave content base)
    (none :
      ∀ child ∈ kind.children, (kind? child).any NodeKind.isGather = false) :
    GathersAt kind? id := by
  refine ⟨?_, ?_⟩
  · intro other isOther child isChild isGather
    cases isKind.symm.trans isOther
    rw [none child isChild] at isGather
    cases isGather
  · intro passed gather rest base name depth rejoins isWeave
    exact absurd (Option.some.inj (isKind.symm.trans isWeave)) (notWeave _ _)

/-- A gather may be told what it rejoins, but the nodes below it have to stay. -/
theorem changed
    (change : List NodeId → List NodeId)
    (gathersAt : GathersAt kind? id)
    (isKind : kind? id = some kind)
    (isChanged : kind?' id = some (kind.withRejoins change))
    (children : ∀ child ∈ kind.children, kind?' child = kind? child) :
    GathersAt kind?' id := by
  refine ⟨?_, ?_⟩
  · intro other isOther child isChild isGather
    cases isChanged.symm.trans isOther
    rw [NodeKind.children_withRejoins] at isChild
    rw [children child isChild] at isGather
    obtain ⟨content, base, rfl⟩ :=
      gathersAt.isWeave kind isKind child isChild isGather
    exact ⟨content, base, rfl⟩
  · intro passed gather rest base name depth rejoins isWeave isGather
    rw [isChanged, Option.some.injEq, NodeKind.withRejoins_eq_weave] at isWeave
    subst isWeave
    simp only [NodeKind.children, List.forall_mem_append,
      List.forall_mem_cons] at children
    obtain ⟨samePassed, sameGather, -⟩ := children
    rw [sameGather] at isGather
    rw [gathersAt.rejoins passed gather rest base name depth rejoins isKind
      isGather]
    apply looseChoices_congr
    · exact fun id member => by rw [samePassed id member]
    · exact fun id member => by rw [samePassed id member]

end GathersAt

namespace Draft

variable
    {draft before after : Draft}
    {id : NodeId}
    {passed : List NodeId}

namespace Retains

theorem any_isGather_eq
    (retains : Retains before after)
    (made : id.index < before.size) :
    (after.kind? id).any NodeKind.isGather =
      (before.kind? id).any NodeKind.isGather := by
  obtain ⟨kind, change, isKind, changed⟩ := retains.exists_kind made
  simp [isKind, changed]

theorem looseChoices_eq
    (retains : Retains before after)
    (made : ∀ id ∈ passed, id.index < before.size) :
    looseChoices after.kind? passed = looseChoices before.kind? passed := by
  apply looseChoices_congr
  · exact fun id member => retains.any_isGather_eq (made id member)
  · intro id member
    obtain ⟨kind, change, isKind, changed⟩ :=
      retains.exists_kind (made id member)
    simp [isKind, changed]

end Retains

theorem spares_joinChoices
    (draft : Draft)
    (loose ids : List NodeId) :
    Spares ids draft (draft.joinChoices loose ids) := by
  induction ids generalizing draft loose with
  | nil =>
      exact .refl [] draft
  | cons id rest inductionHypothesis =>
      have further {middle : Draft} (loose : List NodeId) :
          Spares (id :: rest) middle (middle.joinChoices loose rest) :=
        (inductionHypothesis middle loose).mono
          fun _ member _ => List.mem_cons_of_mem _ member
      unfold joinChoices
      split
      · exact further _
      · have told :
            Spares (id :: rest) draft
              (draft.modify id (·.withRejoins fun _ => loose)) :=
          (spares_modify draft id _).mono (by simp)
        exact told.trans (further _) fun _ member _ => member
      · exact further _

theorem kind?_withRejoins
    (draft : Draft)
    (id : NodeId)
    (change : List NodeId → List NodeId) :
    (draft.modify id (·.withRejoins change)).kind? id =
      (draft.kind? id).map (·.withRejoins change) := by
  simp only [kind?, slot?_modify, Option.map_map]
  rfl

theorem Spares.kind?
    {touched : List NodeId}
    (spares : Spares touched before after)
    (made : id.index < before.size)
    (untouched : id ∉ touched) :
    after.kind? id = before.kind? id := by
  simp only [Draft.kind?, spares.slot? id made untouched]

/-- The gather at hand is told what is loose, and is not told again. -/
theorem rejoins_of_joinChoices_cons
    {loose rest rejoins : List NodeId}
    {gather : NodeId}
    {name : Option NodeId}
    {depth : Nat}
    (once : gather ∉ rest)
    (made : gather.index < draft.size)
    (told :
      (draft.joinChoices loose (gather :: rest)).kind? gather =
        some (.gather name depth rejoins)) :
    rejoins = loose := by
  obtain ⟨kind, change, isKind, changed⟩ :=
    (Retains.joinChoices draft loose (gather :: rest)).exists_kind made
  have isGather : kind.isGather = true := by
    rw [← NodeKind.isGather_withRejoins change]
    rw [changed] at told
    rw [Option.some.inj told]
    rfl
  cases kind with
  | gather own at_ older =>
      let after := draft.modify gather (·.withRejoins fun _ => loose)
      have stays : (after.joinChoices [] rest).kind? gather = after.kind? gather :=
        (spares_joinChoices after [] rest).kind?
          (Nat.lt_of_lt_of_le made (spares_modify draft gather _).size_le) once
      simp only [joinChoices, isKind] at told
      change (after.joinChoices [] rest).kind? gather = _ at told
      rw [stays, kind?_withRejoins, isKind] at told
      simp only [Option.map_some, NodeKind.withRejoins, Option.some.injEq,
        NodeKind.gather.injEq] at told
      exact told.2.2.symm
  | _ =>
      cases isGather

/-- A node that is neither choice nor gather changes nothing about what is loose. -/
theorem looseChoices_concat_other
    (notChoice : ∀ option, draft.kind? id = some (.choice option) → False)
    (notGather :
      ∀ name depth rejoins,
        draft.kind? id = some (.gather name depth rejoins) → False) :
    looseChoices draft.kind? (passed ++ [id]) =
      looseChoices draft.kind? passed := by
  rw [looseChoices_concat]
  cases isKind : draft.kind? id with
  | none =>
      simp
  | some kind =>
      cases kind with
      | choice option =>
          exact (notChoice option isKind).elim
      | gather name depth rejoins =>
          exact (notGather name depth rejoins isKind).elim
      | _ =>
          simp [NodeKind.isGather, NodeKind.isChoice]

/-- A gather behind some nodes is told those of their choices that are loose. -/
theorem rejoins_of_joinChoices
    {rest rejoins : List NodeId}
    {gather : NodeId}
    {name : Option NodeId}
    {depth : Nat}
    (done : List NodeId)
    (nodup : (passed ++ gather :: rest).Nodup)
    (made : ∀ id ∈ done ++ (passed ++ gather :: rest), id.index < draft.size)
    (told :
      (draft.joinChoices (looseChoices draft.kind? done)
          (passed ++ gather :: rest)).kind? gather =
        some (.gather name depth rejoins)) :
    rejoins = looseChoices draft.kind? (done ++ passed) := by
  induction passed generalizing draft done with
  | nil =>
      rw [List.append_nil]
      exact
        rejoins_of_joinChoices_cons (List.nodup_cons.mp nodup).1
          (made gather (by simp)) told
  | cons first passed inductionHypothesis =>
      have nodupRest := (List.nodup_cons.mp nodup).2
      have madeRest :
          ∀ id ∈ done ++ [first] ++ (passed ++ gather :: rest),
            id.index < draft.size := by
        simpa using made
      rw [List.append_cons]
      simp only [List.cons_append, joinChoices] at told
      split at told
      next isChoice =>
        refine inductionHypothesis _ nodupRest madeRest ?_
        simpa [looseChoices_concat, isChoice, NodeKind.isGather,
          NodeKind.isChoice] using told
      next isGather =>
        have retains :=
          Retains.withRejoins draft first fun _ => looseChoices draft.kind? done
        have madePassed :
            ∀ id ∈ done ++ [first] ++ passed, id.index < draft.size := by
          intro id member
          refine madeRest id ?_
          rw [← List.append_assoc]
          exact List.mem_append_left _ member
        rw [← retains.looseChoices_eq madePassed]
        refine inductionHypothesis _ nodupRest ?_ ?_
        · exact fun id member =>
            Nat.lt_of_lt_of_le (madeRest id member) retains.size_le
        · rw [looseChoices_concat, kind?_withRejoins, isGather]
          exact told
      next notChoice notGather =>
        refine inductionHypothesis _ nodupRest madeRest ?_
        rw [looseChoices_concat_other notChoice notGather]
        exact told

/-- Everything that some roots reach has its gathers in order. -/
def Arranged (draft : Draft) (roots : List NodeId) : Prop :=
  ∀ root ∈ roots, ∀ id, draft.Reaches root id → GathersAt draft.kind? id

/-- None of some nodes is a gather. -/
def NoGathers (draft : Draft) (ids : List NodeId) : Prop :=
  ∀ id ∈ ids, (draft.kind? id).any NodeKind.isGather = false

section Trees

variable
    {origin : Cursor}
    {admits : Story → Prop}
    {low high : Nat}
    {roots nodes content touched : List NodeId}

theorem Forest.arranged_iff
    (forest : Forest origin admits draft low high roots nodes) :
    draft.Arranged roots ↔ ∀ id ∈ nodes, GathersAt draft.kind? id := by
  constructor
  · intro arranged id member
    obtain ⟨root, isRoot, reaches⟩ := forest.mem_iff_reaches.mp member
    exact arranged root isRoot id reaches
  · intro each root isRoot id reaches
    exact each id (forest.mem_iff_reaches.mpr ⟨root, isRoot, reaches⟩)

theorem arranged_append
    {more : List NodeId} :
    draft.Arranged (roots ++ more) ↔
      draft.Arranged roots ∧ draft.Arranged more :=
  List.forall_mem_append

theorem arranged_cons :
    draft.Arranged (id :: roots) ↔
      draft.Arranged [id] ∧ draft.Arranged roots := by
  simp [Arranged]

theorem Arranged.mono
    {fewer : List NodeId}
    (arranged : draft.Arranged roots)
    (subset : fewer ⊆ roots) :
    draft.Arranged fewer :=
  fun root member => arranged root (subset member)

/-- Giving spans has nothing to do with gathers. -/
theorem Arranged.setSpans
    (arranged : draft.Arranged roots)
    (span : Span)
    (ids : List NodeId) :
    (draft.setSpans span ids).Arranged roots := by
  have same : (draft.setSpans span ids).kind? = draft.kind? := by
    funext id
    simp [kind?_eq_getElem?]
  simpa only [Arranged, Reaches, childrenOf, same] using arranged

/-- Trees stay in order as long as none of their nodes is touched. -/
theorem Arranged.spared
    (arranged : before.Arranged roots)
    (forest : Forest origin admits before low high roots nodes)
    (spares : Spares touched before after)
    (untouched : ∀ id ∈ nodes, id ∉ touched) :
    after.Arranged roots := by
  refine (forest.spared spares untouched).arranged_iff.mpr ?_
  intro id member
  obtain ⟨slot, made, closed⟩ := forest.knows id member
  have same {other : NodeId} (member : other ∈ nodes) :
      after.kind? other = before.kind? other :=
    spares.kind? (forest.lt_size member) (untouched other member)
  have isKind : before.kind? id = some slot.kind := by
    simp [Draft.kind?, made]
  refine
    .changed (fun rejoins => rejoins)
      (forest.arranged_iff.mp arranged id member) isKind ?_ ?_
  · rw [same member, isKind, NodeKind.withRejoins_self]
  · exact fun child isChild => same (closed isChild)

/-- Telling the gathers among the roots what they rejoin leaves those below in order. -/
theorem Holds.arranged_joinChoices
    (holds : Holds origin admits draft low high content nodes)
    (arranged : draft.Arranged content) :
    (draft.joinChoices [] content).Arranged content := by
  obtain ⟨spares, found, holdsFound, known⟩ :=
    holds.gains_joinChoices [] (List.Subset.refl content)
  refine holdsFound.forest.arranged_iff.mpr ?_
  intro id isFound
  have member : id ∈ nodes := by
    rcases known id isFound with old | new
    · exact old
    · have made := holdsFound.forest.lt_size isFound
      rw [size_joinChoices] at made
      omega
  obtain ⟨slot, made, closed⟩ := holds.forest.knows id member
  have isKind : draft.kind? id = some slot.kind := by
    simp [Draft.kind?, made]
  obtain ⟨kind, change, isSame, changed⟩ :=
    (Retains.joinChoices draft [] content).exists_kind
      (holds.forest.lt_size member)
  cases isKind.symm.trans isSame
  refine
    .changed change (holds.forest.arranged_iff.mp arranged id member) isKind
      changed ?_
  intro child isChild
  apply (spares_joinChoices draft [] content).kind?
  · exact holds.forest.lt_size (closed isChild)
  -- A root of the forest stands below none of its nodes.
  · intro isRoot
    have nodup :=
      (holds.forest.perm_children.nodup_iff.mp holds.nodup)
    have below : child ∈ nodes.flatMap draft.childrenOf :=
      List.mem_flatMap.mpr ⟨id, member, by rwa [childrenOf_eq made]⟩
    exact (List.nodup_append'.mp nodup).2.2 isRoot below

/-- A new node over trees in order. -/
theorem Arranged.add
    (kind : StoryKind)
    {span : Option Span}
    (arranged : draft.Arranged kind.children)
    (forest : Forest origin admits draft low high kind.children nodes)
    (own : GathersAt (draft.add kind span).2.kind? ⟨draft.size⟩) :
    (draft.add kind span).2.Arranged [⟨draft.size⟩] := by
  have below :=
    arranged.spared forest (spares_add draft kind span) (by simp)
  rw [Arranged, List.forall_mem_singleton]
  intro id reaches
  rcases Relation.ReflTransGen.cases_head reaches with rfl | ⟨child, isChild, further⟩
  · exact own
  · rw [childrenOf_eq (slot?_add draft kind span)] at isChild
    exact below child isChild id further

/-- A new node that is no weave, over trees in order that are no gathers. -/
theorem Arranged.addOver
    (kind : StoryKind)
    (arranged : draft.Arranged kind.children)
    (forest : Forest origin admits draft low high kind.children nodes)
    (noGathers : draft.NoGathers kind.children)
    (notWeave : ∀ content base, kind ≠ .weave content base) :
    (draft.add kind).2.Arranged [⟨draft.size⟩] := by
  have spares := spares_add draft kind none
  refine
    arranged.add kind forest (.of_none ?_ notWeave fun child isChild => ?_)
  · simp [kind?, slot?_add]
  · have made := forest.lt_size (forest.mem_of_root isChild)
    rw [spares.kind? made List.not_mem_nil]
    exact noGathers child isChild

theorem Holds.arranged_addWeave
    (holds : Holds origin admits draft low high content nodes)
    (arranged : draft.Arranged content)
    (base : Nat) :
    (draft.addWeave content base).2.Arranged
      [(draft.addWeave content base).1] := by
  have joined := holds.arranged_joinChoices arranged
  obtain ⟨-, found, holdsFound, -⟩ :=
    holds.gains_joinChoices [] (List.Subset.refl content)
  refine Arranged.add (.weave content base) joined holdsFound.forest ?_
  rw [size_joinChoices]
  have isWeave := kind?_addWeave draft content base
  have made : ∀ id ∈ content, id.index < draft.size := fun id member =>
    holds.forest.lt_size (holds.forest.mem_of_root member)
  refine ⟨?_, ?_⟩
  · intro kind isKind _ _ _
    exact ⟨content, base, Option.some.inj (isKind.symm.trans isWeave)⟩
  · intro passed gather rest inner name depth rejoins isKind isGather
    cases isWeave.symm.trans isKind
    let joined := draft.joinChoices [] (passed ++ gather :: rest)
    have isMade : gather.index < joined.size := by
      rw [size_joinChoices]
      exact made gather (by simp)
    have told : joined.kind? gather = some (.gather name depth rejoins) :=
      ((spares_add joined _ none).kind? isMade (by simp)).symm.trans isGather
    have nodup := holds.forest.perm_children.nodup_iff.mp holds.nodup
    rw [rejoins_of_joinChoices [] (List.nodup_append'.mp nodup).1
      made told]
    exact
      ((Retains.addWeave draft _ base).looseChoices_eq fun id member =>
        made id (List.mem_append_left _ member)).symm

mutual

theorem Holds.arranged_placeItem
    {draft : Draft}
    {nodes : List NodeId}
    (item : WeaveTree)
    (holds : Holds origin admits draft low high item.leaves nodes)
    (arranged : draft.Arranged item.leaves) :
    (placeItem item draft).2.Arranged [(placeItem item draft).1] := by
  cases item with
  | leaf id =>
      simpa [placeItem, WeaveTree.leaves] using arranged
  | nested base items =>
      simp only [WeaveTree.leaves] at holds arranged
      obtain ⟨-, found, holdsFound, -⟩ := holds.gains_placeItems items
      exact
        holdsFound.arranged_addWeave
          (holds.arranged_placeItems items arranged) base

theorem Holds.arranged_placeItems
    {draft : Draft}
    {nodes : List NodeId}
    (items : List WeaveTree)
    (holds :
      Holds origin admits draft low high (WeaveTree.leavesOf items) nodes)
    (arranged : draft.Arranged (WeaveTree.leavesOf items)) :
    (placeItems items draft).2.Arranged (placeItems items draft).1 := by
  cases items with
  | nil =>
      simp [placeItems, Arranged]
  | cons item items =>
      simp only [WeaveTree.leavesOf, arranged_append] at holds arranged
      simp only [placeItems]
      obtain ⟨itemNodes, otherNodes, rfl, holdsItem, holdsOthers, apart⟩ :=
        holds.exists_append
      have placed := holdsItem.gains_placeItem item
      have others :=
        arranged.2.spared holdsOthers.forest placed.spares
          fun id member touched => apart touched member
      obtain ⟨-, found, holdsFound, -⟩ :=
        placed.beside holdsOthers (Nat.le_refl _) apart
      obtain ⟨placedNodes, restNodes, rfl, holdsPlaced, holdsRest, restApart⟩ :=
        holdsFound.exists_append
      rw [arranged_cons]
      refine ⟨?_, holdsRest.arranged_placeItems items others⟩
      exact
        (holdsItem.arranged_placeItem item arranged.1).spared
          holdsPlaced.forest (holdsRest.gains_placeItems items).spares
          fun id member touched => restApart member touched

end

theorem exists_kind?_weave
    (draft : Draft)
    (content : List NodeId)
    (base : Nat) :
    ∃ inside,
      (draft.weave content base).2.kind? (draft.weave content base).1 =
        some (.weave inside base) := by
  simp [weave, placeItem, kind?_addWeave]

theorem Holds.arranged_weave
    (holds : Holds origin admits draft low high content nodes)
    (arranged : draft.Arranged content)
    (base : Nat) :
    (draft.weave content base).2.Arranged [(draft.weave content base).1] := by
  apply Holds.arranged_placeItem
  · simpa [WeaveTree.leaves] using holds
  · simpa [WeaveTree.leaves] using arranged

/-- The weave and the flows of some content are in order, and none of them is a gather. -/
theorem Holds.arranged_weaveAndFlows
    (holds : Holds origin admits draft low high content nodes)
    (arranged : draft.Arranged content) :
    (draft.weaveAndFlows content).2.Arranged (draft.weaveAndFlows content).1 ∧
      (draft.weaveAndFlows content).2.NoGathers
        (draft.weaveAndFlows content).1 := by
  have split :
      draft.weaveAndFlows content =
        ((draft.weave (content.filter (!draft.isFlowAt ·)) 0).1 ::
            content.filter draft.isFlowAt,
          (draft.weave (content.filter (!draft.isFlowAt ·)) 0).2) :=
    rfl
  rw [split]
  have parts :
      (content.filter (!draft.isFlowAt ·) ++
        content.filter draft.isFlowAt).Perm content :=
    List.perm_append_comm.trans
      (List.filter_append_perm draft.isFlowAt content)
  obtain ⟨found, holdsParts, -⟩ := holds.subperm parts.subperm
  obtain ⟨wovenNodes, flowNodes, rfl, holdsWoven, holdsFlows, apart⟩ :=
    holdsParts.exists_append
  have spares := (holdsWoven.gains_weave 0).spares
  have untouched : ∀ id ∈ flowNodes, id ∉ wovenNodes :=
    fun id member touched => apart touched member
  refine ⟨arranged_cons.mpr ⟨?_, ?_⟩, List.forall_mem_cons.mpr ⟨?_, ?_⟩⟩
  · exact
      holdsWoven.arranged_weave
        (arranged.mono (List.filter_sublist.subset)) 0
  · exact
      (arranged.mono List.filter_sublist.subset).spared holdsFlows.forest
        spares untouched
  · obtain ⟨inside, isWeave⟩ :=
      draft.exists_kind?_weave (content.filter (!draft.isFlowAt ·)) 0
    simp only [isWeave]
    rfl
  · intro id member
    have inForest := holdsFlows.forest.mem_of_root member
    rw [spares.kind? (holdsFlows.forest.lt_size inForest)
      (untouched id inForest)]
    have isFlow := (List.mem_filter.mp member).2
    unfold isFlowAt at isFlow
    cases isKind : draft.kind? id with
    | none =>
        rfl
    | some kind =>
        rw [isKind] at isFlow
        cases kind <;> first | rfl | cases isFlow

/-- A new node on top of woven content, and of other trees that are no gathers. -/
theorem Holds.arranged_addWoven
    {others : List NodeId}
    {kind : StoryKind}
    (holds : Holds origin admits draft low high (content ++ others) nodes)
    (arranged : draft.Arranged (content ++ others))
    (noGathers : draft.NoGathers others)
    (notWeave : ∀ content base, kind ≠ .weave content base)
    (children :
      kind.children.Subperm ((draft.weaveAndFlows content).1 ++ others)) :
    ((draft.weaveAndFlows content).2.add kind).2.Arranged
      [⟨(draft.weaveAndFlows content).2.size⟩] := by
  obtain ⟨contentNodes, otherNodes, rfl, holdsContent, holdsOthers, apart⟩ :=
    holds.exists_append
  obtain ⟨arrangedContent, arrangedOthers⟩ := arranged_append.mp arranged
  obtain ⟨wovenArranged, wovenNoGathers⟩ :=
    holdsContent.arranged_weaveAndFlows arrangedContent
  have gains := holdsContent.gains_weaveAndFlows
  have untouched : ∀ id ∈ otherNodes, id ∉ contentNodes :=
    fun id member touched => apart touched member
  obtain ⟨-, found, holdsAll, -⟩ :=
    gains.beside holdsOthers (Nat.le_refl _) apart
  obtain ⟨childNodes, holdsChildren, -⟩ := holdsAll.subperm children
  have arrangedAll :=
    arranged_append.mpr
      ⟨wovenArranged,
        arrangedOthers.spared holdsOthers.forest gains.spares untouched⟩
  refine
    (arrangedAll.mono children.subset).addOver kind holdsChildren.forest ?_
      notWeave
  intro child isChild
  rcases List.mem_append.mp (children.subset isChild) with woven | other
  · exact wovenNoGathers child woven
  · have isOther := holdsOthers.forest.mem_of_root other
    rw [gains.spares.kind? (holdsOthers.forest.lt_size isOther)
      (untouched child isOther)]
    exact noGathers child other

end Trees

end Draft

end InkSyntax
