import InkSyntax.Proofs.Story.Forest
import InkSyntax.Story.Weave
import Mathlib.Data.List.Nodup

namespace InkSyntax

/-!
# How a draft grows

Each step of the grammar takes some trees of a draft and gives others, made of
nodes that it was given and of new ones.  Trees that it was not given it leaves
alone, so they can be carried past it; that is all that putting steps together
needs.
-/

namespace Position

theorem offset_le_of_le
    {left right : Position}
    (before : left.le right) :
    left.offset ≤ right.offset := by
  simp only [Position.le, Bool.or_eq_true, decide_eq_true_eq,
    Bool.and_eq_true, beq_iff_eq] at before
  omega

theorem offset_le_of_not_le
    {left right : Position}
    (behind : ¬ left.le right) :
    right.offset ≤ left.offset := by
  simp only [Position.le, Bool.or_eq_true, decide_eq_true_eq,
    Bool.and_eq_true, beq_iff_eq, not_or] at behind
  omega

theorem earlier_cases
    (left right : Position) :
    left.earlier right = left ∧ left.offset ≤ right.offset ∨
      left.earlier right = right ∧ right.offset ≤ left.offset := by
  unfold Position.earlier
  by_cases before : left.le right
  · exact .inl ⟨if_pos before, offset_le_of_le before⟩
  · exact .inr ⟨if_neg before, offset_le_of_not_le before⟩

theorem later_cases
    (left right : Position) :
    left.later right = right ∧ left.offset ≤ right.offset ∨
      left.later right = left ∧ right.offset ≤ left.offset := by
  unfold Position.later
  by_cases before : left.le right
  · exact .inl ⟨if_pos before, offset_le_of_le before⟩
  · exact .inr ⟨if_neg before, offset_le_of_not_le before⟩

end Position

namespace Span

variable
    {origin : Cursor}
    {low high : Nat}
    {first second : Span}

/-- What covers two spans holds both by offset. -/
theorem cover_offsets
    (first second : Span) :
    (first.cover second).start.offset ≤ first.start.offset ∧
      (first.cover second).start.offset ≤ second.start.offset ∧
      first.stop.offset ≤ (first.cover second).stop.offset ∧
      second.stop.offset ≤ (first.cover second).stop.offset := by
  unfold Span.cover
  rcases Position.earlier_cases first.start second.start with
      ⟨start, startLe⟩ | ⟨start, startLe⟩ <;>
    rcases Position.later_cases first.stop second.stop with
      ⟨stop, stopLe⟩ | ⟨stop, stopLe⟩ <;>
    simp only [start, stop] <;>
    omega

theorem LiesWithin.cover
    (liesFirst : first.LiesWithin origin low high)
    (liesSecond : second.LiesWithin origin low high) :
    (first.cover second).LiesWithin origin low high := by
  have firstOrdered := liesFirst.ordered
  obtain ⟨startLe, -, leStop, -⟩ := cover_offsets first second
  refine ⟨?_, by omega, ?_, ?_, ?_⟩
  · rcases Position.earlier_cases first.start second.start with ⟨start, -⟩ | ⟨start, -⟩
    · simpa [Span.cover, start] using liesFirst.low_le
    · simpa [Span.cover, start] using liesSecond.low_le
  · rcases Position.later_cases first.stop second.stop with ⟨stop, -⟩ | ⟨stop, -⟩
    · simpa [Span.cover, stop] using liesSecond.le_high
    · simpa [Span.cover, stop] using liesFirst.le_high
  · rcases Position.earlier_cases first.start second.start with ⟨start, -⟩ | ⟨start, -⟩
    · simpa [Span.cover, start] using liesFirst.start_seen
    · simpa [Span.cover, start] using liesSecond.start_seen
  · rcases Position.later_cases first.stop second.stop with ⟨stop, -⟩ | ⟨stop, -⟩
    · simpa [Span.cover, stop] using liesSecond.stop_seen
    · simpa [Span.cover, stop] using liesFirst.stop_seen

end Span

namespace Draft

variable
    {origin : Cursor}
    {admits : Story → Prop}
    {draft before middle after : Draft}
    {low high : Nat}
    {roots nodes : List NodeId}

/-- A forest in which no node stands twice. -/
structure Holds
    (origin : Cursor)
    (admits : Story → Prop)
    (draft : Draft)
    (low high : Nat)
    (roots nodes : List NodeId) : Prop where
  forest : Forest origin admits draft low high roots nodes
  nodup : nodes.Nodup

/-- A draft grew out of some nodes of it, and now holds some trees of these and new nodes. -/
structure Gains
    (origin : Cursor)
    (admits : Story → Prop)
    (low high : Nat)
    (nodes : List NodeId)
    (before after : Draft)
    (roots : List NodeId) : Prop where
  spares : Spares nodes before after
  holds :
    ∃ found,
      Holds origin admits after low high roots found ∧
        ∀ id ∈ found, id ∈ nodes ∨ before.size ≤ id.index

namespace Holds

theorem nil : Holds origin admits draft low high [] [] :=
  ⟨.nil, List.nodup_nil⟩

theorem subperm
    {some : List NodeId}
    (holds : Holds origin admits draft low high roots nodes)
    (among : some.Subperm roots) :
    ∃ found,
      Holds origin admits draft low high some found ∧
        found.Subperm nodes := by
  obtain ⟨found, forest, fewer⟩ := holds.forest.subperm among
  obtain ⟨ordered, reordered, sublist⟩ := fewer
  have nodup := reordered.nodup (sublist.nodup holds.nodup)
  exact ⟨found, ⟨forest, nodup⟩, ordered, reordered, sublist⟩

theorem exists_append
    {first second : List NodeId}
    (holds : Holds origin admits draft low high (first ++ second) nodes) :
    ∃ firstNodes secondNodes,
      nodes = firstNodes ++ secondNodes ∧
        Holds origin admits draft low high first firstNodes ∧
        Holds origin admits draft low high second secondNodes ∧
        firstNodes.Disjoint secondNodes := by
  obtain ⟨forest, nodup⟩ := holds
  obtain ⟨firstNodes, secondNodes, rfl, firstForest, secondForest⟩ :=
    forest.exists_append
  obtain ⟨firstNodup, secondNodup, apart⟩ := List.nodup_append'.mp nodup
  exact
    ⟨firstNodes, secondNodes, rfl, ⟨firstForest, firstNodup⟩,
      ⟨secondForest, secondNodup⟩, apart⟩

/-- Without the first root, the trees below it stand on their own. -/
theorem exists_children
    {id : NodeId}
    {rest : List NodeId}
    (holds : Holds origin admits draft low high (id :: rest) nodes) :
    ∃ slot below others,
      nodes = id :: (below ++ others) ∧
        draft.slot? id = some slot ∧
        Holds origin admits draft low high (slot.kind.children ++ rest)
          (below ++ others) := by
  obtain ⟨forest, nodup⟩ := holds
  cases forest with
  | @cons _ _ _ slot below _ others made includes lies children siblings =>
      refine
        ⟨slot, below, others, rfl, made, .append (children.mono ?_ ?_) siblings,
          (List.nodup_cons.mp nodup).2⟩
      · unfold Slot.low
        cases own : slot.span with
        | none =>
            exact Nat.le_refl _
        | some span =>
            exact (lies span own).low_le
      · unfold Slot.high
        cases own : slot.span with
        | none =>
            exact Nat.le_refl _
        | some span =>
            exact (lies span own).le_high

theorem mono
    {lower higher : Nat}
    (holds : Holds origin admits draft low high roots nodes)
    (lower_le : lower ≤ low)
    (le_higher : high ≤ higher) :
    Holds origin admits draft lower higher roots nodes :=
  ⟨holds.forest.mono lower_le le_higher, holds.nodup⟩

/-- What a draft holds it gains by doing nothing. -/
theorem gains
    (holds : Holds origin admits draft low high roots nodes) :
    Gains origin admits low high nodes draft draft roots :=
  ⟨.refl _ _, nodes, holds, fun _ member => .inl member⟩

end Holds

namespace Gains

theorem mono
    {lower higher : Nat}
    {more : List NodeId}
    (gains : Gains origin admits low high nodes before after roots)
    (lower_le : lower ≤ low)
    (le_higher : high ≤ higher)
    (subset : nodes ⊆ more) :
    Gains origin admits lower higher more before after roots := by
  obtain ⟨spares, found, holds, known⟩ := gains
  refine
    ⟨spares.mono fun id member _ => subset member, found,
      holds.mono lower_le le_higher, fun id member => ?_⟩
  exact (known id member).imp_left fun old => subset old

theorem subperm
    {some : List NodeId}
    (gains : Gains origin admits low high nodes before after roots)
    (among : some.Subperm roots) :
    Gains origin admits low high nodes before after some := by
  obtain ⟨spares, found, holds, known⟩ := gains
  obtain ⟨fewer, holdsFewer, subperm⟩ := holds.subperm among
  exact
    ⟨spares, fewer, holdsFewer, fun id member =>
      known id (subperm.subset member)⟩

/-- A growth goes on from trees of nodes that another one was given or made. -/
theorem trans
    {found : List NodeId}
    (spares : Spares nodes before middle)
    (known : ∀ id ∈ found, id ∈ nodes ∨ before.size ≤ id.index)
    (gains : Gains origin admits low high found middle after roots) :
    Gains origin admits low high nodes before after roots := by
  obtain ⟨sparesThen, foundThen, holdsThen, knownThen⟩ := gains
  refine
    ⟨spares.follow known sparesThen, foundThen, holdsThen,
      fun id member => ?_⟩
  rcases knownThen id member with kept | made
  · exact known id kept
  · exact .inr (Nat.le_trans spares.size_le made)

/-- Trees that a growth was not given stand beside what it gives. -/
theorem beside
    {kept keptNodes : List NodeId}
    {lower : Nat}
    (gains : Gains origin admits low high nodes before after roots)
    (holds : Holds origin admits before low lower kept keptNodes)
    (lower_le : lower ≤ high)
    (apart : nodes.Disjoint keptNodes) :
    Gains origin admits low high (nodes ++ keptNodes) before after
      (roots ++ kept) := by
  obtain ⟨spares, found, holdsFound, known⟩ := gains
  have stands : Forest origin admits after low high kept keptNodes :=
    (holds.forest.mono (Nat.le_refl _) lower_le).spared spares
      fun id member touched => apart touched member
  have foundApart : found.Disjoint keptNodes := by
    intro id isFound isKept
    rcases known id isFound with old | made
    · exact apart old isKept
    · have old := holds.forest.lt_size isKept
      omega
  refine
    ⟨spares.mono fun id member _ => List.mem_append_left _ member,
      found ++ keptNodes,
      ⟨holdsFound.forest.append stands, ?_⟩, fun id member => ?_⟩
  · exact List.nodup_append'.mpr ⟨holdsFound.nodup, holds.nodup, foundApart⟩
  · rcases List.mem_append.mp member with isFound | isKept
    · exact (known id isFound).imp_left fun old => List.mem_append_left _ old
    · exact .inl (List.mem_append_right _ isKept)

end Gains

section Making

variable
    {kind : StoryKind}
    {span : Option Span}

theorem slot?_add
    (draft : Draft)
    (kind : StoryKind)
    (span : Option Span) :
    (draft.add kind span).2.slot? ⟨draft.size⟩ = some ⟨kind, span⟩ := by
  simp [add, slot?, size]

theorem spares_add
    (draft : Draft)
    (kind : StoryKind)
    (span : Option Span) :
    Spares [] draft (draft.add kind span).2 where
  size_le := by simp [add, size]
  slot? id made _ := by
    simp only [size] at made
    simp [add, Draft.slot?, Array.getElem?_push, Nat.ne_of_lt made]

/-- A new node on top of all that a draft holds. -/
theorem Holds.gains_add
    (children :
      Holds origin admits draft (Slot.low ⟨kind, span⟩ low)
        (Slot.high ⟨kind, span⟩ high) kind.children nodes)
    (includes :
      ∀ story, kind = .includedFile (some story) → admits story)
    (lies : ∀ found ∈ span, found.LiesWithin origin low high) :
    Gains origin admits low high nodes draft (draft.add kind span).2
      [(draft.add kind span).1] := by
  have spares := spares_add draft kind span
  refine
    ⟨spares.mono (by simp), ⟨draft.size⟩ :: nodes, ⟨?_, ?_⟩, ?_⟩
  · have standing := children.forest.spared spares (by simp)
    have planted :=
      Forest.cons (slot?_add draft kind span) includes lies standing .nil
    simpa [add] using planted
  · refine List.nodup_cons.mpr ⟨fun member => ?_, children.nodup⟩
    exact Nat.lt_irrefl _ (children.forest.lt_size member)
  · intro id member
    rcases List.mem_cons.mp member with rfl | below
    · exact .inr (Nat.le_refl _)
    · exact .inl below

end Making

section Amending

variable
    {change : StoryKind → StoryKind}
    {id : NodeId}

theorem slot?_modify
    (draft : Draft)
    (id : NodeId)
    (change : StoryKind → StoryKind) :
    (draft.modify id change).slot? id =
      (draft.slot? id).map fun slot => { slot with kind := change slot.kind } := by
  simp [modify, slot?, Array.getElem?_modify]

theorem spares_modify
    (draft : Draft)
    (id : NodeId)
    (change : StoryKind → StoryKind) :
    Spares [id] draft (draft.modify id change) where
  size_le := by simp [modify, size]
  slot? other _ untouched := by
    have apart : id.index ≠ other.index := by
      intro same
      cases id
      cases other
      simp_all
    simp [modify, Draft.slot?, Array.getElem?_modify, apart]

/-- Trees stand if a node is changed, but not in its children and inclusions. -/
theorem Forest.modify
    (forest : Forest origin admits draft low high roots nodes)
    (id : NodeId)
    (sameChildren : ∀ kind, (change kind).children = kind.children)
    (includes :
      ∀ kind story,
        change kind = .includedFile (some story) →
        kind = .includedFile (some story)) :
    Forest origin admits (draft.modify id change) low high roots nodes := by
  induction forest with
  | nil =>
      exact .nil
  | @cons low high root slot _ _ _ made admitted lies children siblings
      childrenHypothesis siblingsHypothesis =>
      by_cases isRoot : id = root
      · subst isRoot
        have changed := slot?_modify draft id change
        rw [made, Option.map_some] at changed
        refine .cons changed ?_ lies ?_ siblingsHypothesis
        · intro story included
          exact admitted story (includes _ _ included)
        · simpa only [sameChildren, Slot.low, Slot.high] using
            childrenHypothesis
      · have same :=
          (spares_modify draft id change).slot? root (lt_size_of_slot? made)
            (by simpa using fun same => isRoot same.symm)
        exact
          .cons (same.trans made) admitted lies childrenHypothesis
            siblingsHypothesis

/-- Amending a node gains nothing and loses nothing. -/
theorem Holds.gains_modify
    (holds : Holds origin admits draft low high roots nodes)
    (root : id ∈ roots)
    (sameChildren : ∀ kind, (change kind).children = kind.children)
    (includes :
      ∀ kind story,
        change kind = .includedFile (some story) →
        kind = .includedFile (some story)) :
    Gains origin admits low high nodes draft (draft.modify id change)
      roots := by
  refine
    ⟨(spares_modify draft id change).mono ?_, nodes,
      ⟨holds.forest.modify id sameChildren includes, holds.nodup⟩,
      fun _ member => .inl member⟩
  intro other isId _
  rw [List.mem_singleton.mp isId]
  exact holds.forest.mem_of_root root

/-- A root may get other trees below it, if these stand where it lies. -/
theorem Holds.gains_regrown
    (holds : Holds origin admits draft low high [id] nodes)
    (spares : Spares [id] draft after)
    (regrown :
      ∀ slot below,
        draft.slot? id = some slot →
        Holds origin admits after (slot.low low) (slot.high high)
          slot.kind.children below →
        (∀ other ∈ below, other.index < draft.size) →
        (∀ story, slot.kind = .includedFile (some story) → admits story) →
        ∃ kind found,
          after.slot? id = some { slot with kind := kind } ∧
            (∀ story, kind = .includedFile (some story) → admits story) ∧
            Holds origin admits after (slot.low low) (slot.high high)
              kind.children found ∧
            ∀ other ∈ found, other ∈ below ∨ draft.size ≤ other.index) :
    Gains origin admits low high nodes draft after [id] := by
  obtain ⟨forest, nodup⟩ := holds
  cases forest with
  | @cons _ _ _ slot below _ others made admitted lies children siblings =>
      cases siblings
      rw [List.append_nil] at nodup ⊢
      obtain ⟨notBelow, nodupBelow⟩ := List.nodup_cons.mp nodup
      have standing :
          Forest origin admits after (slot.low low) (slot.high high)
            slot.kind.children below := by
        refine children.spared spares fun other member isId => ?_
        rw [List.mem_singleton.mp isId] at member
        exact notBelow member
      obtain ⟨kind, found, remade, admittedStill, holdsFound, known⟩ :=
        regrown slot below made ⟨standing, nodupBelow⟩
          (fun other member => children.lt_size member) admitted
      refine
        ⟨spares.mono ?_, id :: (found ++ []),
          ⟨.cons remade admittedStill lies holdsFound.forest .nil, ?_⟩, ?_⟩
      · intro other isId _
        rw [List.mem_singleton.mp isId]
        exact List.mem_cons_self
      · rw [List.append_nil]
        refine List.nodup_cons.mpr ⟨fun member => ?_, holdsFound.nodup⟩
        rcases known id member with isBelow | isNew
        · exact notBelow isBelow
        · exact Nat.not_lt_of_le isNew (lt_size_of_slot? made)
      · intro other member
        rw [List.append_nil] at member
        rcases List.mem_cons.mp member with rfl | isFound
        · exact .inl List.mem_cons_self
        · exact (known other isFound).imp_left (List.mem_cons_of_mem _)

/-- A new leaf without a span may be put below a node, wherever that lies. -/
theorem Holds.gains_append
    {leaf : StoryKind}
    (holds : Holds origin admits draft low high [id] nodes)
    (noChildren : leaf.children = [])
    (plain : ∀ story, leaf ≠ .includedFile (some story))
    (appends :
      ∀ kind,
        (change kind).children = kind.children ∨
          (change kind).children = kind.children ++ [⟨draft.size⟩])
    (includes :
      ∀ kind story,
        change kind = .includedFile (some story) →
        kind = .includedFile (some story)) :
    Gains origin admits low high nodes draft
      ((draft.add leaf).2.modify id change) [id] := by
  have isOld : id.index < draft.size :=
    holds.forest.lt_size (holds.forest.mem_of_root List.mem_cons_self)
  have sparesAdd := spares_add draft leaf none
  have sparesModify := spares_modify (draft.add leaf).2 id change
  have leafStays :
      ((draft.add leaf).2.modify id change).slot? ⟨draft.size⟩ =
        some ⟨leaf, none⟩ := by
    rw [sparesModify.slot? ⟨draft.size⟩ (by simp [add, size]) ?_]
    · exact slot?_add draft leaf none
    · intro isId
      rw [← List.mem_singleton.mp isId] at isOld
      exact Nat.lt_irrefl _ isOld
  apply holds.gains_regrown
  · exact (sparesAdd.mono (by simp)).trans sparesModify fun _ member _ => member
  · intro slot below made holdsBelow old admitted
    have changed := slot?_modify (draft.add leaf).2 id change
    rw [sparesAdd.slot? id isOld (by simp), made, Option.map_some] at changed
    have admittedStill :
        ∀ story, change slot.kind = .includedFile (some story) → admits story :=
      fun story included => admitted story (includes _ _ included)
    rcases appends slot.kind with same | longer
    · refine ⟨_, below, changed, admittedStill, ?_, fun _ => .inl⟩
      rwa [same]
    · have noneBelow :
          Forest origin admits ((draft.add leaf).2.modify id change)
            (slot.low low) (slot.high high) leaf.children [] := by
        rw [noChildren]
        exact .nil
      have leafStands :=
        Forest.cons leafStays
          (fun story isStory => absurd isStory (plain story)) (by simp)
          noneBelow .nil
      have leafApart : below.Disjoint [⟨draft.size⟩] := by
        intro other member isLeaf
        rw [List.mem_singleton.mp isLeaf] at member
        exact Nat.lt_irrefl _ (old _ member)
      refine ⟨_, below ++ [⟨draft.size⟩], changed, admittedStill, ⟨?_, ?_⟩, ?_⟩
      · rw [longer]
        exact holdsBelow.forest.append leafStands
      · exact holdsBelow.nodup.append (List.nodup_singleton _) leafApart
      · intro other member
        rcases List.mem_append.mp member with isBelow | isLeaf
        · exact .inl isBelow
        · rw [List.mem_singleton.mp isLeaf]
          exact .inr (Nat.le_refl _)

end Amending

section Spanning

variable
    {span : Span}
    {id : NodeId}

theorem slot?_setSpan
    (draft : Draft)
    (span : Span)
    (id : NodeId) :
    (draft.setSpan span id).slot? id =
      (draft.slot? id).map fun slot =>
        { slot with span := slot.span.orElse fun _ => span } := by
  simp [setSpan, slot?, Array.getElem?_modify]

theorem spares_setSpan
    (draft : Draft)
    (span : Span)
    (id : NodeId) :
    Spares [id] draft (draft.setSpan span id) where
  size_le := by simp [setSpan, size]
  slot? other _ untouched := by
    have apart : id.index ≠ other.index := by
      intro same
      cases id
      cases other
      simp_all
    simp [setSpan, Draft.slot?, Array.getElem?_modify, apart]

theorem spares_setSpans
    (draft : Draft)
    (span : Span)
    (ids : List NodeId) :
    Spares ids draft (draft.setSpans span ids) := by
  induction ids generalizing draft with
  | nil =>
      exact .refl _ _
  | cons id rest inductionHypothesis =>
      have first :
          Spares (id :: rest) draft (draft.setSpan span id) :=
        (spares_setSpan draft span id).mono (by simp)
      exact
        first.follow (fun _ member => .inl (List.mem_cons_of_mem _ member))
          (inductionHypothesis _)

/-- A root that gets the span of the whole stretch keeps the trees below it inside. -/
theorem Forest.setSpan
    (forest :
      Forest origin admits draft span.start.offset span.stop.offset roots nodes)
    (nodup : nodes.Nodup)
    (root : id ∈ roots)
    (lies :
      span.LiesWithin origin span.start.offset span.stop.offset) :
    Forest origin admits (draft.setSpan span id) span.start.offset
      span.stop.offset roots nodes := by
  have spares := spares_setSpan draft span id
  induction roots generalizing nodes with
  | nil =>
      cases root
  | cons first rest inductionHypothesis =>
      cases forest with
      | @cons _ _ _ slot below _ others made includes inside children
          siblings =>
          obtain ⟨notInside, nodup⟩ := List.nodup_cons.mp nodup
          obtain ⟨-, nodupOthers, apart⟩ := List.nodup_append'.mp nodup
          by_cases isFirst : id = first
          · subst isFirst
            have spanned := slot?_setSpan draft span id
            rw [made, Option.map_some] at spanned
            have untouched : ∀ other ∈ below ++ others, other ∉ [id] := by
              intro other member isId
              rw [List.mem_singleton.mp isId] at member
              exact notInside member
            have standing :=
              children.spared spares fun other member =>
                untouched other (List.mem_append_left _ member)
            refine
              .cons spanned includes ?_ ?_
                (siblings.spared spares fun other member =>
                  untouched other (List.mem_append_right _ member))
            · cases own : slot.span with
              | none =>
                  simpa using lies
              | some first =>
                  rw [own] at inside
                  simpa using inside
            · cases own : slot.span with
              | none =>
                  simpa [Slot.low, Slot.high, own] using standing
              | some first =>
                  simpa [Slot.low, Slot.high, own] using standing
          · have later : id ∈ rest := by
              simpa [isFirst] using root
            have isOther := siblings.mem_of_root later
            have same :=
              spares.slot? first (lt_size_of_slot? made)
                (by simpa using fun same => isFirst same.symm)
            refine
              .cons (same.trans made) includes inside
                (children.spared spares ?_)
                (inductionHypothesis siblings nodupOthers later)
            intro other member isId
            rw [List.mem_singleton.mp isId] at member
            exact apart member isOther

/-- Closing a scope gives its span to some of the roots that were made in it. -/
theorem Holds.gains_setSpans
    (span : Span)
    {ids : List NodeId}
    (holds :
      Holds origin admits draft span.start.offset span.stop.offset roots
        nodes)
    (among : ids ⊆ roots)
    (lies :
      span.LiesWithin origin span.start.offset span.stop.offset) :
    Gains origin admits span.start.offset span.stop.offset nodes draft
      (draft.setSpans span ids) roots := by
  induction ids generalizing draft with
  | nil =>
      exact holds.gains
  | cons id rest inductionHypothesis =>
      obtain ⟨isRoot, othersAmong⟩ := List.cons_subset.mp among
      have stands := holds.forest.setSpan holds.nodup isRoot lies
      have gains :
          Gains origin admits span.start.offset span.stop.offset nodes draft
            (draft.setSpan span id) roots := by
        refine
          ⟨(spares_setSpan draft span id).mono ?_, nodes,
            ⟨stands, holds.nodup⟩, fun _ member => .inl member⟩
        intro other isId _
        rw [List.mem_singleton.mp isId]
        exact holds.forest.mem_of_root isRoot
      exact
        Gains.trans gains.spares (fun _ member => .inl member)
          (inductionHypothesis ⟨stands, holds.nodup⟩ othersAmong)

/-- All of some nodes have a span. -/
def Spanned (draft : Draft) (ids : List NodeId) : Prop :=
  ∀ id ∈ ids, ∃ span, draft.span? id = some span

theorem Spanned.spared
    {ids touched : List NodeId}
    (spanned : Spanned before ids)
    (spares : Spares touched before after)
    (untouched : ∀ id ∈ ids, id ∉ touched) :
    Spanned after ids := by
  intro id member
  obtain ⟨span, isSpan⟩ := spanned id member
  obtain ⟨slot, made, -⟩ := Option.bind_eq_some_iff.mp isSpan
  refine ⟨span, ?_⟩
  rw [span?, spares.slot? id (lt_size_of_slot? made) (untouched id member)]
  exact isSpan

/-- Who has a span keeps it when a scope closes. -/
theorem setSpan_of_spanned
    (spanned : ∃ own, draft.span? id = some own) :
    draft.setSpan span id = draft := by
  obtain ⟨own, isOwn⟩ := spanned
  obtain ⟨⟨kind, ownSpan⟩, made, hasSpan⟩ := Option.bind_eq_some_iff.mp isOwn
  obtain ⟨bound, isSlot⟩ := Array.getElem?_eq_some_iff.mp made
  simp only at hasSpan
  subst hasSpan
  obtain ⟨slots⟩ := draft
  simp only [setSpan, mk.injEq]
  apply Array.ext_getElem?
  intro index
  rw [Array.getElem?_modify]
  by_cases same : id.index = index
  · subst same
    simp only [slot?] at made
    simp [made]
  · simp [same]

theorem setSpans_of_spanned
    {ids : List NodeId}
    (spanned : draft.Spanned ids) :
    draft.setSpans span ids = draft := by
  induction ids with
  | nil =>
      rfl
  | cons id rest inductionHypothesis =>
      have same : draft.setSpan span id = draft :=
        setSpan_of_spanned (spanned id List.mem_cons_self)
      simp only [setSpans, List.foldl_cons, same]
      exact
        inductionHypothesis fun other member =>
          spanned other (List.mem_cons_of_mem _ member)

theorem size_setSpans
    (draft : Draft)
    (span : Span)
    (ids : List NodeId) :
    (draft.setSpans span ids).size = draft.size := by
  rw [← length_kinds, kinds_setSpans, length_kinds]

/-- Giving spans takes none away. -/
theorem exists_span?_setSpans
    {ids : List NodeId}
    (span : Span)
    (spanned : ∃ own, draft.span? id = some own) :
    ∃ own, (draft.setSpans span ids).span? id = some own := by
  induction ids generalizing draft with
  | nil =>
      exact spanned
  | cons other rest inductionHypothesis =>
      simp only [setSpans, List.foldl_cons] at inductionHypothesis ⊢
      apply inductionHypothesis
      by_cases same : other = id
      · subst same
        rw [setSpan_of_spanned spanned]
        exact spanned
      · obtain ⟨own, isOwn⟩ := spanned
        obtain ⟨slot, made, -⟩ := Option.bind_eq_some_iff.mp isOwn
        refine ⟨own, ?_⟩
        rw [span?,
          (spares_setSpan draft span other).slot? id (lt_size_of_slot? made)
            (by simpa using fun equal => same equal.symm)]
        exact isOwn

/-- A scope that closes gives a span to each node that it names. -/
theorem spanned_setSpans
    {ids : List NodeId}
    (span : Span)
    (made : ∀ id ∈ ids, id.index < draft.size) :
    (draft.setSpans span ids).Spanned ids := by
  induction ids generalizing draft with
  | nil =>
      intro id member
      cases member
  | cons first rest inductionHypothesis =>
      have sameSize : (draft.setSpan span first).size = draft.size :=
        draft.size_setSpans span [first]
      intro id member
      rcases List.mem_cons.mp member with rfl | later
      · have spanned : ∃ own, (draft.setSpan span id).span? id = some own := by
          have bound := made id List.mem_cons_self
          simp only [size] at bound
          have isSlot : draft.slot? id = some draft.slots[id.index] :=
            Array.getElem?_eq_getElem bound
          rw [span?, slot?_setSpan, isSlot]
          cases draft.slots[id.index].span <;> simp
        have unfolded :
            draft.setSpans span (id :: rest) =
              (draft.setSpan span id).setSpans span rest :=
          rfl
        rw [unfolded]
        exact exists_span?_setSpans span spanned
      · apply inductionHypothesis _ id later
        intro other isLater
        rw [sameSize]
        exact made other (List.mem_cons_of_mem _ isLater)

end Spanning

section Covering

variable {span : Span}

/-- The spans of roots lie where the forest stands. -/
theorem Forest.liesWithin
    {id : NodeId}
    (forest : Forest origin admits draft low high roots nodes)
    (root : id ∈ roots)
    (spanned : draft.span? id = some span) :
    span.LiesWithin origin low high := by
  induction forest with
  | nil =>
      cases root
  | cons made includes lies children siblings _ siblingsHypothesis =>
      rcases List.mem_cons.mp root with rfl | later
      · rw [span?, made] at spanned
        exact lies span spanned
      · exact siblingsHypothesis later

/-- A forest whose roots have spans stands wherever these spans lie. -/
theorem Forest.narrow
    {lower higher : Nat}
    (forest : Forest origin admits draft low high roots nodes)
    (spanned :
      ∀ id ∈ roots,
        ∃ span,
          draft.span? id = some span ∧
            lower ≤ span.start.offset ∧ span.stop.offset ≤ higher) :
    Forest origin admits draft lower higher roots nodes := by
  induction roots generalizing nodes with
  | nil =>
      cases forest
      exact .nil
  | cons first rest inductionHypothesis =>
      cases forest with
      | @cons _ _ _ slot _ _ _ made includes lies children siblings =>
          obtain ⟨span, hasSpan, lower_le, le_higher⟩ :=
            spanned first List.mem_cons_self
          have own : slot.span = some span := by
            simpa [span?, made] using hasSpan
          refine
            .cons made includes ?_ ?_
              (inductionHypothesis siblings fun id member =>
                spanned id (List.mem_cons_of_mem _ member))
          · intro found isSpan
            have inside := lies found isSpan
            cases own.symm.trans isSpan
            exact { inside with low_le := lower_le, le_high := le_higher }
          · simpa [Slot.low, Slot.high, own] using children

/-- A span found by covering holds each span that went into it. -/
theorem foldl_cover_eq_some
    {ids : List NodeId}
    {covered : Option Span}
    (covers :
      ids.foldl
          (fun covered id => do return (← covered).cover (← draft.span? id))
          covered =
        some span)
    (liesFirst : ∀ found ∈ covered, found.LiesWithin origin low high)
    (lies :
      ∀ id ∈ ids, ∀ found ∈ draft.span? id,
        found.LiesWithin origin low high) :
    span.LiesWithin origin low high ∧
      (∃ found,
        covered = some found ∧
          span.start.offset ≤ found.start.offset ∧
          found.stop.offset ≤ span.stop.offset) ∧
      ∀ id ∈ ids,
        ∃ found,
          draft.span? id = some found ∧
            span.start.offset ≤ found.start.offset ∧
            found.stop.offset ≤ span.stop.offset := by
  induction ids generalizing covered with
  | nil =>
      simp only [List.foldl_nil] at covers
      subst covers
      exact ⟨liesFirst span rfl, ⟨span, rfl, Nat.le_refl _, Nat.le_refl _⟩, by simp⟩
  | cons id rest inductionHypothesis =>
      rw [List.foldl_cons] at covers
      have liesRest :
          ∀ id ∈ rest, ∀ found ∈ draft.span? id,
            found.LiesWithin origin low high :=
        fun other member => lies other (List.mem_cons_of_mem _ member)
      cases shape : covered with
      | none =>
          rw [shape] at covers
          obtain ⟨-, ⟨_, impossible, -⟩, -⟩ :=
            inductionHypothesis covers (by simp) liesRest
          cases impossible
      | some first =>
          cases next : draft.span? id with
          | none =>
              rw [shape, next] at covers
              obtain ⟨-, ⟨_, impossible, -⟩, -⟩ :=
                inductionHypothesis covers (by simp) liesRest
              cases impossible
          | some second =>
              rw [shape, next] at covers
              have liesBoth :
                  (first.cover second).LiesWithin origin low high :=
                (liesFirst first shape).cover
                  (lies id List.mem_cons_self second next)
              obtain ⟨inside, ⟨found, isBoth, startLe, leStop⟩, others⟩ :=
                inductionHypothesis covers (by simpa using liesBoth) liesRest
              cases isBoth
              obtain ⟨startFirst, startSecond, stopFirst, stopSecond⟩ :=
                first.cover_offsets second
              refine
                ⟨inside, ⟨first, rfl, by omega, by omega⟩, fun other member => ?_⟩
              rcases List.mem_cons.mp member with rfl | later
              · exact ⟨second, next, by omega, by omega⟩
              · exact others other later

/-- Trees stand inside the span that covers their roots, if there is one. -/
theorem Forest.cover
    (forest : Forest origin admits draft low high roots nodes)
    (covers : draft.cover? roots = some span) :
    span.LiesWithin origin low high ∧
      Forest origin admits draft span.start.offset span.stop.offset roots
        nodes := by
  cases roots with
  | nil =>
      cases covers
  | cons first rest =>
      obtain ⟨inside, ⟨own, isOwn, startLe, leStop⟩, others⟩ :=
        foldl_cover_eq_some covers
          (fun found isSpan => forest.liesWithin List.mem_cons_self isSpan)
          (fun id member found isSpan =>
            forest.liesWithin (List.mem_cons_of_mem _ member) isSpan)
      refine ⟨inside, forest.narrow fun id member => ?_⟩
      rcases List.mem_cons.mp member with rfl | later
      · exact ⟨own, isOwn, startLe, leStop⟩
      · exact others id later

/-- A new node that spans its children. -/
theorem Holds.gains_addSpanning
    {kind : StoryKind}
    (children : Holds origin admits draft low high kind.children nodes)
    (includes :
      ∀ story, kind = .includedFile (some story) → admits story) :
    Gains origin admits low high nodes draft (draft.addSpanning kind).2
      [(draft.addSpanning kind).1] := by
  unfold addSpanning
  cases covers : draft.cover? kind.children with
  | none =>
      exact Holds.gains_add (by simpa [Slot.low, Slot.high] using children)
        includes (by simp)
  | some span =>
      obtain ⟨inside, narrowed⟩ := children.forest.cover covers
      refine Holds.gains_add ?_ includes ?_
      · exact ⟨narrowed, children.nodup⟩
      · rintro found ⟨⟩
        exact inside

end Covering

end Draft

end InkSyntax
