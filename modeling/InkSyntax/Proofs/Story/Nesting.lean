import InkSyntax.Proofs.Story.Weaving
import Mathlib.Data.List.TakeWhile

namespace InkSyntax

/-!
# How weaves nest

Grouping runs over its content once: what is not deeper than the base stays, and
what is deeper opens a weave that runs up to the next point outside.  Such a run
ends, and the weaves that it opens lie deeper and deeper.  Making the weaves of a
run keeps all of this in the draft, and splicing them again gives the content
back.
-/

namespace NodeKind

variable
    {σ : Type}
    {kind : NodeKind σ}
    {content : List NodeId}
    {base : Nat}

@[simp] theorem withRejoins_withRejoins
    (first second : List NodeId → List NodeId) :
    (kind.withRejoins first).withRejoins second =
      kind.withRejoins (second ∘ first) := by
  cases kind <;> rfl

@[simp] theorem withRejoins_self :
    kind.withRejoins (fun rejoins => rejoins) = kind := by
  cases kind <;> rfl

@[simp] theorem weavePointDepth?_withRejoins
    (change : List NodeId → List NodeId) :
    (kind.withRejoins change).weavePointDepth? = kind.weavePointDepth? := by
  cases kind <;> rfl

@[simp] theorem withRejoins_eq_weave
    (change : List NodeId → List NodeId) :
    kind.withRejoins change = .weave content base ↔
      kind = .weave content base := by
  cases kind <;> simp [withRejoins]

end NodeKind

namespace WeaveTree

/-- A finished run over some content at a base. -/
inductive Groups
    (depth? : NodeId → Option Nat) :
    Nat → List NodeId → List WeaveTree → Prop
  | done {base} : Groups depth? base [] []
  | keep {base first rest items}
      (shallow : isDeeper depth? base first = false)
      (others : Groups depth? base rest items) :
      Groups depth? base (first :: rest) (leaf first :: items)
  | nest {base depth first rest inside items}
      (point : depth? first = some depth)
      (deeper : base < depth - 1)
      (within :
        Groups depth? (depth - 1)
          (first :: rest.takeWhile (staysInside depth? base)) inside)
      (others :
        Groups depth? base (rest.dropWhile (staysInside depth? base)) items) :
      Groups depth? base (first :: rest) (nested (depth - 1) inside :: items)

/-- Items whose points lie at a base, and whose weaves lie deeper and start with a point. -/
inductive Nests
    (depth? : NodeId → Option Nat) :
    Nat → List WeaveTree → Prop
  | nil {base} : Nests depth? base []
  | leaf {base id items}
      (shallow : ∀ depth, depth? id = some depth → depth - 1 ≤ base)
      (others : Nests depth? base items) :
      Nests depth? base (.leaf id :: items)
  | nested {base inner first inside items}
      (deeper : base < inner)
      (opens : depth? first = some (inner + 1))
      (points :
        ∀ point ∈ leavesOf (.leaf first :: inside), ∀ depth,
          depth? point = some depth → base < depth - 1)
      (within : Nests depth? inner (.leaf first :: inside))
      (others : Nests depth? base items) :
      Nests depth? base (.nested inner (.leaf first :: inside) :: items)

variable
    {depth? : NodeId → Option Nat}
    {base : Nat}
    {content : List NodeId}
    {items : List WeaveTree}

theorem isDeeper_eq_true_iff
    {id : NodeId} :
    isDeeper depth? base id = true ↔
      ∃ depth, depth? id = some depth ∧ base < depth - 1 := by
  unfold isDeeper
  cases depth? id <;> simp

theorem isDeeper_eq_false_iff
    {id : NodeId} :
    isDeeper depth? base id = false ↔
      ∀ depth, depth? id = some depth → depth - 1 ≤ base := by
  unfold isDeeper
  cases depth? id <;> simp

theorem lt_of_staysInside
    {id : NodeId}
    {depth : Nat}
    (stays : staysInside depth? base id = true)
    (point : depth? id = some depth) :
    base < depth - 1 := by
  simpa [staysInside, point] using stays

/-- Twice the length is enough steps, and one more where the first node opens a weave. -/
theorem groups_groupWithin_of_enough
    {steps : Nat}
    (enough :
      2 * content.length < steps ∨
        2 * content.length ≤ steps ∧
          ∀ first ∈ content.head?, isDeeper depth? base first = false) :
    Groups depth? base content (groupWithin depth? steps base content) := by
  induction steps generalizing base content with
  | zero =>
      have nothing : content = [] := by
        apply List.eq_nil_of_length_eq_zero
        omega
      subst nothing
      exact .done
  | succ steps inductionHypothesis =>
      cases content with
      | nil =>
          exact .done
      | cons first rest =>
          simp only [List.length_cons, List.head?_cons, Option.mem_some_iff,
            forall_eq'] at enough
          simp only [groupWithin]
          split
          case isTrue isPoint =>
              obtain ⟨depth, point, deeper⟩ := isDeeper_eq_true_iff.mp isPoint
              have room : 2 * (rest.length + 1) < steps + 1 := by
                rcases enough with room | ⟨-, shallow⟩
                · exact room
                · simp [isPoint] at shallow
              simp only [point, Option.getD_some]
              refine .nest point deeper ?_ ?_
              -- The weave that the first node opens keeps that node.
              · apply inductionHypothesis
                right
                have fewer :=
                  (List.takeWhile_sublist
                    (staysInside depth? base) (l := rest)).length_le
                constructor
                · simp only [List.length_cons]
                  omega
                · simp [isDeeper, point]
              · apply inductionHypothesis
                left
                have fewer :=
                  (List.dropWhile_sublist
                    (staysInside depth? base) (l := rest)).length_le
                omega
          case isFalse notPoint =>
              refine .keep (by simpa using notPoint) (inductionHypothesis ?_)
              left
              omega

theorem groups_groupWithin
    {steps : Nat}
    (enough : 2 * content.length < steps) :
    Groups depth? base content (groupWithin depth? steps base content) :=
  groups_groupWithin_of_enough (.inl enough)

theorem groups_group
    (depth? : NodeId → Option Nat)
    (base : Nat)
    (content : List NodeId) :
    Groups depth? base content (group depth? base content) :=
  groups_groupWithin (by omega)

theorem Groups.leavesOf_eq
    (groups : Groups depth? base content items) :
    leavesOf items = content := by
  induction groups with
  | done =>
      simp [leavesOf]
  | keep shallow others inductionHypothesis =>
      simp [leavesOf, leaves, inductionHypothesis]
  | nest point deeper within others withinHypothesis othersHypothesis =>
      simp [leavesOf, leaves, withinHypothesis, othersHypothesis]

/-- A weave keeps the point that opened it. -/
theorem Groups.exists_leaf
    {first : NodeId}
    {rest : List NodeId}
    (groups : Groups depth? base (first :: rest) items)
    (shallow : isDeeper depth? base first = false) :
    ∃ others, items = leaf first :: others := by
  cases groups with
  | keep =>
      exact ⟨_, rfl⟩
  | nest point deeper =>
      rw [isDeeper_eq_true_iff.mpr ⟨_, point, deeper⟩] at shallow
      cases shallow

theorem Groups.nests
    (groups : Groups depth? base content items) :
    Nests depth? base items := by
  induction groups with
  | done =>
      exact .nil
  | keep shallow others inductionHypothesis =>
      exact .leaf (isDeeper_eq_false_iff.mp shallow) inductionHypothesis
  | @nest base depth first rest inside items point deeper within others
      withinHypothesis othersHypothesis =>
      obtain ⟨later, rfl⟩ := within.exists_leaf (by simp [isDeeper, point])
      refine .nested deeper ?_ ?_ withinHypothesis othersHypothesis
      · rw [point]
        congr 1
        omega
      · intro id member own isPoint
        rw [within.leavesOf_eq] at member
        rcases List.mem_cons.mp member with rfl | stays
        · cases point.symm.trans isPoint
          exact deeper
        · exact lt_of_staysInside (List.mem_takeWhile_imp stays) isPoint

end WeaveTree

namespace Draft

/-- The node is a weave. -/
def IsWeave (draft : Draft) (id : NodeId) : Prop :=
  ∃ content base, draft.kind? id = some (.weave content base)

/-- Every node stays, except that gathers may rejoin other choices. -/
structure Retains (before after : Draft) : Prop where
  size_le : before.size ≤ after.size
  slot? :
    ∀ id slot,
      before.slot? id = some slot →
      ∃ change,
        after.slot? id = some { slot with kind := slot.kind.withRejoins change }

/-- Weaves give way to what is in them, again and again. -/
inductive Splices (draft : Draft) : List NodeId → List NodeId → Prop
  | nil : Splices draft [] []
  | keep {id ids leaves}
      (plain : ¬ draft.IsWeave id)
      (others : Splices draft ids leaves) :
      Splices draft (id :: ids) (id :: leaves)
  | splice {id content base ids inner outer}
      (weave : draft.kind? id = some (.weave content base))
      (within : Splices draft content inner)
      (others : Splices draft ids outer) :
      Splices draft (id :: ids) (inner ++ outer)

/-- The weaves inside grouped items stand in a draft. -/
inductive Shows
    (depth? : NodeId → Option Nat)
    (draft : Draft) :
    List WeaveTree → List NodeId → Prop
  | nil : Shows depth? draft [] []
  | leaf {id items ids}
      (made : id.index < draft.size)
      (plain : ¬ draft.IsWeave id)
      (depth : draft.weavePointDepth? id = depth? id)
      (others : Shows depth? draft items ids) :
      Shows depth? draft (.leaf id :: items) (id :: ids)
  | nested {base inside content id items ids}
      (weave : draft.kind? id = some (.weave content base))
      (within : Shows depth? draft inside content)
      (others : Shows depth? draft items ids) :
      Shows depth? draft (.nested base inside :: items) (id :: ids)

variable
    {draft before middle after : Draft}
    {ids content : List NodeId}
    {id : NodeId}
    {base : Nat}
    {depth? : NodeId → Option Nat}
    {items : List WeaveTree}

namespace Retains

theorem refl
    (draft : Draft) :
    Retains draft draft :=
  ⟨Nat.le_refl _, fun _ _ made => ⟨fun rejoins => rejoins, by simp [made]⟩⟩

theorem trans
    (first : Retains before middle)
    (second : Retains middle after) :
    Retains before after where
  size_le := Nat.le_trans first.size_le second.size_le
  slot? id slot made := by
    obtain ⟨change, changed⟩ := first.slot? id slot made
    obtain ⟨changeThen, changedThen⟩ := second.slot? id _ changed
    exact ⟨changeThen ∘ change, by simpa using changedThen⟩

theorem exists_kind
    (retains : Retains before after)
    (made : id.index < before.size) :
    ∃ kind change,
      before.kind? id = some kind ∧
        after.kind? id = some (kind.withRejoins change) := by
  have isSlot : before.slot? id = some before.slots[id.index] :=
    Array.getElem?_eq_getElem made
  obtain ⟨change, changed⟩ := retains.slot? id _ isSlot
  refine ⟨before.slots[id.index].kind, change, ?_, ?_⟩
  · simp [Draft.kind?, isSlot]
  · simp [Draft.kind?, changed]

theorem weavePointDepth?_eq
    (retains : Retains before after)
    (made : id.index < before.size) :
    after.weavePointDepth? id = before.weavePointDepth? id := by
  obtain ⟨kind, change, isKind, changed⟩ := retains.exists_kind made
  simp [weavePointDepth?, isKind, changed]

theorem kind?_eq_weave_iff
    (retains : Retains before after)
    (made : id.index < before.size) :
    after.kind? id = some (.weave content base) ↔
      before.kind? id = some (.weave content base) := by
  obtain ⟨kind, change, isKind, changed⟩ := retains.exists_kind made
  simp [isKind, changed]

theorem isWeave_iff
    (retains : Retains before after)
    (made : id.index < before.size) :
    after.IsWeave id ↔ before.IsWeave id := by
  simp only [IsWeave, retains.kind?_eq_weave_iff made]

theorem add
    (draft : Draft)
    (kind : StoryKind) :
    Retains draft (draft.add kind).2 where
  size_le := (spares_add draft kind none).size_le
  slot? other slot made := by
    have same :=
      (spares_add draft kind none).slot? other (lt_size_of_slot? made) (by simp)
    exact ⟨fun rejoins => rejoins, by simp [same, made]⟩

theorem withRejoins
    (draft : Draft)
    (id : NodeId)
    (change : List NodeId → List NodeId) :
    Retains draft (draft.modify id (·.withRejoins change)) where
  size_le := (spares_modify draft id _).size_le
  slot? other slot made := by
    by_cases isThis : other = id
    · subst isThis
      exact ⟨change, by rw [slot?_modify, made, Option.map_some]⟩
    · have same :=
        (spares_modify draft id (·.withRejoins change)).slot? other
          (lt_size_of_slot? made) (by simpa using isThis)
      exact ⟨fun rejoins => rejoins, by simp [same, made]⟩

theorem joinChoices
    (draft : Draft)
    (loose ids : List NodeId) :
    Retains draft (draft.joinChoices loose ids) := by
  induction ids generalizing draft loose with
  | nil =>
      exact .refl draft
  | cons id rest inductionHypothesis =>
      unfold Draft.joinChoices
      split
      · exact inductionHypothesis draft _
      · exact (withRejoins draft id _).trans (inductionHypothesis _ _)
      · exact inductionHypothesis draft _

theorem addWeave
    (draft : Draft)
    (content : List NodeId)
    (base : Nat) :
    Retains draft (draft.addWeave content base).2 :=
  (joinChoices draft [] content).trans (add _ _)

end Retains

theorem size_joinChoices
    (draft : Draft)
    (loose ids : List NodeId) :
    (draft.joinChoices loose ids).size = draft.size := by
  induction ids generalizing draft loose with
  | nil =>
      rfl
  | cons id rest inductionHypothesis =>
      unfold joinChoices
      split
      · exact inductionHypothesis draft _
      · rw [inductionHypothesis]
        simp [modify, size]
      · exact inductionHypothesis draft _

@[simp] theorem size_addWeave
    (draft : Draft)
    (content : List NodeId)
    (base : Nat) :
    (draft.addWeave content base).2.size = draft.size + 1 := by
  have same := size_joinChoices draft [] content
  simp only [size] at same
  simp [addWeave, add, size, same]

@[simp] theorem addWeave_fst
    (draft : Draft)
    (content : List NodeId)
    (base : Nat) :
    (draft.addWeave content base).1 = ⟨draft.size⟩ := by
  simp [addWeave, add, size_joinChoices]

theorem kind?_addWeave
    (draft : Draft)
    (content : List NodeId)
    (base : Nat) :
    (draft.addWeave content base).2.kind? ⟨draft.size⟩ =
      some (.weave content base) := by
  have made :=
    slot?_add (draft.joinChoices [] content) (.weave content base) none
  rw [size_joinChoices] at made
  simp [addWeave, kind?, made]

namespace Shows

theorem retained
    (shows : Shows depth? before items ids)
    (retains : Retains before after) :
    Shows depth? after items ids := by
  induction shows with
  | nil =>
      exact .nil
  | leaf made plain depth others inductionHypothesis =>
      refine
        .leaf (Nat.lt_of_lt_of_le made retains.size_le) ?_ ?_
          inductionHypothesis
      · rwa [retains.isWeave_iff made]
      · rwa [retains.weavePointDepth?_eq made]
  | nested weave within others withinHypothesis othersHypothesis =>
      refine .nested ?_ withinHypothesis othersHypothesis
      obtain ⟨slot, made, -⟩ := Option.map_eq_some_iff.mp weave
      rwa [retains.kind?_eq_weave_iff (lt_size_of_slot? made)]

/-- Splicing undoes the grouping. -/
theorem splices
    (shows : Shows depth? draft items ids) :
    draft.Splices ids (WeaveTree.leavesOf items) := by
  induction shows with
  | nil =>
      simpa [WeaveTree.leavesOf] using Splices.nil
  | leaf made plain depth others inductionHypothesis =>
      simpa [WeaveTree.leavesOf, WeaveTree.leaves] using
        Splices.keep plain inductionHypothesis
  | nested weave within others withinHypothesis othersHypothesis =>
      simpa [WeaveTree.leavesOf, WeaveTree.leaves] using
        Splices.splice weave withinHypothesis othersHypothesis

theorem depth_of_mem_leaves
    (shows : Shows depth? draft items ids)
    (member : id ∈ WeaveTree.leavesOf items) :
    draft.weavePointDepth? id = depth? id := by
  induction shows with
  | nil =>
      simp [WeaveTree.leavesOf] at member
  | leaf made plain depth others inductionHypothesis =>
      simp only [WeaveTree.leavesOf, WeaveTree.leaves, List.singleton_append,
        List.mem_cons] at member
      rcases member with rfl | later
      · exact depth
      · exact inductionHypothesis later
  | nested weave within others withinHypothesis othersHypothesis =>
      simp only [WeaveTree.leavesOf, WeaveTree.leaves, List.mem_append] at member
      rcases member with inside | later
      · exact withinHypothesis inside
      · exact othersHypothesis later

end Shows

/-- Splicing gives one answer. -/
theorem Splices.unique
    {leaves others : List NodeId}
    (splices : draft.Splices ids leaves)
    (alike : draft.Splices ids others) :
    leaves = others := by
  induction splices generalizing others with
  | nil =>
      cases alike
      rfl
  | keep plain _ inductionHypothesis =>
      cases alike with
      | keep _ rest =>
          rw [inductionHypothesis rest]
      | splice weave =>
          exact absurd ⟨_, _, weave⟩ plain
  | splice weave _ _ withinHypothesis othersHypothesis =>
      cases alike with
      | keep plain =>
          exact absurd ⟨_, _, weave⟩ plain
      | splice same within rest =>
          cases weave.symm.trans same
          rw [withinHypothesis within, othersHypothesis rest]

/-- A weave whose points lie at its base and whose weaves lie deeper. -/
structure NestsAt
    (draft : Draft)
    (content : List NodeId)
    (base : Nat) : Prop where
  points :
    ∀ id ∈ content, ∀ depth,
      draft.weavePointDepth? id = some depth → depth - 1 ≤ base
  weaves :
    ∀ id ∈ content, ∀ inside inner,
      draft.kind? id = some (.weave inside inner) →
        base < inner ∧
          (∃ first rest,
            inside = first :: rest ∧
              draft.weavePointDepth? first = some (inner + 1)) ∧
          ∃ leaves,
            draft.Splices inside leaves ∧
              ∀ point ∈ leaves, ∀ depth,
                draft.weavePointDepth? point = some depth → base < depth - 1

theorem weavePointDepth?_of_weave
    (weave : draft.kind? id = some (.weave content base)) :
    draft.weavePointDepth? id = none := by
  simp [weavePointDepth?, weave, NodeKind.weavePointDepth?]

theorem Shows.nestsAt
    (shows : Shows depth? draft items content)
    (nests : WeaveTree.Nests depth? base items) :
    NestsAt draft content base := by
  induction shows generalizing base with
  | nil =>
      exact ⟨by simp, by simp⟩
  | leaf made plain depth others inductionHypothesis =>
      cases nests with
      | leaf shallow nestsOthers =>
          have rest := inductionHypothesis nestsOthers
          refine ⟨?_, ?_⟩
          · refine List.forall_mem_cons.mpr ⟨?_, rest.points⟩
            rw [depth]
            exact shallow
          · refine List.forall_mem_cons.mpr ⟨?_, rest.weaves⟩
            intro inside inner weave
            exact absurd ⟨inside, inner, weave⟩ plain
  | nested weave within others _ othersHypothesis =>
      cases nests with
      | nested deeper opens points _ nestsOthers =>
          have rest := othersHypothesis nestsOthers
          refine ⟨?_, ?_⟩
          · refine List.forall_mem_cons.mpr ⟨?_, rest.points⟩
            intro depth isPoint
            rw [weavePointDepth?_of_weave weave] at isPoint
            cases isPoint
          · refine List.forall_mem_cons.mpr ⟨?_, rest.weaves⟩
            intro inside inner same
            cases weave.symm.trans same
            refine ⟨deeper, ?_, _, within.splices, ?_⟩
            · cases within with
              | leaf _ _ depth _ =>
                  exact ⟨_, _, rfl, depth.trans opens⟩
            · intro point member depth isPoint
              rw [within.depth_of_mem_leaves member] at isPoint
              exact points point member depth isPoint

/-- Grouped items were made into weaves that nest as the items do. -/
structure Places
    (depth? : NodeId → Option Nat)
    (before after : Draft)
    (items : List WeaveTree)
    (ids : List NodeId) : Prop where
  retains : Retains before after
  shows : Shows depth? after items ids
  built :
    ∀ id, before.size ≤ id.index → id.index < after.size →
      ∃ inside base content,
        after.kind? id = some (.weave content base) ∧
          WeaveTree.Nests depth? base inside ∧
          Shows depth? after inside content

namespace Places

theorem nil
    (depth? : NodeId → Option Nat)
    (draft : Draft) :
    Places depth? draft draft [] [] :=
  ⟨.refl draft, .nil, fun _ new old => absurd old (Nat.not_lt_of_le new)⟩

/-- The weave around all that was placed. -/
theorem addWeave
    (places : Places depth? before after items ids)
    (nests : WeaveTree.Nests depth? base items) :
    Places depth? before (after.addWeave ids base).2 [.nested base items]
      [⟨after.size⟩] := by
  have retains := Retains.addWeave after ids base
  have weave := kind?_addWeave after ids base
  refine
    ⟨places.retains.trans retains,
      .nested weave (places.shows.retained retains) .nil, ?_⟩
  intro id new made
  rw [size_addWeave] at made
  by_cases older : id.index < after.size
  · obtain ⟨inside, inner, content, isWeave, nestsInside, shows⟩ :=
      places.built id new older
    exact
      ⟨inside, inner, content, (retains.kind?_eq_weave_iff older).mpr isWeave,
        nestsInside, shows.retained retains⟩
  · obtain rfl : id = ⟨after.size⟩ := by
      obtain ⟨index⟩ := id
      simp only [NodeId.mk.injEq]
      simp only at older made
      omega
    exact ⟨items, base, ids, weave, nests, places.shows.retained retains⟩

/-- What was placed stays while other items are placed. -/
theorem append
    {item : WeaveTree}
    (first : Places depth? before middle [item] [id])
    (others : Places depth? middle after items ids) :
    Places depth? before after (item :: items) (id :: ids) where
  retains := first.retains.trans others.retains
  shows := by
    cases first.shows with
    | leaf made plain depth nothing =>
        have first := (Shows.leaf made plain depth nothing).retained others.retains
        cases first with
        | leaf made plain depth _ =>
            exact .leaf made plain depth others.shows
    | nested weave within nothing =>
        have first := (Shows.nested weave within nothing).retained others.retains
        cases first with
        | nested weave within _ =>
            exact .nested weave within others.shows
  built other new made := by
    by_cases older : other.index < middle.size
    · obtain ⟨inside, inner, content, isWeave, nests, shows⟩ :=
        first.built other new older
      exact
        ⟨inside, inner, content,
          (others.retains.kind?_eq_weave_iff older).mpr isWeave, nests,
          shows.retained others.retains⟩
    · exact others.built other (Nat.le_of_not_lt older) made

end Places

/-- The node is there and no weave, and a point where it is said to be one. -/
structure IsLeaf
    (depth? : NodeId → Option Nat)
    (draft : Draft)
    (id : NodeId) : Prop where
  made : id.index < draft.size
  plain : ¬ draft.IsWeave id
  depth : draft.weavePointDepth? id = depth? id

theorem IsLeaf.retained
    (isLeaf : IsLeaf depth? before id)
    (retains : Retains before after) :
    IsLeaf depth? after id where
  made := Nat.lt_of_lt_of_le isLeaf.made retains.size_le
  plain := by simpa only [retains.isWeave_iff isLeaf.made] using isLeaf.plain
  depth := (retains.weavePointDepth?_eq isLeaf.made).trans isLeaf.depth

theorem places_placeItems
    (nests : WeaveTree.Nests depth? base items)
    (leaves : ∀ id ∈ WeaveTree.leavesOf items, IsLeaf depth? draft id) :
    Places depth? draft (placeItems items draft).2 items
      (placeItems items draft).1 := by
  induction nests generalizing draft with
  | nil =>
      exact .nil depth? draft
  | @leaf base id items shallow others inductionHypothesis =>
      simp only [WeaveTree.leavesOf, WeaveTree.leaves, List.singleton_append,
        List.forall_mem_cons] at leaves
      obtain ⟨first, rest⟩ := leaves
      have placed : Places depth? draft draft [.leaf id] [id] :=
        ⟨.refl draft, .leaf first.made first.plain first.depth .nil,
          (Places.nil depth? draft).built⟩
      exact placed.append (inductionHypothesis rest)
  | nested deeper opens points within others withinHypothesis
      othersHypothesis =>
      rw [WeaveTree.leavesOf, List.forall_mem_append] at leaves
      obtain ⟨inside, rest⟩ := leaves
      have placed := (withinHypothesis inside).addWeave within
      simp only [placeItems, placeItem, addWeave_fst]
      exact
        placed.append
          (othersHypothesis fun id member =>
            (rest id member).retained placed.retains)

/-- The weave of some content at a base, with all weaves that were made for it. -/
structure Weaves
    (draft : Draft)
    (content : List NodeId)
    (base : Nat)
    (after : Draft)
    (top : NodeId) : Prop where
  /-- The run over the content ends by itself, however many steps it may take. -/
  ends :
    ∀ steps, 2 * content.length < steps →
      WeaveTree.Groups draft.weavePointDepth? base content
        (WeaveTree.groupWithin draft.weavePointDepth? steps base content)
  retains : Retains draft after
  isNew : draft.size ≤ top.index
  isWeave : ∃ inside, after.kind? top = some (.weave inside base)
  splices : ∀ leaves, after.Splices [top] leaves ↔ leaves = content
  nests :
    ∀ id, draft.size ≤ id.index → id.index < after.size →
      ∃ inside inner,
        after.kind? id = some (.weave inside inner) ∧
          after.NestsAt inside inner

theorem weaves_weave
    (made : ∀ id ∈ content, id.index < draft.size)
    (plain : ∀ id ∈ content, ¬ draft.IsWeave id)
    (base : Nat) :
    Weaves draft content base (draft.weave content base).2
      (draft.weave content base).1 := by
  have groups := WeaveTree.groups_group draft.weavePointDepth? base content
  have leaves :
      ∀ id ∈ WeaveTree.leavesOf
          (WeaveTree.group draft.weavePointDepth? base content),
        IsLeaf draft.weavePointDepth? draft id := by
    intro id member
    rw [groups.leavesOf_eq] at member
    exact ⟨made id member, plain id member, rfl⟩
  have inside := places_placeItems groups.nests leaves
  have placed := inside.addWeave groups.nests
  rw [← addWeave_fst _ (placeItems _ draft).1 base] at placed
  have splices := placed.shows.splices
  simp only [WeaveTree.leavesOf, WeaveTree.leaves, groups.leavesOf_eq,
    List.append_nil] at splices
  exact {
    ends := fun _ enough => WeaveTree.groups_groupWithin enough
    retains := placed.retains
    isNew := by
      simpa [weave, placeItem] using inside.retains.size_le
    isWeave := by
      cases placed.shows with
      | nested isWeave => exact ⟨_, isWeave⟩
    splices := fun leaves =>
      ⟨fun alike => alike.unique splices, fun same => same ▸ splices⟩
    nests := fun id new isMade => by
      obtain ⟨items, inner, content, isWeave, nests, shows⟩ :=
        placed.built id new isMade
      exact ⟨content, inner, isWeave, shows.nestsAt nests⟩
  }

/-- The node is a knot or stitch. -/
def isFlowAt (draft : Draft) (id : NodeId) : Bool :=
  ((draft.kind? id).map NodeKind.isFlow).getD false

/-- Content without weaves is woven without loss, and flows follow their weave in order. -/
theorem weaves_nest
    (draft : Draft)
    (content : List NodeId)
    (made : ∀ id ∈ content, id.index < draft.size)
    (plain : ∀ id ∈ content, ¬ draft.IsWeave id) :
    (∀ base,
      Weaves draft content base (draft.weave content base).2
        (draft.weave content base).1) ∧
    ∃ top after,
      draft.weaveAndFlows content =
          (top :: content.filter draft.isFlowAt, after) ∧
        Weaves draft (content.filter (!draft.isFlowAt ·)) 0 after top := by
  refine ⟨weaves_weave made plain, _, _, rfl, ?_⟩
  apply weaves_weave
  · exact fun id member => made id (List.mem_of_mem_filter member)
  · exact fun id member => plain id (List.mem_of_mem_filter member)

/-- Depths that jump: the weave of the third bullet also takes the gather at depth two. -/
theorem weaves_nest_at_jumping_depths :
    let choice (depth : Nat) : Slot :=
      ⟨.choice { depth := depth, onceOnly := true }, none⟩
    let draft : Draft :=
      ⟨#[choice 1, choice 3, ⟨.text "a", none⟩, ⟨.gather none 2 [], none⟩,
        choice 1]⟩
    let content : List NodeId := [⟨0⟩, ⟨1⟩, ⟨2⟩, ⟨3⟩, ⟨4⟩]
    (∀ id ∈ content, id.index < draft.size) ∧
      (∀ id ∈ content, ¬ draft.IsWeave id) ∧
      (draft.weave content 0).2.kind? ⟨5⟩ =
        some (.weave [⟨1⟩, ⟨2⟩, ⟨3⟩] 2) ∧
      (draft.weave content 0).2.kind? ⟨6⟩ =
        some (.weave [⟨0⟩, ⟨5⟩, ⟨4⟩] 0) ∧
      Weaves draft content 0 (draft.weave content 0).2 ⟨6⟩ := by
  intro choice draft content
  have made : ∀ id ∈ content, id.index < draft.size := by
    decide
  have plain : ∀ id ∈ content, ¬ draft.IsWeave id := by
    simp [content, draft, choice, IsWeave, kind?, slot?]
  exact ⟨made, plain, rfl, rfl, (weaves_nest draft content made plain).1 0⟩

end Draft

end InkSyntax
