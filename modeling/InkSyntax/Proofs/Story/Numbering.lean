import InkSyntax.Proofs.Story.Growth
import InkSyntax.Story.Freeze
import Mathlib.Data.List.Flatten
import Mathlib.Logic.Relation

namespace InkSyntax.Draft

/-!
# Numbering by first visits

A walk comes to some nodes and to all that stands below them, and visits each
where it first comes to it.  Numbering takes one step for everything that the walk
comes to and numbers what it visits, so the new number of a node is its place in
the walk.  The walk ends in any draft, even where nodes stand below each other.
-/

/-- The nodes directly below a node. -/
def childrenOf (draft : Draft) (id : NodeId) : List NodeId :=
  ((draft.kind? id).map NodeKind.children).getD []

/-- What stands anywhere below a node, and the node itself. -/
def Reaches (draft : Draft) : NodeId → NodeId → Prop :=
  Relation.ReflTransGen fun outer inner => inner ∈ draft.childrenOf outer

/-- The first visits of a walk that has seen some nodes, numbered on, with their parents. -/
inductive Visits (draft : Draft) :
    List NodeId → Nat → Option NodeId → List NodeId →
      List (NodeId × Option NodeId) → Prop
    where
  | done {seen : List NodeId} {first : Nat} {parent : Option NodeId} :
      Visits draft seen first parent [] []
  | again
      {seen : List NodeId}
      {first : Nat}
      {parent : Option NodeId}
      {id : NodeId}
      {rest : List NodeId}
      {others : List (NodeId × Option NodeId)}
      (known : id ∈ seen)
      (siblings : Visits draft seen first parent rest others) :
      Visits draft seen first parent (id :: rest) others
  | visit
      {seen : List NodeId}
      {first : Nat}
      {parent : Option NodeId}
      {id : NodeId}
      {slot : Slot}
      {rest : List NodeId}
      {below others : List (NodeId × Option NodeId)}
      (unseen : id ∉ seen)
      (made : draft.slot? id = some slot)
      (children :
        Visits draft (id :: seen) (first + 1) (some ⟨first⟩)
          slot.kind.children below)
      (siblings :
        Visits draft (below.map Prod.fst ++ id :: seen)
          (first + 1 + below.length) parent rest others) :
      Visits draft seen first parent (id :: rest)
        ((id, parent) :: (below ++ others))

namespace Numbering

/-- Give the next numbers to some nodes. -/
def giveAll
    (numbering : Numbering)
    (entries : List (NodeId × Option NodeId)) : Numbering :=
  entries.foldl (fun numbering entry => (numbering.give entry.1 entry.2).2)
    numbering

variable
    {numbering : Numbering}
    {entries : List (NodeId × Option NodeId)}
    {id other : NodeId}

theorem giveAll_cons
    (entry : NodeId × Option NodeId)
    (rest : List (NodeId × Option NodeId)) :
    numbering.giveAll (entry :: rest) =
      (numbering.give entry.1 entry.2).2.giveAll rest :=
  rfl

theorem giveAll_append
    (more : List (NodeId × Option NodeId)) :
    numbering.giveAll (entries ++ more) =
      (numbering.giveAll entries).giveAll more :=
  List.foldl_append

theorem order_giveAll :
    (numbering.giveAll entries).order.toList =
      numbering.order.toList ++ entries := by
  induction entries generalizing numbering with
  | nil =>
      simp [giveAll]
  | cons entry rest inductionHypothesis =>
      rw [giveAll_cons, inductionHypothesis]
      simp [give]

theorem size_new_giveAll :
    (numbering.giveAll entries).new.size = numbering.new.size := by
  induction entries generalizing numbering with
  | nil =>
      rfl
  | cons entry rest inductionHypothesis =>
      rw [giveAll_cons, inductionHypothesis]
      simp [give]

theorem find?_give_of_ne
    {parent : Option NodeId}
    (apart : other ≠ id) :
    (numbering.give other parent).2.find? id = numbering.find? id := by
  have indices : other.index ≠ id.index := by
    intro same
    cases other
    cases id
    exact apart (congrArg NodeId.mk same)
  simp [give, find?, Array.getElem?_modify, indices]

theorem find?_give
    {parent : Option NodeId}
    (room : id.index < numbering.new.size) :
    (numbering.give id parent).2.find? id =
      some ⟨numbering.order.size⟩ := by
  simp [give, find?, room, Array.getElem_modify]

theorem find?_giveAll_of_not_mem
    (others : id ∉ entries.map Prod.fst) :
    (numbering.giveAll entries).find? id = numbering.find? id := by
  induction entries generalizing numbering with
  | nil =>
      rfl
  | cons entry rest inductionHypothesis =>
      simp only [List.map_cons, List.mem_cons, not_or] at others
      rw [giveAll_cons, inductionHypothesis others.2,
        find?_give_of_ne (Ne.symm others.1)]

/-- The new number of a node is its place among all that were given one. -/
theorem find?_giveAll
    {index : Nat}
    {parent : Option NodeId}
    (nodup : (entries.map Prod.fst).Nodup)
    (entry : entries[index]? = some (id, parent))
    (room : id.index < numbering.new.size) :
    (numbering.giveAll entries).find? id =
      some ⟨numbering.order.size + index⟩ := by
  induction entries generalizing numbering index with
  | nil =>
      cases entry
  | cons head rest inductionHypothesis =>
      obtain ⟨notLater, nodupRest⟩ := List.nodup_cons.mp nodup
      cases index with
      | zero =>
          cases entry
          rw [giveAll_cons, find?_giveAll_of_not_mem notLater, find?_give room,
            Nat.add_zero]
      | succ index =>
          have roomThen : id.index < (numbering.give head.1 head.2).2.new.size := by
            simpa [give] using room
          rw [giveAll_cons, inductionHypothesis nodupRest entry roomThen]
          simp [give, Nat.add_comm, Nat.add_left_comm]

/-- A node has a number exactly if it got one before or gets one now. -/
theorem find?_giveAll_eq_none_iff
    (room : ∀ id ∈ entries.map Prod.fst, id.index < numbering.new.size) :
    (numbering.giveAll entries).find? id = none ↔
      id ∉ entries.map Prod.fst ∧ numbering.find? id = none := by
  induction entries generalizing numbering with
  | nil =>
      simp [giveAll]
  | cons entry rest inductionHypothesis =>
      simp only [List.map_cons, List.forall_mem_cons] at room
      obtain ⟨roomHere, roomRest⟩ := room
      rw [giveAll_cons, inductionHypothesis (by simpa [give] using roomRest)]
      by_cases same : entry.1 = id
      · subst same
        simp [find?_give roomHere]
      · simp [find?_give_of_ne same, Ne.symm same]

end Numbering

variable
    {draft : Draft}
    {seen roots nodes : List NodeId}
    {first : Nat}
    {parent : Option NodeId}
    {entries : List (NodeId × Option NodeId)}

theorem childrenOf_eq
    {id : NodeId}
    {slot : Slot}
    (made : draft.slot? id = some slot) :
    draft.childrenOf id = slot.kind.children := by
  simp [childrenOf, kind?, made]

/-- A numbering of a draft that gave so many numbers, to the nodes seen so far. -/
structure Numbered
    (draft : Draft)
    (seen : List NodeId)
    (first : Nat)
    (numbering : Numbering) : Prop where
  room : numbering.new.size = draft.size
  known : ∀ id, numbering.find? id = none ↔ id ∉ seen
  size : numbering.order.size = first

namespace Numbered

variable {numbering : Numbering}

theorem give
    {id : NodeId}
    (numbered : Numbered draft seen first numbering)
    (made : id.index < draft.size)
    (parent : Option NodeId) :
    Numbered draft (id :: seen) (first + 1) (numbering.give id parent).2 where
  room := by
    simp [Numbering.give, numbered.room]
  known other := by
    by_cases same : id = other
    · subst same
      simp [Numbering.find?_give (numbered.room ▸ made)]
    · simp [Numbering.find?_give_of_ne same, numbered.known, Ne.symm same]
  size := by
    simp [Numbering.give, numbered.size]

theorem giveAll
    (numbered : Numbered draft seen first numbering)
    (made : ∀ id ∈ entries.map Prod.fst, id.index < draft.size) :
    Numbered draft (entries.map Prod.fst ++ seen) (first + entries.length)
      (numbering.giveAll entries) where
  room := by
    rw [Numbering.size_new_giveAll, numbered.room]
  known other := by
    rw [Numbering.find?_giveAll_eq_none_iff (numbered.room ▸ made),
      numbered.known, List.mem_append, not_or]
  size := by
    rw [← Array.length_toList, Numbering.order_giveAll, List.length_append,
      Array.length_toList, numbered.size]

end Numbered

section Steps

/-- The steps of numbering for some nodes, if these are its first visits from there. -/
def stepsFor
    (draft : Draft)
    (roots : List NodeId)
    (entries : List (NodeId × Option NodeId)) : Nat :=
  roots.length + ((entries.map Prod.fst).flatMap draft.childrenOf).length

theorem stepsFor_cons
    (id : NodeId) :
    draft.stepsFor (id :: roots) entries = draft.stepsFor roots entries + 1 := by
  simp only [stepsFor, List.length_cons]
  omega

theorem stepsFor_visit
    {id : NodeId}
    {slot : Slot}
    {below others : List (NodeId × Option NodeId)}
    (made : draft.slot? id = some slot) :
    draft.stepsFor (id :: roots) ((id, parent) :: (below ++ others)) =
      draft.stepsFor slot.kind.children below + draft.stepsFor roots others +
        1 := by
  simp only [stepsFor, List.length_cons, List.map_cons, List.map_append,
    List.flatMap_cons, List.flatMap_append, List.length_append,
    childrenOf_eq made]
  omega

/-- All children that the nodes of a draft mention. -/
def mentioned (draft : Draft) : List NodeId :=
  draft.slots.toList.flatMap (·.kind.children)

theorem stepLimit_eq :
    draft.stepLimit = draft.mentioned.length + 2 := by
  have summed (slots : List Slot) (total : Nat) :
      slots.foldl (fun total slot => total + slot.kind.children.length)
          total =
        (slots.flatMap (·.kind.children)).length + total := by
    induction slots generalizing total with
    | nil =>
        simp
    | cons slot rest inductionHypothesis =>
        simp only [List.foldl_cons, inductionHypothesis, List.flatMap_cons,
          List.length_append]
        omega
  rw [stepLimit, ← Array.foldl_toList]
  exact summed _ _

theorem flatMap_childrenOf_all :
    ((List.range draft.size).map NodeId.mk).flatMap draft.childrenOf =
      draft.mentioned := by
  have indexed (slots : List Slot) :
      (List.range slots.length).flatMap
          (fun index => ((slots[index]?.map (·.kind)).map (·.children)).getD []) =
        slots.flatMap (·.kind.children) := by
    induction slots with
    | nil =>
        rfl
    | cons slot rest inductionHypothesis =>
        simpa [List.range_succ_eq_map, List.flatMap_map]
          using inductionHypothesis
  simpa [List.flatMap_map, childrenOf, kind?, slot?, size, mentioned]
    using indexed draft.slots.toList

/-- Different nodes mention no more children than there are in the draft. -/
theorem length_flatMap_childrenOf_le
    (nodup : nodes.Nodup)
    (made : ∀ id ∈ nodes, id.index < draft.size) :
    (nodes.flatMap draft.childrenOf).length ≤ draft.mentioned.length := by
  have among : nodes ⊆ (List.range draft.size).map NodeId.mk := by
    intro id member
    exact
      List.mem_map.mpr ⟨id.index, List.mem_range.mpr (made id member), rfl⟩
  obtain ⟨ordered, reordered, sublist⟩ := List.subperm_of_subset nodup among
  calc
    (nodes.flatMap draft.childrenOf).length
      = (ordered.flatMap draft.childrenOf).length :=
        (reordered.symm.flatMap_right _).length_eq
    _ ≤ (((List.range draft.size).map NodeId.mk).flatMap
          draft.childrenOf).length :=
        (sublist.flatMap _).length_le
    _ = draft.mentioned.length := by
        rw [flatMap_childrenOf_all]

end Steps

namespace Visits

theorem made_of_mem
    (visits : Visits draft seen first parent roots entries)
    {id : NodeId}
    (member : id ∈ entries.map Prod.fst) :
    ∃ slot, draft.slot? id = some slot := by
  induction visits with
  | done =>
      cases member
  | again known siblings inductionHypothesis =>
      exact inductionHypothesis member
  | visit unseen made children siblings childrenHypothesis
      siblingsHypothesis =>
      simp only [List.map_cons, List.map_append, List.mem_cons,
        List.mem_append] at member
      rcases member with rfl | isBelow | isBeside
      · exact ⟨_, made⟩
      · exact childrenHypothesis isBelow
      · exact siblingsHypothesis isBeside

theorem unseen_of_mem
    (visits : Visits draft seen first parent roots entries)
    {id : NodeId}
    (member : id ∈ entries.map Prod.fst) :
    id ∉ seen := by
  induction visits with
  | done =>
      cases member
  | again known siblings inductionHypothesis =>
      exact inductionHypothesis member
  | visit unseen made children siblings childrenHypothesis
      siblingsHypothesis =>
      simp only [List.map_cons, List.map_append, List.mem_cons,
        List.mem_append] at member
      rcases member with rfl | isBelow | isBeside
      · exact unseen
      · exact fun known =>
          childrenHypothesis isBelow (List.mem_cons_of_mem _ known)
      · exact fun known =>
          siblingsHypothesis isBeside
            (List.mem_append_right _ (List.mem_cons_of_mem _ known))

/-- No node is visited twice. -/
theorem nodup
    (visits : Visits draft seen first parent roots entries) :
    (entries.map Prod.fst).Nodup := by
  induction visits with
  | done =>
      exact List.nodup_nil
  | again known siblings inductionHypothesis =>
      exact inductionHypothesis
  | visit unseen made children siblings childrenHypothesis
      siblingsHypothesis =>
      simp only [List.map_cons, List.map_append, List.nodup_cons,
        List.mem_append, not_or, List.nodup_append']
      refine ⟨⟨fun isBelow => ?_, fun isBeside => ?_⟩, childrenHypothesis,
        siblingsHypothesis, fun id isBelow isBeside => ?_⟩
      · exact children.unseen_of_mem isBelow List.mem_cons_self
      · exact
          siblings.unseen_of_mem isBeside
            (List.mem_append_right _ List.mem_cons_self)
      · exact
          siblings.unseen_of_mem isBeside (List.mem_append_left _ isBelow)

/-- What was visited below a node or seen there was visited with it or seen before. -/
theorem visited_of_below
    {id other : NodeId}
    {below : List (NodeId × Option NodeId)}
    (found : other ∈ id :: seen ∨ other ∈ below.map Prod.fst)
    (others : List (NodeId × Option NodeId)) :
    other ∈ seen ∨
      other ∈ ((id, parent) :: (below ++ others)).map Prod.fst := by
  rw [List.map_cons, List.map_append]
  rcases found with known | isBelow
  · rcases List.mem_cons.mp known with rfl | older
    · exact .inr List.mem_cons_self
    · exact .inl older
  · exact .inr (List.mem_cons_of_mem _ (List.mem_append_left _ isBelow))

/-- What was visited beside a node or seen there was visited with it or seen before. -/
theorem visited_of_beside
    {id other : NodeId}
    {below others : List (NodeId × Option NodeId)}
    (found :
      other ∈ below.map Prod.fst ++ id :: seen ∨ other ∈ others.map Prod.fst) :
    other ∈ seen ∨
      other ∈ ((id, parent) :: (below ++ others)).map Prod.fst := by
  rcases found with known | isBeside
  · exact visited_of_below (List.mem_append.mp known).symm others
  · rw [List.map_cons, List.map_append]
    exact .inr (List.mem_cons_of_mem _ (List.mem_append_right _ isBeside))

theorem mem_of_root
    (visits : Visits draft seen first parent roots entries)
    {id : NodeId}
    (root : id ∈ roots) :
    id ∈ seen ∨ id ∈ entries.map Prod.fst := by
  induction visits with
  | done =>
      cases root
  | again known siblings inductionHypothesis =>
      rcases List.mem_cons.mp root with rfl | later
      · exact .inl known
      · exact inductionHypothesis later
  | visit unseen made children siblings _ siblingsHypothesis =>
      rcases List.mem_cons.mp root with rfl | later
      · simp
      · exact visited_of_beside (siblingsHypothesis later)

/-- The walk goes on to all children of what it visits. -/
theorem mem_of_child
    (visits : Visits draft seen first parent roots entries)
    {outer inner : NodeId}
    (member : outer ∈ entries.map Prod.fst)
    (child : inner ∈ draft.childrenOf outer) :
    inner ∈ seen ∨ inner ∈ entries.map Prod.fst := by
  induction visits with
  | done =>
      cases member
  | again known siblings inductionHypothesis =>
      exact inductionHypothesis member
  | visit unseen made children siblings childrenHypothesis
      siblingsHypothesis =>
      simp only [List.map_cons, List.map_append, List.mem_cons,
        List.mem_append] at member
      rcases member with rfl | isBelow | isBeside
      · rw [childrenOf_eq made] at child
        exact visited_of_below (children.mem_of_root child) _
      · exact visited_of_below (childrenHypothesis isBelow) _
      · exact visited_of_beside (siblingsHypothesis isBeside)

theorem reached_of_mem
    (visits : Visits draft seen first parent roots entries)
    {id : NodeId}
    (member : id ∈ entries.map Prod.fst) :
    ∃ root ∈ roots, draft.Reaches root id := by
  induction visits with
  | done =>
      cases member
  | again known siblings inductionHypothesis =>
      obtain ⟨root, isRoot, reaches⟩ := inductionHypothesis member
      exact ⟨root, List.mem_cons_of_mem _ isRoot, reaches⟩
  | visit unseen made children siblings childrenHypothesis
      siblingsHypothesis =>
      simp only [List.map_cons, List.map_append, List.mem_cons,
        List.mem_append] at member
      rcases member with rfl | isBelow | isBeside
      · exact ⟨_, List.mem_cons_self, .refl⟩
      · obtain ⟨child, isChild, reaches⟩ := childrenHypothesis isBelow
        rw [← childrenOf_eq made] at isChild
        exact ⟨_, List.mem_cons_self, .head isChild reaches⟩
      · obtain ⟨root, isRoot, reaches⟩ := siblingsHypothesis isBeside
        exact ⟨root, List.mem_cons_of_mem _ isRoot, reaches⟩

/-- A walk from one node visits exactly what this reaches. -/
theorem mem_iff_reaches
    {root id : NodeId}
    (visits : Visits draft [] first parent [root] entries) :
    id ∈ entries.map Prod.fst ↔ draft.Reaches root id := by
  constructor
  · intro member
    obtain ⟨_, isRoot, reaches⟩ := visits.reached_of_mem member
    rwa [List.mem_singleton.mp isRoot] at reaches
  · intro reaches
    induction reaches with
    | refl =>
        simpa using visits.mem_of_root List.mem_cons_self
    | tail _ child inductionHypothesis =>
        simpa using visits.mem_of_child inductionHypothesis child

/-- A visited node is a root, or its parent was visited before it and has it as a child. -/
theorem parent_of
    (visits : Visits draft seen first parent roots entries)
    {index : Nat}
    {id : NodeId}
    {above : Option NodeId}
    (entry : entries[index]? = some (id, above)) :
    (id ∈ roots ∧ above = parent) ∨
      ∃ place outer further,
        above = some ⟨first + place⟩ ∧
          place < index ∧
          entries[place]? = some (outer, further) ∧
          id ∈ draft.childrenOf outer := by
  induction visits generalizing index with
  | done =>
      cases entry
  | again known siblings inductionHypothesis =>
      exact
        (inductionHypothesis entry).imp_left
          (.imp_left (List.mem_cons_of_mem _))
  | @visit seen first parent root slot rest below others unseen made children
      siblings childrenHypothesis siblingsHypothesis =>
      cases index with
      | zero =>
          cases entry
          exact .inl ⟨List.mem_cons_self, rfl⟩
      | succ index =>
          rw [List.getElem?_cons_succ] at entry
          by_cases isBelow : index < below.length
          · rw [List.getElem?_append_left isBelow] at entry
            right
            rcases childrenHypothesis entry with
              ⟨isChild, rfl⟩ |
                ⟨place, outer, further, rfl, before, found, isChild⟩
            · refine ⟨0, root, parent, rfl, by omega, rfl, ?_⟩
              rwa [childrenOf_eq made]
            · refine
                ⟨place + 1, outer, further, ?_, by omega, ?_, isChild⟩
              · simp only [Option.some.injEq, NodeId.mk.injEq]
                omega
              · rw [List.getElem?_cons_succ,
                  List.getElem?_append_left (by omega), found]
          · rw [List.getElem?_append_right (by omega)] at entry
            rcases siblingsHypothesis entry with
              ⟨isRoot, rfl⟩ |
                ⟨place, outer, further, rfl, before, found, isChild⟩
            · exact .inl ⟨List.mem_cons_of_mem _ isRoot, rfl⟩
            · right
              refine
                ⟨below.length + place + 1, outer, further, ?_, by omega, ?_,
                  isChild⟩
              · simp only [Option.some.injEq, NodeId.mk.injEq]
                omega
              · rw [List.getElem?_cons_succ,
                  List.getElem?_append_right (by omega),
                  Nat.add_sub_cancel_left, found]

/-- Numbering follows the walk, one step for each root and each child of a visited node. -/
theorem numberFrom_eq
    (visits : Visits draft seen first parent roots entries)
    {numbering : Numbering}
    (numbered : Numbered draft seen first numbering)
    (steps : Nat)
    (pending : List (NodeId × Option NodeId)) :
    draft.numberFrom (draft.stepsFor roots entries + steps)
        (roots.map (·, parent) ++ pending) numbering =
      draft.numberFrom steps pending (numbering.giveAll entries) := by
  induction visits generalizing numbering steps pending with
  | done =>
      simp [Numbering.giveAll, stepsFor]
  | @again seen first parent id rest others isKnown siblings
      inductionHypothesis =>
      have given : numbering.find? id ≠ none := fun isNone =>
        (numbered.known id).mp isNone isKnown
      obtain ⟨number, isNumber⟩ := Option.ne_none_iff_exists'.mp given
      rw [← inductionHypothesis numbered, stepsFor_cons, Nat.add_right_comm _ 1]
      cases draft.kind? id <;> simp [numberFrom, isNumber]
  | @visit seen first parent id slot rest below others unseen made children
      siblings childrenHypothesis siblingsHypothesis =>
      have isFresh : numbering.find? id = none :=
        (numbered.known id).mpr unseen
      have kind : draft.kind? id = some slot.kind := by
        simp [kind?, made]
      have numberedBelow := numbered.give (lt_size_of_slot? made) parent
      have numberedBeside :=
        numberedBelow.giveAll fun other member => by
          obtain ⟨slot, isSlot⟩ := children.made_of_mem member
          exact lt_size_of_slot? isSlot
      rw [stepsFor_visit made, Nat.add_right_comm _ 1, Nat.add_assoc _ _ steps]
      calc
        draft.numberFrom
              (draft.stepsFor slot.kind.children below +
                (draft.stepsFor rest others + steps) + 1)
              (((id :: rest).map (·, parent)) ++ pending) numbering
          = draft.numberFrom
              (draft.stepsFor slot.kind.children below +
                (draft.stepsFor rest others + steps))
              (slot.kind.children.map (·, some ⟨first⟩) ++
                (rest.map (·, parent) ++ pending))
              (numbering.give id parent).2 := by
            simp [numberFrom, kind, isFresh, Numbering.give, numbered.size]
        _ = draft.numberFrom (draft.stepsFor rest others + steps)
              (rest.map (·, parent) ++ pending)
              ((numbering.give id parent).2.giveAll below) :=
            childrenHypothesis numberedBelow _ _
        _ = draft.numberFrom steps pending
              (((numbering.give id parent).2.giveAll below).giveAll others) :=
            siblingsHypothesis numberedBeside _ _
        _ = draft.numberFrom steps pending
              (numbering.giveAll ((id, parent) :: (below ++ others))) := by
            rw [← Numbering.giveAll_append]
            rfl

/-- Numbering what a root reaches gives each node its place in the walk from the root. -/
theorem number_eq
    {root : NodeId}
    (visits : Visits draft [] 0 none [root] entries) :
    draft.number root =
      Numbering.giveAll ⟨draft.slots.map fun _ => none, #[]⟩ entries := by
  have enough : draft.stepsFor [root] entries ≤ draft.stepLimit := by
    have mentioned :=
      length_flatMap_childrenOf_le visits.nodup fun id member => by
        obtain ⟨slot, made⟩ := visits.made_of_mem member
        exact lt_size_of_slot? made
    rw [stepLimit_eq, stepsFor, List.length_singleton]
    omega
  obtain ⟨spare, split⟩ := Nat.exists_eq_add_of_le enough
  have noneYet (id : NodeId) :
      Numbering.find? ⟨draft.slots.map fun _ => none, #[]⟩ id = none ↔
        id ∉ [] := by
    simp only [Numbering.find?, Array.getElem?_map, List.not_mem_nil,
      not_false_eq_true, iff_true]
    cases draft.slots[id.index]? <;> rfl
  have counted :=
    visits.numberFrom_eq ⟨by simp [size], noneYet, rfl⟩ spare []
  rw [number, split]
  refine counted.trans ?_
  cases spare <;> rfl

theorem order_number
    {root : NodeId}
    (visits : Visits draft [] 0 none [root] entries) :
    (draft.number root).order.toList = entries := by
  rw [visits.number_eq, Numbering.order_giveAll, List.nil_append]

theorem find?_number
    {root id : NodeId}
    {index : Nat}
    {above : Option NodeId}
    (visits : Visits draft [] 0 none [root] entries)
    (entry : entries[index]? = some (id, above)) :
    (draft.number root).find? id = some ⟨index⟩ := by
  obtain ⟨slot, made⟩ :=
    visits.made_of_mem
      (List.mem_map.mpr ⟨_, List.mem_of_getElem? entry, rfl⟩)
  have room : id.index < draft.slots.size := lt_size_of_slot? made
  rw [visits.number_eq,
    Numbering.find?_giveAll visits.nodup entry (by simpa using room)]
  simp

theorem find?_number_of_not_mem
    {root id : NodeId}
    (visits : Visits draft [] 0 none [root] entries)
    (others : id ∉ entries.map Prod.fst) :
    (draft.number root).find? id = none := by
  rw [visits.number_eq, Numbering.find?_giveAll_of_not_mem others]
  simp only [Numbering.find?, Array.getElem?_map]
  cases draft.slots[id.index]? <;> rfl

end Visits

/-- The nodes of a draft that are not among some. -/
def unseen (draft : Draft) (seen : List NodeId) : List NodeId :=
  ((List.range draft.size).map NodeId.mk).filter (· ∉ seen)

theorem length_unseen_le
    {more : List NodeId}
    (subset : seen ⊆ more) :
    (draft.unseen more).length ≤ (draft.unseen seen).length := by
  apply List.Sublist.length_le
  apply List.monotone_filter_right
  intro id notMore
  simp only [decide_eq_true_eq] at notMore ⊢
  exact fun isSeen => notMore (subset isSeen)

theorem length_unseen_lt
    {id : NodeId}
    (made : id.index < draft.size)
    (isUnseen : id ∉ seen) :
    (draft.unseen (id :: seen)).length < (draft.unseen seen).length := by
  have smaller :
      draft.unseen (id :: seen) = (draft.unseen seen).filter (· ≠ id) := by
    simp only [unseen, List.filter_filter]
    apply List.filter_congr
    intro other _
    simp [Bool.decide_and, not_or]
  have there : id ∈ draft.unseen seen := by
    simp only [unseen, List.mem_filter, List.mem_map, List.mem_range,
      decide_eq_true_eq]
    exact ⟨⟨id.index, made, rfl⟩, isUnseen⟩
  rw [smaller]
  exact List.length_filter_lt_length_iff_exists.mpr ⟨id, there, by simp⟩

theorem exists_visits_within
    {count : Nat}
    (few : (draft.unseen seen).length < count)
    (first : Nat)
    (parent : Option NodeId)
    (inRange :
      ∀ root ∈ roots, ∀ id, draft.Reaches root id → id.index < draft.size) :
    ∃ entries, Visits draft seen first parent roots entries := by
  induction count generalizing seen first parent roots with
  | zero =>
      exact absurd few (Nat.not_lt_zero _)
  | succ count childrenHypothesis =>
      induction roots generalizing seen first with
      | nil =>
          exact ⟨[], .done⟩
      | cons id rest siblingsHypothesis =>
          obtain ⟨inRangeHere, inRangeRest⟩ := List.forall_mem_cons.mp inRange
          by_cases isKnown : id ∈ seen
          · obtain ⟨others, siblings⟩ := siblingsHypothesis few first inRangeRest
            exact ⟨others, .again isKnown siblings⟩
          · have bound : id.index < draft.size := inRangeHere id .refl
            obtain ⟨slot, made⟩ : ∃ slot, draft.slot? id = some slot :=
              ⟨_, Array.getElem?_eq_getElem bound⟩
            have fewer := length_unseen_lt bound isKnown
            have inRangeBelow :
                ∀ child ∈ slot.kind.children, ∀ other,
                  draft.Reaches child other → other.index < draft.size := by
              intro child isChild other reaches
              rw [← childrenOf_eq made] at isChild
              exact inRangeHere other (.head isChild reaches)
            have fewBelow : (draft.unseen (id :: seen)).length < count := by
              omega
            obtain ⟨below, children⟩ :=
              childrenHypothesis fewBelow (first + 1) (some ⟨first⟩)
                inRangeBelow
            have fewBehind :
                (draft.unseen (below.map Prod.fst ++ id :: seen)).length <
                  count :=
              Nat.lt_of_le_of_lt
                (length_unseen_le (List.subset_append_right _ _)) fewBelow
            obtain ⟨others, siblings⟩ :=
              siblingsHypothesis (Nat.lt_succ_of_lt fewBehind)
                (first + 1 + below.length) inRangeRest
            exact ⟨_, .visit isKnown made children siblings⟩

/-- A walk that stays in the draft ends: each visit leaves fewer nodes unseen. -/
theorem exists_visits
    (root : NodeId)
    (inRange : ∀ id, draft.Reaches root id → id.index < draft.size) :
    ∃ entries, Visits draft [] 0 none [root] entries :=
  exists_visits_within (Nat.lt_succ_self _) 0 none (by simpa using inRange)

end InkSyntax.Draft

namespace InkSyntax.Draft

/-!
## Numbering the trees of a draft

A listing writes trees out as freezing numbers them: each node stands before the
nodes below it, together with the new number of its parent.  Where no node stands
twice it is the walk over the trees, so the new number of a node is its place in
the listing.
-/

/-- Trees written out from some new number on, their roots below some parent. -/
inductive Listing (draft : Draft) :
    Nat → Option NodeId → List NodeId → List (NodeId × Option NodeId) → Prop
    where
  | nil {first : Nat} {parent : Option NodeId} :
      Listing draft first parent [] []
  | cons
      {first : Nat}
      {parent : Option NodeId}
      {id : NodeId}
      {slot : Slot}
      {rest : List NodeId}
      {below others : List (NodeId × Option NodeId)}
      (made : draft.slot? id = some slot)
      (children :
        Listing draft (first + 1) (some ⟨first⟩) slot.kind.children below)
      (siblings :
        Listing draft (first + 1 + below.length) parent rest others) :
      Listing draft first parent (id :: rest) ((id, parent) :: (below ++ others))

variable
    {origin : Cursor}
    {admits : Story → Prop}
    {draft : Draft}
    {low high first : Nat}
    {parent : Option NodeId}
    {seen roots nodes : List NodeId}
    {entries : List (NodeId × Option NodeId)}

/-- The trees of a forest can be written out. -/
theorem Forest.exists_listing
    (forest : Forest origin admits draft low high roots nodes)
    (first : Nat)
    (parent : Option NodeId) :
    ∃ entries,
      Listing draft first parent roots entries ∧
        entries.map Prod.fst = nodes := by
  induction forest generalizing first parent with
  | nil =>
      exact ⟨[], .nil, rfl⟩
  | cons made includes lies children siblings childrenHypothesis
      siblingsHypothesis =>
      obtain ⟨below, listsBelow, rfl⟩ :=
        childrenHypothesis (first + 1) (some ⟨first⟩)
      obtain ⟨others, listsOthers, rfl⟩ :=
        siblingsHypothesis (first + 1 + below.length) parent
      exact ⟨_, .cons made listsBelow listsOthers, by simp⟩

/-- A listing without repetitions is a walk that has seen none of its nodes. -/
theorem Listing.visits
    (listing : Listing draft first parent roots entries)
    (nodup : (entries.map Prod.fst).Nodup)
    (fresh : ∀ id ∈ entries.map Prod.fst, id ∉ seen) :
    Visits draft seen first parent roots entries := by
  induction listing generalizing seen with
  | nil =>
      exact .done
  | @cons first parent id slot rest below others made children siblings
      childrenHypothesis siblingsHypothesis =>
      simp only [List.map_cons, List.map_append, List.nodup_cons,
        List.mem_append, not_or, List.nodup_append'] at nodup
      obtain ⟨⟨notBelow, notBeside⟩, nodupBelow, nodupOthers, apart⟩ := nodup
      simp only [List.map_cons, List.map_append, List.forall_mem_cons,
        List.forall_mem_append] at fresh
      obtain ⟨isFresh, freshBelow, freshOthers⟩ := fresh
      refine
        .visit isFresh made (childrenHypothesis nodupBelow ?_)
          (siblingsHypothesis nodupOthers ?_)
      · intro other member known
        rcases List.mem_cons.mp known with rfl | older
        · exact notBelow member
        · exact freshBelow other member older
      · intro other member known
        rcases List.mem_append.mp known with isBelow | known
        · exact apart isBelow member
        · rcases List.mem_cons.mp known with rfl | older
          · exact notBeside member
          · exact freshOthers other member older

/-- The nodes of a forest are its roots and what stands directly below its nodes. -/
theorem Forest.perm_children
    (forest : Forest origin admits draft low high roots nodes) :
    nodes.Perm (roots ++ nodes.flatMap draft.childrenOf) := by
  induction forest with
  | nil =>
      exact .refl _
  | @cons low high id slot below rest others made includes lies children
      siblings childrenHypothesis siblingsHypothesis =>
      have ownChildren : draft.childrenOf id = slot.kind.children :=
        childrenOf_eq made
      rw [List.perm_iff_count] at childrenHypothesis siblingsHypothesis ⊢
      intro node
      have countBelow := childrenHypothesis node
      have countBeside := siblingsHypothesis node
      simp only [List.count_append] at countBelow countBeside
      simp only [List.flatMap_cons, List.flatMap_append, List.cons_append,
        List.count_cons, List.count_append, ownChildren]
      omega

/-- The nodes of a forest are what its roots reach. -/
theorem Forest.mem_iff_reaches
    (forest : Forest origin admits draft low high roots nodes)
    {id : NodeId} :
    id ∈ nodes ↔ ∃ root ∈ roots, draft.Reaches root id := by
  constructor
  · intro member
    induction forest with
    | nil =>
        cases member
    | @cons low high root slot below rest others made includes lies children
        siblings childrenHypothesis siblingsHypothesis =>
        rcases List.mem_cons.mp member with rfl | inside
        · exact ⟨id, List.mem_cons_self, .refl⟩
        · rcases List.mem_append.mp inside with isBelow | isBeside
          · obtain ⟨child, isChild, reaches⟩ := childrenHypothesis isBelow
            rw [← childrenOf_eq made] at isChild
            exact ⟨root, List.mem_cons_self, .head isChild reaches⟩
          · obtain ⟨other, isOther, reaches⟩ := siblingsHypothesis isBeside
            exact ⟨other, List.mem_cons_of_mem _ isOther, reaches⟩
  · rintro ⟨root, isRoot, reaches⟩
    induction reaches with
    | refl =>
        exact forest.mem_of_root isRoot
    | tail _ isChild inductionHypothesis =>
        obtain ⟨slot, made, closed⟩ := forest.knows _ inductionHypothesis
        rw [childrenOf_eq made] at isChild
        exact closed isChild

/-- Freezing numbers the nodes of a tree by their places in its listing. -/
theorem Holds.exists_listing
    {root : NodeId}
    (holds : Holds origin admits draft low high [root] nodes) :
    ∃ entries,
      Listing draft 0 none [root] entries ∧
        Visits draft [] 0 none [root] entries ∧
        entries.map Prod.fst = nodes := by
  obtain ⟨forest, nodup⟩ := holds
  obtain ⟨entries, listing, rfl⟩ := forest.exists_listing 0 none
  exact
    ⟨entries, listing, listing.visits nodup fun _ _ => List.not_mem_nil, rfl⟩

end InkSyntax.Draft
