import InkSyntax.Grammar.Divert
import InkSyntax.Proofs.Story.Arms
import InkSyntax.Proofs.Story.Casting

namespace InkSyntax

/-!
# The targets of a chain

A chain is arrows and targets in turn, and its nodes are to lead to its targets: each
is a divert of its own, or the one that a tunnel back out takes along.  A target is a
tunnel if another arrow follows it.
-/

/-- Different nodes, each of them a target that nothing follows yet. -/
structure Draft.HoldsTargets
    (draft : Draft)
    (ids : List NodeId) : Prop where
  nodup : ids.Nodup
  targets :
    ∀ id ∈ ids, ∃ link : Divert,
      draft.kind? id = some (.divert link) ∧
        link.isTunnel = false ∧
        link.isEmpty = false

/-- The targets that a node of a finished chain leads to. -/
def carriedBy
    (kind? : NodeId → Option StoryKind)
    (id : NodeId) :
    List NodeId :=
  match kind? id with
  | some (.divert link) => if link.isEmpty then [] else [id]
  | some (.tunnelOnwards after) => after.toList
  | _ => []

namespace Draft.HoldsTargets

variable
    {draft after : Draft}
    {ids touched : List NodeId}
    {id : NodeId}

theorem lt_size
    (holds : draft.HoldsTargets ids)
    (member : id ∈ ids) :
    id.index < draft.size := by
  obtain ⟨link, isTarget, -⟩ := holds.targets id member
  exact lt_size_of_kind? isTarget

theorem of_spares
    (holds : draft.HoldsTargets ids)
    (spares : Spares touched draft after)
    (apart : ids.Disjoint touched) :
    after.HoldsTargets ids where
  nodup := holds.nodup
  targets := by
    intro id member
    obtain ⟨link, isTarget, fresh⟩ := holds.targets id member
    exact ⟨link, spares.stays isTarget (apart member), fresh⟩

theorem of_adds
    (holds : draft.HoldsTargets ids)
    (spares : Spares [] draft after) :
    after.HoldsTargets ids :=
  holds.of_spares spares (List.disjoint_nil_right ids)

/-- A new target comes behind those that were there. -/
theorem snoc
    {link : Divert}
    (holds : draft.HoldsTargets ids)
    (spares : Spares [] draft after)
    (isNew : draft.size ≤ id.index)
    (isTarget : after.kind? id = some (.divert link))
    (noTunnel : link.isTunnel = false)
    (notEmpty : link.isEmpty = false) :
    after.HoldsTargets (ids ++ [id]) where
  nodup := by
    apply List.nodup_append.mpr
    refine ⟨holds.nodup, List.pairwise_singleton _ id, ?_⟩
    intro other member last isLast same
    rw [List.mem_singleton.mp isLast] at same
    rw [same] at member
    exact Nat.not_lt_of_le isNew (holds.lt_size member)
  targets := by
    intro other member
    rcases List.mem_append.mp member with before | isLast
    · exact (holds.of_adds spares).targets other before
    · rw [List.mem_singleton.mp isLast]
      exact ⟨link, isTarget, noTunnel, notEmpty⟩

/-- The first of some targets, and the others. -/
theorem uncons
    (holds : draft.HoldsTargets (id :: ids)) :
    (∃ link : Divert,
        draft.kind? id = some (.divert link) ∧
          link.isTunnel = false ∧
          link.isEmpty = false) ∧
      draft.HoldsTargets ids ∧
      id ∉ ids := by
  obtain ⟨notLater, nodup⟩ := List.nodup_cons.mp holds.nodup
  refine ⟨holds.targets id List.mem_cons_self, ⟨nodup, ?_⟩, notLater⟩
  intro other member
  exact holds.targets other (List.mem_cons_of_mem id member)

end Draft.HoldsTargets

namespace Grammar

/-- The targets of a chain, in order. -/
def targetsOf (links : List Link) : List NodeId :=
  links.filterMap fun link =>
    match link with
    | .target divert => some divert
    | .arrow _ => none

/-- Arrows and targets in turn, an arrow first or a target first. -/
def InTurn : Bool → List Link → Prop
  | _, [] => True
  | true, .arrow _ :: rest => InTurn false rest
  | false, .target _ :: rest => InTurn true rest
  | _, _ => False

/-- A double arrow begins a chain of more than two links. -/
def LeadsPastOnwards (links : List Link) : Prop :=
  links.head? = some (.arrow .onwards) ∧ 2 < links.length

instance (links : List Link) : Decidable (LeadsPastOnwards links) :=
  inferInstanceAs
    (Decidable (links.head? = some (.arrow .onwards) ∧ 2 < links.length))

/--
The nodes for a chain lose none of its targets: they lead to each of them once and in
order, a tunnel back out is the last of them, and a target is a tunnel if and only if
an arrow follows it.
-/
structure KeepsTargets
    (kind? : NodeId → Option StoryKind)
    (links : List Link)
    (nodes : List NodeId) : Prop where
  inOrder : nodes.flatMap (carriedBy kind?) = targetsOf links
  once : (targetsOf links).Nodup
  onwardsLast :
    ∀ node ∈ nodes.dropLast, ∀ target,
      kind? node ≠ some (.tunnelOnwards target)
  tunnels :
    ∀ {front behind : List Link} {divert : NodeId},
      links = front ++ .target divert :: behind →
        ∃ link : Divert,
          kind? divert = some (.divert link) ∧
            (link.isTunnel = true ↔ ∃ arrow, Link.arrow arrow ∈ behind)

variable
    {kind? : NodeId → Option StoryKind}
    {links : List Link}
    {nodes : List NodeId}

theorem keepsTargets_nil :
    KeepsTargets kind? [] [] where
  inOrder := rfl
  once := List.nodup_nil
  onwardsLast := by simp
  tunnels := by simp

/-- A single arrow adds nothing to what follows it. -/
theorem KeepsTargets.plain
    (keeps : KeepsTargets kind? links nodes) :
    KeepsTargets kind? (.arrow .plain :: links) nodes where
  inOrder := keeps.inOrder
  once := keeps.once
  onwardsLast := keeps.onwardsLast
  tunnels := by
    intro front behind divert split
    cases front with
    | nil =>
        cases split
    | cons link front =>
        obtain ⟨-, split⟩ := List.cons.inj split
        exact keeps.tunnels split

/-- A target that is a tunnel if an arrow comes next leads on to what follows it. -/
theorem KeepsTargets.target
    {divert : NodeId}
    {link : Divert}
    (keeps : KeepsTargets kind? links nodes)
    (inTurn : InTurn true links)
    (isTarget : kind? divert = some (.divert link))
    (notEmpty : link.isEmpty = false)
    (isTunnel : link.isTunnel = !links.isEmpty)
    (notLater : divert ∉ targetsOf links) :
    KeepsTargets kind? (.target divert :: links) (divert :: nodes) where
  inOrder := by
    have own : carriedBy kind? divert = [divert] := by
      simp [carriedBy, isTarget, notEmpty]
    rw [List.flatMap_cons, own, keeps.inOrder]
    rfl
  once := List.nodup_cons.mpr ⟨notLater, keeps.once⟩
  onwardsLast := by
    cases nodes with
    | nil =>
        simp
    | cons next nodes =>
        intro node member
        rcases List.mem_cons.mp member with rfl | later
        · simp [isTarget]
        · exact keeps.onwardsLast node later
  tunnels := by
    intro front behind other split
    cases front with
    | nil =>
        obtain ⟨same, rfl⟩ := List.cons.inj split
        cases same
        refine ⟨link, isTarget, ?_⟩
        rw [isTunnel]
        -- What follows a target is an arrow, if anything does.
        match links, inTurn with
        | [], _ =>
            simp
        | .arrow arrow :: _, _ =>
            simp
    | cons first front =>
        obtain ⟨-, split⟩ := List.cons.inj split
        exact keeps.tunnels split

/-- A double arrow takes along the one target behind it, if there is one. -/
theorem KeepsTargets.onwards
    {onwards : NodeId}
    {rest : List Link}
    (inTurn : InTurn false rest)
    (short : rest.length ≤ 1)
    (isOnwards :
      kind? onwards = some (.tunnelOnwards (targetsOf rest).head?))
    (targets :
      ∀ id ∈ targetsOf rest, ∃ link : Divert,
        kind? id = some (.divert link) ∧ link.isTunnel = false) :
    KeepsTargets kind? (.arrow .onwards :: rest) [onwards] := by
  match rest, inTurn, short with
  | [], _, _ =>
      exact
        { inOrder := by simp [carriedBy, isOnwards, targetsOf]
          once := List.nodup_nil
          onwardsLast := by simp
          tunnels := by
            intro front behind divert split
            have member : Link.target divert ∈ [.arrow .onwards] := by
              simp [split]
            simp at member }
  | [.target divert], _, _ =>
      obtain ⟨link, isTarget, noTunnel⟩ := targets divert List.mem_cons_self
      exact
        { inOrder := by simp [carriedBy, isOnwards, targetsOf]
          once := List.pairwise_singleton _ divert
          onwardsLast := by simp
          tunnels := by
            intro front behind other split
            match front, split with
            | [_], split =>
                obtain ⟨-, split⟩ := List.cons.inj split
                obtain ⟨same, rfl⟩ := List.cons.inj split
                cases same
                exact ⟨link, isTarget, by simp [noTunnel]⟩
            | _ :: _ :: front, split =>
                have empty := (List.cons.inj (List.cons.inj split).2).2
                simp at empty }

/-- Nodes before those of a chain that lead nowhere are neither here nor there. -/
theorem keepsTargets_append_iff
    {markers : List NodeId}
    (nowhere :
      ∀ marker ∈ markers, kind? marker = some (.tag false)) :
    KeepsTargets kind? links (markers ++ nodes) ↔
      KeepsTargets kind? links nodes := by
  have carriesNothing : markers.flatMap (carriedBy kind?) = [] := by
    apply List.flatMap_eq_nil_iff.mpr
    intro marker member
    simp [carriedBy, nowhere marker member]
  have notOnwards
      (node : NodeId)
      (member : node ∈ markers)
      (target : Option NodeId) :
      kind? node ≠ some (.tunnelOnwards target) := by
    simp [nowhere node member]
  constructor
  · intro keeps
    refine ⟨?_, keeps.once, ?_, keeps.tunnels⟩
    · simpa [carriesNothing] using keeps.inOrder
    · intro node member
      apply keeps.onwardsLast node
      cases nodes with
      | nil =>
          cases member
      | cons next nodes =>
          rw [List.dropLast_append_of_ne_nil (List.cons_ne_nil next nodes)]
          exact List.mem_append_right markers member
  · intro keeps
    refine ⟨?_, keeps.once, ?_, keeps.tunnels⟩
    · simpa [carriesNothing] using keeps.inOrder
    · intro node member
      cases nodes with
      | nil =>
          rw [List.append_nil] at member
          exact notOnwards node (List.dropLast_subset markers member)
      | cons next nodes =>
          rw [List.dropLast_append_of_ne_nil (List.cons_ne_nil next nodes)]
            at member
          rcases List.mem_append.mp member with isMarker | later
          · exact notOnwards node isMarker
          · exact keeps.onwardsLast node later

/-- Behind a first double arrow an arrow may follow a target that is no tunnel. -/
theorem not_keepsTargets
    (past : LeadsPastOnwards links)
    (inTurn : InTurn true links)
    (targets :
      ∀ id ∈ targetsOf links, ∃ link : Divert,
        kind? id = some (.divert link) ∧ link.isTunnel = false) :
    ¬ KeepsTargets kind? links nodes := by
  intro keeps
  obtain ⟨isOnwards, isLong⟩ := past
  match links, inTurn with
  | [_, _], _ =>
      simp at isLong
  | .arrow first :: .target divert :: .arrow next :: rest, _ =>
      have split :
          Link.arrow first :: .target divert :: .arrow next :: rest =
            [.arrow first] ++ .target divert :: .arrow next :: rest :=
        rfl
      obtain ⟨link, isTarget, isTunnel⟩ := keeps.tunnels split
      obtain ⟨other, isOther, noTunnel⟩ := targets divert List.mem_cons_self
      cases isTarget.symm.trans isOther
      rw [isTunnel.mpr ⟨next, List.mem_cons_self⟩] at noTunnel
      cases noTunnel

/-- An arrow alone keeps all targets, as there are none. -/
theorem keepsTargets_empty
    {arrow : Arrow}
    {empty : NodeId}
    {link : Divert}
    (isEmpty : kind? empty = some (.divert link))
    (leadsNowhere : link.isEmpty = true) :
    KeepsTargets kind? [.arrow arrow] [empty] where
  inOrder := by simp [carriedBy, isEmpty, leadsNowhere, targetsOf]
  once := List.nodup_nil
  onwardsLast := by simp
  tunnels := by
    intro front behind divert split
    have member : Link.target divert ∈ [.arrow arrow] := by
      simp [split]
    simp at member

end Grammar

end InkSyntax
