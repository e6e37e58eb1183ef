import InkSyntax.Proofs.Story.Growth
import InkSyntax.Proofs.Story.Roles

namespace InkSyntax

/-!
# Trees whose nodes play their roles

Some nodes of a draft are the roots of trees in which every node plays the role
that the node above has for it.  Like the forests of `InkSyntax.Proofs.Story.Forest`
such trees share no node, and whatever happens elsewhere in the draft leaves them
alone.
-/

namespace Draft

variable {draft before middle after : Draft}

/-- Roots of trees in their roles, and all nodes of these trees in order. -/
inductive Cast (draft : Draft) : List Part → List NodeId → Prop where
  | nil :
      Cast draft [] []
  | cons
      {id : NodeId}
      {role : Role}
      {kind : StoryKind}
      {rest : List Part}
      {below others : List NodeId}
      (isKind : draft.kind? id = some kind)
      (admits : role.Admits kind)
      (children : Cast draft (role.demands kind) below)
      (siblings : Cast draft rest others) :
      Cast draft ((id, role) :: rest) (id :: (below ++ others))

/-- Trees in their roles in which no node stands twice. -/
structure Plays
    (draft : Draft)
    (parts : List Part)
    (nodes : List NodeId) : Prop where
  cast : Cast draft parts nodes
  nodup : nodes.Nodup

/-- A draft grew out of some nodes of it, and now plays parts with these and new nodes. -/
structure Recasts
    (nodes : List NodeId)
    (before after : Draft)
    (parts : List Part) : Prop where
  spares : Spares nodes before after
  plays :
    ∃ found,
      Plays after parts found ∧
        ∀ id ∈ found, id ∈ nodes ∨ before.size ≤ id.index

theorem Spares.stays
    {touched : List NodeId}
    (spares : Spares touched before after)
    {id : NodeId}
    {kind : StoryKind}
    (isKind : before.kind? id = some kind)
    (untouched : id ∉ touched) :
    after.kind? id = some kind := by
  obtain ⟨slot, made, isSlotKind⟩ := Option.map_eq_some_iff.mp isKind
  rw [Draft.kind?, spares.slot? id (lt_size_of_slot? made) untouched, made,
    Option.map_some, isSlotKind]

namespace Cast

variable
    {parts : List Part}
    {nodes : List NodeId}

theorem mem_of_root
    (cast : Cast draft parts nodes)
    {id : NodeId}
    (root : id ∈ parts.map Prod.fst) :
    id ∈ nodes := by
  induction cast with
  | nil =>
      exact root
  | cons isKind admits children siblings _ siblingsHypothesis =>
      rcases List.mem_cons.mp root with rfl | later
      · exact List.mem_cons_self
      · exact
          List.mem_cons_of_mem _
            (List.mem_append_right _ (siblingsHypothesis later))

/-- A root is a node that suits its role. -/
theorem exists_kind_of_root
    (cast : Cast draft parts nodes)
    {part : Part}
    (root : part ∈ parts) :
    ∃ kind, draft.kind? part.1 = some kind ∧ part.2.Admits kind := by
  induction cast with
  | nil =>
      cases root
  | @cons id role kind _ _ _ isKind admits children siblings _
      siblingsHypothesis =>
      rcases List.mem_cons.mp root with rfl | later
      · exact ⟨kind, isKind, admits⟩
      · exact siblingsHypothesis later

/-- Every node of such trees plays some role, and so do those below it. -/
theorem exists_role
    (cast : Cast draft parts nodes)
    {id : NodeId}
    (member : id ∈ nodes) :
    ∃ (role : Role) (kind : StoryKind),
      draft.kind? id = some kind ∧
        role.Admits kind ∧
        (role.demands kind).map Prod.fst ⊆ nodes ∧
        ∀ part ∈ role.demands kind,
          ∃ child, draft.kind? part.1 = some child ∧ part.2.Admits child := by
  induction cast with
  | nil =>
      cases member
  | @cons root role kind rest below others isKind admits children siblings
      childrenHypothesis siblingsHypothesis =>
      rcases List.mem_cons.mp member with rfl | inside
      · refine ⟨role, kind, isKind, admits, fun child isChild => ?_, ?_⟩
        · have isBelow := children.mem_of_root isChild
          exact List.mem_cons_of_mem _ (List.mem_append_left _ isBelow)
        · exact fun part isPart => children.exists_kind_of_root isPart
      · rcases List.mem_append.mp inside with isBelow | isBeside
        · obtain ⟨role, kind, isKind, admits, among, play⟩ :=
            childrenHypothesis isBelow
          refine
            ⟨role, kind, isKind, admits, fun child isChild => ?_, play⟩
          exact
            List.mem_cons_of_mem _ (List.mem_append_left _ (among isChild))
        · obtain ⟨role, kind, isKind, admits, among, play⟩ :=
            siblingsHypothesis isBeside
          refine
            ⟨role, kind, isKind, admits, fun child isChild => ?_, play⟩
          exact
            List.mem_cons_of_mem _ (List.mem_append_right _ (among isChild))

/-- The nodes of such trees are known to be there, with all that is below them. -/
theorem knows
    (cast : Cast draft parts nodes) :
    draft.Knows nodes := by
  intro id member
  obtain ⟨role, kind, isKind, -, among, -⟩ := cast.exists_role member
  obtain ⟨slot, made, rfl⟩ := Option.map_eq_some_iff.mp isKind
  exact ⟨slot, made, by rwa [Role.map_fst_demands] at among⟩

theorem lt_size
    (cast : Cast draft parts nodes)
    {id : NodeId}
    (member : id ∈ nodes) :
    id.index < draft.size := by
  obtain ⟨slot, made, -⟩ := cast.knows id member
  exact lt_size_of_slot? made

/-- Trees stay in their roles as long as their nodes stay what they are. -/
theorem congr
    (cast : Cast draft parts nodes)
    (stays :
      ∀ id ∈ nodes, ∀ kind,
        draft.kind? id = some kind → after.kind? id = some kind) :
    Cast after parts nodes := by
  induction cast with
  | nil =>
      exact .nil
  | cons isKind admits children siblings childrenHypothesis
      siblingsHypothesis =>
      refine
        .cons (stays _ List.mem_cons_self _ isKind) admits
          (childrenHypothesis fun id below => ?_)
          (siblingsHypothesis fun id beside => ?_)
      · exact
          stays id (List.mem_cons_of_mem _ (List.mem_append_left _ below))
      · exact
          stays id (List.mem_cons_of_mem _ (List.mem_append_right _ beside))

theorem spared
    {touched : List NodeId}
    (cast : Cast draft parts nodes)
    (spares : draft.Spares touched after)
    (untouched : ∀ id ∈ nodes, id ∉ touched) :
    Cast after parts nodes :=
  cast.congr fun id member _ isKind =>
    spares.stays isKind (untouched id member)

theorem append
    {moreParts : List Part}
    {moreNodes : List NodeId}
    (cast : Cast draft parts nodes)
    (more : Cast draft moreParts moreNodes) :
    Cast draft (parts ++ moreParts) (nodes ++ moreNodes) := by
  induction cast with
  | nil =>
      exact more
  | cons isKind admits children siblings _ siblingsHypothesis =>
      simp only [List.cons_append, List.append_assoc]
      exact .cons isKind admits children siblingsHypothesis

theorem exists_append
    {first second : List Part}
    (cast : Cast draft (first ++ second) nodes) :
    ∃ firstNodes secondNodes,
      nodes = firstNodes ++ secondNodes ∧
        Cast draft first firstNodes ∧
        Cast draft second secondNodes := by
  induction first generalizing nodes with
  | nil =>
      exact ⟨[], nodes, rfl, .nil, cast⟩
  | cons part rest inductionHypothesis =>
      cases cast with
      | cons isKind admits children siblings =>
          obtain ⟨firstNodes, secondNodes, rfl, firstCast, secondCast⟩ :=
            inductionHypothesis siblings
          refine
            ⟨_, secondNodes, ?_, .cons isKind admits children firstCast,
              secondCast⟩
          simp

/-- The order of the roots does not matter. -/
theorem perm
    {others : List Part}
    (cast : Cast draft parts nodes)
    (same : parts.Perm others) :
    ∃ found, Cast draft others found ∧ nodes.Perm found := by
  induction same generalizing nodes with
  | nil =>
      exact ⟨nodes, cast, .refl nodes⟩
  | cons part _ inductionHypothesis =>
      cases cast with
      | @cons id _ _ _ below _ isKind admits children siblings =>
          obtain ⟨found, standing, same⟩ := inductionHypothesis siblings
          exact
            ⟨_, .cons isKind admits children standing,
              (same.append_left below).cons id⟩
  | swap second first rest =>
      cases cast with
      | @cons _ _ _ _ below _ isKind admits children siblings =>
          cases siblings with
          | @cons _ _ _ _ below' others isKind' admits' children' siblings' =>
              refine
                ⟨_, .cons isKind' admits' children'
                  (.cons isKind admits children siblings'), ?_⟩
              rw [List.perm_iff_count]
              intro id
              simp only [List.count_cons, List.count_append]
              omega
  | trans _ _ firstHypothesis secondHypothesis =>
      obtain ⟨found, standing, same⟩ := firstHypothesis cast
      obtain ⟨found', standing', same'⟩ := secondHypothesis standing
      exact ⟨found', standing', same.trans same'⟩

/-- Some trees in their roles are such trees again. -/
theorem subperm
    {some : List Part}
    (cast : Cast draft parts nodes)
    (among : some.Subperm parts) :
    ∃ found, Cast draft some found ∧ found.Subperm nodes := by
  obtain ⟨ordered, reordered, sublist⟩ := among
  obtain ⟨others, split⟩ := sublist.exists_perm_append
  obtain ⟨found, standing, sameNodes⟩ :=
    cast.perm (split.trans (reordered.append_right others))
  obtain ⟨someNodes, otherNodes, rfl, someCast, -⟩ := standing.exists_append
  exact
    ⟨someNodes, someCast,
      ((List.sublist_append_left _ _).subperm).trans
        sameNodes.symm.subperm⟩

/-- Roots may play other roles if what they are is good for these too. -/
theorem become
    {others : List Part}
    (cast : Cast draft parts nodes)
    (become :
      List.Forall₂
        (fun part other =>
          part.1 = other.1 ∧
            ∀ kind,
              draft.kind? part.1 = some kind →
              part.2.Admits kind →
              other.2.Admits kind ∧
                other.2.demands kind = part.2.demands kind)
        parts others) :
    Cast draft others nodes := by
  induction become generalizing nodes with
  | nil =>
      exact cast
  | @cons part other _ _ becomes _ inductionHypothesis =>
      obtain ⟨id, role⟩ := part
      obtain ⟨id', role'⟩ := other
      obtain ⟨rfl, becomes⟩ := becomes
      cases cast with
      | cons isKind admits children siblings =>
          obtain ⟨admitsOther, sameDemands⟩ := becomes _ isKind admits
          refine .cons isKind admitsOther ?_ (inductionHypothesis siblings)
          rwa [sameDemands]

end Cast

namespace Plays

variable
    {parts : List Part}
    {nodes : List NodeId}

theorem nil : Plays draft [] [] :=
  ⟨.nil, List.nodup_nil⟩

theorem subperm
    {some : List Part}
    (plays : Plays draft parts nodes)
    (among : some.Subperm parts) :
    ∃ found, Plays draft some found ∧ found.Subperm nodes := by
  obtain ⟨found, cast, fewer⟩ := plays.cast.subperm among
  obtain ⟨ordered, reordered, sublist⟩ := fewer
  have nodup := reordered.nodup (sublist.nodup plays.nodup)
  exact ⟨found, ⟨cast, nodup⟩, ordered, reordered, sublist⟩

theorem exists_append
    {first second : List Part}
    (plays : Plays draft (first ++ second) nodes) :
    ∃ firstNodes secondNodes,
      nodes = firstNodes ++ secondNodes ∧
        Plays draft first firstNodes ∧
        Plays draft second secondNodes ∧
        firstNodes.Disjoint secondNodes := by
  obtain ⟨cast, nodup⟩ := plays
  obtain ⟨firstNodes, secondNodes, rfl, firstCast, secondCast⟩ :=
    cast.exists_append
  obtain ⟨firstNodup, secondNodup, apart⟩ := List.nodup_append'.mp nodup
  exact
    ⟨firstNodes, secondNodes, rfl, ⟨firstCast, firstNodup⟩,
      ⟨secondCast, secondNodup⟩, apart⟩

/-- Without the first root, the trees below it play their parts on their own. -/
theorem exists_demands
    {id : NodeId}
    {role : Role}
    {rest : List Part}
    (plays : Plays draft ((id, role) :: rest) nodes) :
    ∃ kind found,
      draft.kind? id = some kind ∧
        role.Admits kind ∧
        nodes = id :: found ∧
        Plays draft (role.demands kind ++ rest) found := by
  obtain ⟨cast, nodup⟩ := plays
  cases cast with
  | @cons _ _ kind _ below others isKind admits children siblings =>
      exact
        ⟨kind, below ++ others, isKind, admits, rfl, .append children siblings,
          (List.nodup_cons.mp nodup).2⟩

/-- What a draft plays it plays after doing nothing. -/
theorem recasts
    (plays : Plays draft parts nodes) :
    Recasts nodes draft draft parts :=
  ⟨.refl _ _, nodes, plays, fun _ member => .inl member⟩

/-- A draft in which all nodes stay what they are plays the same parts. -/
theorem recasts_of_kinds
    {touched : List NodeId}
    (plays : Plays draft parts nodes)
    (spares : Spares touched draft after)
    (among : touched ⊆ nodes)
    (same : after.kinds = draft.kinds) :
    Recasts nodes draft after parts := by
  refine
    ⟨spares.mono fun id touches _ => among touches, nodes,
      ⟨plays.cast.congr fun id _ kind isKind => ?_, plays.nodup⟩,
      fun _ member => .inl member⟩
  rwa [kind?_eq_getElem?, same, ← kind?_eq_getElem?]

/-- A new node on top of the parts that it has for others. -/
theorem recasts_add
    {kind : StoryKind}
    {role : Role}
    {span : Option Span}
    (plays : Plays draft (role.demands kind) nodes)
    (admits : role.Admits kind) :
    Recasts nodes draft (draft.add kind span).2
      [((draft.add kind span).1, role)] := by
  have spares := spares_add draft kind span
  have isKind : (draft.add kind span).2.kind? ⟨draft.size⟩ = some kind := by
    rw [kind?, slot?_add, Option.map_some]
  refine
    ⟨spares.mono (by simp), ⟨draft.size⟩ :: (nodes ++ []),
      ⟨.cons isKind admits (plays.cast.spared spares (by simp)) .nil, ?_⟩, ?_⟩
  · rw [List.append_nil]
    refine List.nodup_cons.mpr ⟨fun member => ?_, plays.nodup⟩
    exact Nat.lt_irrefl _ (plays.cast.lt_size member)
  · intro id member
    rw [List.append_nil] at member
    rcases List.mem_cons.mp member with rfl | below
    · exact .inr (Nat.le_refl _)
    · exact .inl below

/-- A root that is changed may play another role, and take in the roots behind it. -/
theorem recasts_modify
    {id : NodeId}
    {role other : Role}
    {rest : List Part}
    {change : StoryKind → StoryKind}
    (adopted : List Part)
    (plays : Plays draft ((id, role) :: (adopted ++ rest)) nodes)
    (admits :
      ∀ kind,
        role.Admits kind →
        other.Admits (change kind) ∧
          other.demands (change kind) = role.demands kind ++ adopted) :
    Recasts nodes draft (draft.modify id change) ((id, other) :: rest) := by
  obtain ⟨cast, nodup⟩ := plays
  have spares := spares_modify draft id change
  cases cast with
  | @cons _ _ kind _ below others isKind isAdmitted children siblings =>
      obtain ⟨notInside, nodupInside⟩ := List.nodup_cons.mp nodup
      obtain ⟨taken, others, rfl, adopts, siblings⟩ := siblings.exists_append
      have untouched : ∀ node ∈ below ++ (taken ++ others), node ∉ [id] := by
        intro node member isId
        rw [List.mem_singleton.mp isId] at member
        exact notInside member
      have changed : (draft.modify id change).kind? id = some (change kind) := by
        obtain ⟨slot, made, rfl⟩ := Option.map_eq_some_iff.mp isKind
        rw [kind?, slot?_modify, made]
        rfl
      obtain ⟨admitsChanged, sameBelow⟩ := admits kind isAdmitted
      refine
        ⟨spares.mono ?_, id :: ((below ++ taken) ++ others),
          ⟨.cons changed admitsChanged ?_ ?_, ?_⟩, fun _ member => .inl ?_⟩
      · intro node isId _
        rw [List.mem_singleton.mp isId]
        exact List.mem_cons_self
      · rw [sameBelow]
        refine (children.append adopts).spared spares fun node member => ?_
        exact untouched node (by grind)
      · exact
          siblings.spared spares fun node member =>
            untouched node (by grind)
      · rwa [List.append_assoc]
      · rwa [List.append_assoc] at member

/-- One of the roots is changed, and plays its role as before. -/
theorem recasts_modify_of_mem
    {id : NodeId}
    {role : Role}
    {change : StoryKind → StoryKind}
    (plays : Plays draft parts nodes)
    (root : (id, role) ∈ parts)
    (admits :
      ∀ kind,
        role.Admits kind →
        role.Admits (change kind) ∧
          role.demands (change kind) = role.demands kind) :
    Recasts nodes draft (draft.modify id change) parts := by
  have ahead : parts.Perm ((id, role) :: parts.erase (id, role)) :=
    List.perm_cons_erase root
  obtain ⟨found, playsAhead, fewer⟩ := plays.subperm ahead.symm.subperm
  have recasts :
      Recasts found draft (draft.modify id change)
        ((id, role) :: parts.erase (id, role)) :=
    Plays.recasts_modify [] playsAhead (by simpa using admits)
  obtain ⟨spares, again, playsAgain, known⟩ := recasts
  obtain ⟨back, playsBack, fewerBack⟩ := playsAgain.subperm ahead.subperm
  refine
    ⟨spares.mono fun node member _ => fewer.subset member, back, playsBack,
      fun node member => ?_⟩
  exact (known node (fewerBack.subset member)).imp_left fun old => fewer.subset old

end Plays

namespace Recasts

variable
    {parts : List Part}
    {nodes : List NodeId}

theorem mono
    {more : List NodeId}
    (recasts : Recasts nodes before after parts)
    (subset : nodes ⊆ more) :
    Recasts more before after parts := by
  obtain ⟨spares, found, plays, known⟩ := recasts
  exact
    ⟨spares.mono fun id member _ => subset member, found, plays,
      fun id member => (known id member).imp_left fun old => subset old⟩

theorem subperm
    {some : List Part}
    (recasts : Recasts nodes before after parts)
    (among : some.Subperm parts) :
    Recasts nodes before after some := by
  obtain ⟨spares, found, plays, known⟩ := recasts
  obtain ⟨fewer, playsFewer, subperm⟩ := plays.subperm among
  exact
    ⟨spares, fewer, playsFewer, fun id member =>
      known id (subperm.subset member)⟩

/-- Roots may play other roles that theirs serve for. -/
theorem serve
    {others : List Part}
    (recasts : Recasts nodes before after parts)
    (serve :
      List.Forall₂ (fun part other => part.1 = other.1 ∧ part.2.Serves other.2)
        parts others) :
    Recasts nodes before after others := by
  obtain ⟨spares, found, plays, known⟩ := recasts
  refine ⟨spares, found, ⟨plays.cast.become ?_, plays.nodup⟩, known⟩
  exact
    serve.imp fun _ _ ⟨same, serves⟩ =>
      ⟨same, fun kind _ admits => serves kind admits⟩

/-- A growth goes on from nodes that another one was given or made. -/
theorem trans
    {found : List NodeId}
    (spares : Spares nodes before middle)
    (known : ∀ id ∈ found, id ∈ nodes ∨ before.size ≤ id.index)
    (recasts : Recasts found middle after parts) :
    Recasts nodes before after parts := by
  obtain ⟨sparesThen, foundThen, playsThen, knownThen⟩ := recasts
  refine
    ⟨spares.follow known sparesThen, foundThen, playsThen,
      fun id member => ?_⟩
  rcases knownThen id member with kept | made
  · exact known id kept
  · exact .inr (Nat.le_trans spares.size_le made)

/-- Parts that a growth was not given are played beside those that it gives. -/
theorem beside
    {kept : List Part}
    {keptNodes : List NodeId}
    (recasts : Recasts nodes before after parts)
    (plays : Plays before kept keptNodes)
    (apart : nodes.Disjoint keptNodes) :
    Recasts (nodes ++ keptNodes) before after (parts ++ kept) := by
  obtain ⟨spares, found, playsFound, known⟩ := recasts
  have stands : Cast after kept keptNodes :=
    plays.cast.spared spares fun id member touched => apart touched member
  have foundApart : found.Disjoint keptNodes := by
    intro id isFound isKept
    rcases known id isFound with old | made
    · exact apart old isKept
    · have old := plays.cast.lt_size isKept
      omega
  refine
    ⟨spares.mono fun id member _ => List.mem_append_left _ member,
      found ++ keptNodes, ⟨playsFound.cast.append stands, ?_⟩,
      fun id member => ?_⟩
  · exact
      List.nodup_append'.mpr ⟨playsFound.nodup, plays.nodup, foundApart⟩
  · rcases List.mem_append.mp member with isFound | isKept
    · exact (known id isFound).imp_left fun old => List.mem_append_left _ old
    · exact .inl (List.mem_append_right _ isKept)

end Recasts

end Draft

end InkSyntax
