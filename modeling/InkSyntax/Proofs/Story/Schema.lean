import InkSyntax.Proofs.Story.Casting
import InkSyntax.Proofs.Story.FrozenGathers

namespace InkSyntax

/-!
# The schema of stories

The roles of the nodes in a draft are one certificate for all of them: each node
suits the role that is noted for it, and the roles that it has for others are noted
too.  Freezing renames the certificate along with the nodes.  In a tree every node
but the root is called by its parent, so what the kinds of nodes say about the
roles below them says where each kind of node can stand.
-/

/-- Nodes suit the roles noted for them, and so do those below them. -/
def ArePlayed
    (kind? : NodeId → Option StoryKind)
    (roles : List Part) : Prop :=
  ∀ part ∈ roles,
    ∃ kind,
      kind? part.1 = some kind ∧
        part.2.suits kind = true ∧
        kind.IsProper ∧
        part.2.demands kind ⊆ roles

theorem ArePlayed.append
    {kind? : NodeId → Option StoryKind}
    {first second : List Part}
    (areFirst : ArePlayed kind? first)
    (areSecond : ArePlayed kind? second) :
    ArePlayed kind? (first ++ second) := by
  intro part member
  rcases List.mem_append.mp member with isFirst | isSecond
  · obtain ⟨kind, isKind, suits, proper, below⟩ := areFirst part isFirst
    exact
      ⟨kind, isKind, suits, proper,
        List.Subset.trans below (List.subset_append_left _ _)⟩
  · obtain ⟨kind, isKind, suits, proper, below⟩ := areSecond part isSecond
    exact
      ⟨kind, isKind, suits, proper,
        List.Subset.trans below (List.subset_append_right _ _)⟩

section Demands

variable
    {σ : Type}
    {role own : Role}
    {kind : NodeKind σ}
    {part : Part}
    {id : NodeId}

theorem Role.mem_parts
    {ids : List NodeId} :
    part ∈ role.parts ids ↔ part.1 ∈ ids ∧ part.2 = role := by
  obtain ⟨id, other⟩ := part
  simp [Role.parts, eq_comm]

theorem Role.mem_parts_of_mem
    {ids : List NodeId}
    (member : id ∈ ids) :
    (id, role) ∈ role.parts ids :=
  Role.mem_parts.mpr ⟨member, rfl⟩

/-- Roles are those that the kind of node has for others, but a line feed ends a line. -/
theorem Role.mem_parts_of_demands
    (demanded : part ∈ role.demands kind) :
    part ∈ kind.parts ∨ part.2 = .lineFeed := by
  unfold Role.demands at demanded
  split at demanded
  next content =>
    rcases List.mem_append.mp demanded with isContent | isLast
    · obtain ⟨isIn, isContent⟩ := Role.mem_parts.mp isContent
      exact .inl (Role.mem_parts.mpr ⟨List.dropLast_subset _ isIn, isContent⟩)
    · exact .inr (Role.mem_parts.mp isLast).2
  next =>
    exact .inl demanded

/-- A role that the kind of a node has for another one is that, or serves for it. -/
theorem Role.exists_demand
    (role : Role)
    (isPart : part ∈ kind.parts) :
    ∃ own : Role,
      (part.1, own) ∈ role.demands kind ∧
        ∀ child : StoryKind, own.suits child = true → part.2.suits child = true := by
  by_cases isLine : role = .line
  · subst isLine
    cases kind with
    | contentList content =>
        obtain ⟨isIn, isContent⟩ := Role.mem_parts.mp isPart
        rw [isContent]
        rw [← Role.dropLast_append_getLast?_toList content] at isIn
        rcases List.mem_append.mp isIn with isEarlier | isLast
        · refine ⟨.content, ?_, fun child suits => suits⟩
          exact
            List.mem_append_left _ (Role.mem_parts_of_mem isEarlier)
        · refine ⟨.lineFeed, ?_, fun child suits => ?_⟩
          · exact List.mem_append_right _ (Role.mem_parts_of_mem isLast)
          · cases child <;> first | rfl | cases suits
    | _ => exact ⟨part.2, isPart, fun child suits => suits⟩
  · refine ⟨part.2, ?_, fun child suits => suits⟩
    rwa [Role.demands_eq_parts isLine]

/-- What the node above one in some role must be. -/
def Role.StandsBelow (kind : NodeKind σ) (id : NodeId) : Role → Prop
  | .division place =>
      (∃ content, kind = .story content ∧ place = .top) ∨
        ∃ outer, kind = .flow outer ∧ place = outer.level.place
  | .woven => ∃ content base, kind = .weave content base
  | .branch => ∃ subject branches, kind = .conditional subject branches ∧ id ∈ branches
  | .statement place => place = .block
  | .story | .unfinished => False
  | _ => True

/-- Only flows and stories are divided, only weaves hold what is woven, and so on. -/
theorem Role.standsBelow_of_demands
    (demanded : (id, own) ∈ role.demands kind) :
    own.StandsBelow kind id := by
  rcases Role.mem_parts_of_demands demanded with isPart | isLineFeed
  · cases kind <;>
      simp only [NodeKind.parts, List.mem_append, List.mem_cons, Role.mem_parts,
        List.not_mem_nil, Prod.mk.injEq] at isPart <;>
      grind [Role.StandsBelow]
  · rw [show own = .lineFeed from isLineFeed]
    trivial

end Demands

section Copies

variable
    {σ : Type}
    {kind : NodeKind σ}
    (rename : NodeId → NodeId)
    (keep : NodeId → Bool)

/-- The same role for the same node under another number. -/
def renamed (part : Part) : Part :=
  (rename part.1, part.2)

theorem Role.parts_map
    (role : Role)
    (ids : List NodeId) :
    role.parts (ids.map rename) = (role.parts ids).map (renamed rename) := by
  simp [Role.parts, renamed, Function.comp_def]

theorem Role.suits_copy
    (role : Role) :
    role.suits (kind.copy rename keep) = role.suits kind := by
  cases role <;> cases kind <;>
    first
      | rfl
      | simp [Role.suits, NodeKind.copy, NodeKind.mapChildren, NodeKind.withRejoins]

theorem NodeKind.isProper_copy
    (proper : kind.IsProper) :
    (kind.copy rename keep).IsProper := by
  cases kind with
  | path components =>
      simpa [IsProper, copy, mapChildren, withRejoins] using proper
  | reference components =>
      simpa [IsProper, copy, mapChildren, withRejoins] using proper
  | divert link =>
      obtain ⟨target, empty⟩ := proper
      refine ⟨fun isNone => target (Option.map_eq_none_iff.mp isNone), ?_⟩
      intro isEmpty
      obtain ⟨noArguments, others⟩ := empty isEmpty
      exact ⟨by simp [noArguments], others⟩
  | choice option =>
      exact ⟨proper.1, by simpa using proper.2⟩
  | sequence type alternatives =>
      exact ⟨proper.1, by simpa using proper.2⟩
  | _ => exact proper

theorem NodeKind.parts_copy :
    (kind.copy rename keep).parts = kind.parts.map (renamed rename) := by
  cases kind <;>
    simp [copy, mapChildren, withRejoins, parts, ← Role.parts_map,
      toList_map_option, renamed, List.map_tail]

theorem Role.demands_copy
    (role : Role) :
    role.demands (kind.copy rename keep) =
      (role.demands kind).map (renamed rename) := by
  have same :
      (kind.copy rename keep).parts = kind.parts.map (renamed rename) :=
    NodeKind.parts_copy rename keep
  by_cases isLine : role = .line
  · subst isLine
    cases kind with
    | contentList content =>
        simp [Role.demands, NodeKind.copy, NodeKind.mapChildren,
          NodeKind.withRejoins, ← Role.parts_map, NodeKind.toList_map_option,
          List.map_dropLast]
    | _ => exact same
  · rw [Role.demands_eq_parts isLine, Role.demands_eq_parts isLine, same]

end Copies

namespace Draft

variable {draft : Draft}

/-- Trees whose nodes play their roles are such a certificate. -/
theorem Cast.exists_roles
    {parts : List Part}
    {nodes : List NodeId}
    (cast : Cast draft parts nodes)
    (finished : ∀ part ∈ parts, part.2 ≠ .unfinished) :
    ∃ roles, parts ⊆ roles ∧ ArePlayed draft.kind? roles := by
  induction cast with
  | nil =>
      exact ⟨[], List.Subset.refl _, fun part member => by cases member⟩
  | @cons id role kind rest below others isKind admits children siblings
      childrenHypothesis siblingsHypothesis =>
      obtain ⟨isFinished, areFinished⟩ := List.forall_mem_cons.mp finished
      obtain ⟨inside, called, playInside⟩ :=
        childrenHypothesis fun part demanded isUnfinished => by
          have stands := Role.standsBelow_of_demands demanded
          rwa [isUnfinished] at stands
      obtain ⟨beside, among, playBeside⟩ := siblingsHypothesis areFinished
      refine ⟨(id, role) :: (inside ++ beside), ?_, ?_⟩
      · exact
          List.cons_subset_cons _
            (List.Subset.trans among (List.subset_append_right _ _))
      · intro part member
        rcases List.mem_cons.mp member with rfl | isOther
        · refine
            ⟨kind, isKind, admits.suits,
              admits.proper.resolve_left isFinished, ?_⟩
          exact
            List.Subset.trans called
              (List.Subset.trans (List.subset_append_left _ _)
                (List.subset_cons_self _ _))
        · obtain ⟨kind, isKind, suits, proper, demands⟩ :=
            playInside.append playBeside part isOther
          exact
            ⟨kind, isKind, suits, proper,
              List.Subset.trans demands (List.subset_cons_self _ _)⟩

/-- What is reached from known nodes is known, and so is in the draft. -/
theorem Knows.lt_size_of_reaches
    {nodes : List NodeId}
    {outer id : NodeId}
    (knows : draft.Knows nodes)
    (member : outer ∈ nodes)
    (reaches : draft.Reaches outer id) :
    id.index < draft.size := by
  have isKnown : id ∈ nodes := by
    induction reaches with
    | refl =>
        exact member
    | tail _ isChild inductionHypothesis =>
        obtain ⟨slot, made, children⟩ := knows _ inductionHypothesis
        rw [childrenOf_eq made] at isChild
        exact children isChild
  obtain ⟨slot, made, -⟩ := knows id isKnown
  exact lt_size_of_slot? made

/-- Freezing renames the certificate of the nodes that it keeps. -/
theorem Renumbers.exists_roles
    {root : NodeId}
    {rootSpan : Span}
    {file : Option String}
    {entries : List (NodeId × Option NodeId)}
    {story : Story}
    {roles : List Part}
    (renumbers : Renumbers draft root rootSpan file entries story)
    (played : ArePlayed draft.kind? roles)
    (isStory : (root, .story) ∈ roles) :
    ∃ roles, (Story.root, .story) ∈ roles ∧ ArePlayed story.kind? roles := by
  let isKept (part : Part) : Bool := part.1 ∈ entries.map Prod.fst
  refine ⟨(roles.filter isKept).map (renamed (placeIn entries)), ?_, ?_⟩
  · have isFirst : root ∈ entries.map Prod.fst :=
      List.mem_map.mpr ⟨_, List.mem_of_getElem? renumbers.first, rfl⟩
    refine List.mem_map.mpr ⟨(root, .story), ?_, ?_⟩
    · exact List.mem_filter.mpr ⟨isStory, decide_eq_true isFirst⟩
    · simp only [renamed, renumbers.visits.placeIn_eq renumbers.first]
      rfl
  · intro part member
    obtain ⟨old, isOld, rfl⟩ := List.mem_map.mp member
    obtain ⟨isRole, kept⟩ := List.mem_filter.mp isOld
    have visited : old.1 ∈ entries.map Prod.fst := of_decide_eq_true kept
    obtain ⟨kind, isKind, suits, proper, demands⟩ := played old isRole
    have isCopy := renumbers.kind?_placeIn visited
    rw [isKind, Option.map_some] at isCopy
    refine
      ⟨_, isCopy, ?_, NodeKind.isProper_copy _ _ proper, ?_⟩
    · exact (Role.suits_copy _ _ _).trans suits
    · rw [renamed, Role.demands_copy]
      intro below isBelow
      obtain ⟨child, demanded, rfl⟩ := List.mem_map.mp isBelow
      have isChild : child.1 ∈ draft.childrenOf old.1 := by
        obtain ⟨slot, made, rfl⟩ := Option.map_eq_some_iff.mp isKind
        rw [childrenOf_eq made, ← Role.map_fst_demands old.2]
        exact List.mem_map_of_mem demanded
      have isVisited :=
        (renumbers.visits.mem_of_child visited isChild).resolve_left
          List.not_mem_nil
      exact
        List.mem_map_of_mem
          (List.mem_filter.mpr ⟨demands demanded, decide_eq_true isVisited⟩)

end Draft

namespace NodeKind

variable {σ : Type}

/-- Nodes that weaves stand directly below. -/
def holdsWeaves : NodeKind σ → Bool
  | .story _ | .flow _ | .weave .. => true
  | _ => false

def isWeave : NodeKind σ → Bool
  | .weave .. => true
  | _ => false

/-- Nodes that flows of a level stand directly below: stories, and knots for stitches. -/
def holdsFlows (level : FlowLevel) : NodeKind σ → Bool
  | .story _ => true
  | .flow outer => level == .stitch && outer.level == .knot
  | _ => false

end NodeKind

namespace Story

/-- A node has a parent, whose child it is, and of which a test holds. -/
def StandsBelow
    (story : Story)
    (test : StoryKind → Bool)
    (id : NodeId) : Prop :=
  ∃ above kind,
    story.parent? id = some above ∧
      story.kind? above = some kind ∧
      id ∈ kind.children ∧
      test kind = true

/-- What every node of a story must be, and where it may stand. -/
structure ObeysSchema (story : Story) : Prop where
  sequences :
    ∀ id type alternatives,
      story.kind? id = some (.sequence type alternatives) →
      type ∈ sequenceTypes ∧
        alternatives ≠ [] ∧
        ∀ alternative ∈ alternatives,
          ∃ content, story.kind? alternative = some (.contentList content)
  branches :
    ∀ id,
      (∃ arm, story.kind? id = some (.branch arm)) ↔
        ∃ above subject branches,
          story.kind? above = some (.conditional subject branches) ∧
            id ∈ branches
  weaves :
    ∀ id content base,
      story.kind? id = some (.weave content base) →
      story.StandsBelow NodeKind.holdsWeaves id
  gathers :
    ∀ id name depth rejoins,
      story.kind? id = some (.gather name depth rejoins) →
      1 ≤ depth ∧ story.StandsBelow NodeKind.isWeave id
  flows :
    ∀ id part,
      story.kind? id = some (.flow part) →
      story.StandsBelow (NodeKind.holdsFlows part.level) id
  /-- The content behind a choice ends with a line feed. -/
  choices :
    ∀ id option,
      story.kind? id = some (.choice option) →
      1 ≤ option.depth ∧
        ∃ inner content last,
          option.innerContent = some inner ∧
            story.kind? inner = some (.contentList (content ++ [last])) ∧
            story.kind? last = some (.text "\n")
  diverts :
    ∀ id link,
      story.kind? id = some (.divert link) →
      (link.target = none → link.isEmpty = true ∨ link.isThread = true) ∧
        (link.isEmpty = true →
          link.arguments = [] ∧ link.isTunnel = false ∧ link.isThread = false)
  tunnelOnwards :
    ∀ id after,
      story.kind? id = some (.tunnelOnwards (some after)) →
      ∃ link, story.kind? after = some (.divert link)
  divertTargets :
    ∀ id target,
      story.kind? id = some (.divertTarget target) →
      ∃ link,
        story.kind? target = some (.divert link) ∧
          link.isThread = false ∧ link.isTunnel = false
  paths :
    ∀ id components,
      story.kind? id = some (.path components) →
      components ≠ [] ∧
        ∀ component ∈ components,
          ∃ name, story.kind? component = some (.identifier name)
  references :
    ∀ id components,
      story.kind? id = some (.reference components) →
      (∃ first rest name,
        components = first :: rest ∧
          story.kind? first = some (.identifier name) ∧
          name ∉ Grammar.reservedWords) ∧
        ∀ component ∈ components,
          ∃ name, story.kind? component = some (.identifier name)
  /-- Any other child is of a kind that its parent has a role for. -/
  children :
    ∀ id kind,
      story.kind? id = some kind →
      ∀ part ∈ kind.parts,
        ∃ child, story.kind? part.1 = some child ∧ part.2.suits child = true

section Schema

variable
    {story : Story}
    {roles : List Part}
    {id : NodeId}
    {kind : StoryKind}
    (isTree : story.IsTree)
    (isStory : (Story.root, .story) ∈ roles)
    (played : ArePlayed story.kind? roles)

include played in
/-- A child is called to a role by any node that it is listed in. -/
theorem exists_call
    {above : NodeId}
    {role : Role}
    (isRole : (above, role) ∈ roles)
    (isChild : id ∈ story.children above) :
    ∃ outer own,
      story.kind? above = some outer ∧
        id ∈ outer.children ∧
        (id, own) ∈ role.demands outer ∧
        (id, own) ∈ roles := by
  obtain ⟨outer, isOuter, -, -, demands⟩ := played _ isRole
  have listed : id ∈ outer.children := by
    simpa [Story.children, isOuter] using isChild
  obtain ⟨⟨_, own⟩, demanded, rfl⟩ : ∃ part ∈ role.demands outer, part.1 = id := by
    rw [← Role.map_fst_demands role] at listed
    exact List.mem_map.mp listed
  exact ⟨outer, own, isOuter, listed, demanded, demands demanded⟩

include isTree isStory played in
/-- The roles go down from the root to all nodes. -/
theorem exists_role
    (bound : id.index < story.size) :
    ∃ role, (id, role) ∈ roles := by
  induction isIndex : id.index using Nat.strong_induction_on generalizing id with
  | _ index inductionHypothesis =>
      subst isIndex
      rcases Nat.eq_zero_or_pos id.index with isFirst | notRoot
      · rw [show id = Story.root from congrArg NodeId.mk isFirst]
        exact ⟨.story, isStory⟩
      · obtain ⟨above, -, isBefore, isChild, -⟩ := isTree.below id notRoot bound
        obtain ⟨role, isRole⟩ :=
          inductionHypothesis above.index isBefore
            (Nat.lt_trans isBefore bound) rfl
        obtain ⟨-, own, -, -, -, isOwn⟩ := exists_call played isRole isChild
        exact ⟨own, isOwn⟩

include isTree isStory played in
/-- A node is the root, or its parent is what its role stands below. -/
theorem exists_calling
    (isKind : story.kind? id = some kind) :
    ∃ role : Role,
      role.suits kind = true ∧
        kind.IsProper ∧
        role.demands kind ⊆ roles ∧
        (role = .story ∨
          ∃ above outer,
            story.parent? id = some above ∧
              story.kind? above = some outer ∧
              id ∈ outer.children ∧
              role.StandsBelow outer id) := by
  have noted
      {role : Role}
      (isRole : (id, role) ∈ roles) :
      role.suits kind = true ∧ kind.IsProper ∧ role.demands kind ⊆ roles := by
    obtain ⟨other, isOther, suits, proper, demands⟩ := played _ isRole
    cases isKind.symm.trans isOther
    exact ⟨suits, proper, demands⟩
  have bound : id.index < story.size := by
    obtain ⟨node, isNode, -⟩ := Option.map_eq_some_iff.mp isKind
    exact (List.getElem?_eq_some_iff.mp isNode).1
  rcases Nat.eq_zero_or_pos id.index with isFirst | notRoot
  · have isRoot : id = Story.root := congrArg NodeId.mk isFirst
    rw [← isRoot] at isStory
    obtain ⟨suits, proper, demands⟩ := noted isStory
    exact ⟨.story, suits, proper, demands, .inl rfl⟩
  · obtain ⟨above, isParent, isBefore, isChild, -⟩ :=
      isTree.below id notRoot bound
    obtain ⟨role, isRole⟩ :=
      exists_role isTree isStory played (Nat.lt_trans isBefore bound)
    obtain ⟨outer, own, isOuter, listed, demanded, isOwn⟩ :=
      exists_call played isRole isChild
    obtain ⟨suits, proper, demands⟩ := noted isOwn
    exact
      ⟨own, suits, proper, demands, .inr
        ⟨above, outer, isParent, isOuter, listed,
          Role.standsBelow_of_demands demanded⟩⟩

include isTree isStory played in
/-- What the role of a node stands below is a test that its parent passes. -/
theorem standsBelow_of_roles
    {test : StoryKind → Bool}
    (isKind : story.kind? id = some kind)
    (passes :
      ∀ role : Role,
        role.suits kind = true →
        role ≠ .story ∧
          ∀ outer : StoryKind, role.StandsBelow outer id → test outer = true) :
    story.StandsBelow test id := by
  obtain ⟨role, suits, -, -, isRoot | ⟨above, outer, isParent, isOuter, listed, stands⟩⟩ :=
    exists_calling isTree isStory played isKind
  · exact absurd isRoot (passes role suits).1
  · exact ⟨above, outer, isParent, isOuter, listed, (passes role suits).2 outer stands⟩

include isTree isStory played in
/-- The children of a node suit the roles that its kind has for them. -/
theorem exists_child_of_parts
    (isKind : story.kind? id = some kind)
    {part : Part}
    (isPart : part ∈ kind.parts) :
    ∃ child, story.kind? part.1 = some child ∧ part.2.suits child = true := by
  obtain ⟨role, -, -, demands, -⟩ :=
    exists_calling isTree isStory played isKind
  obtain ⟨own, demanded, serves⟩ := role.exists_demand isPart
  obtain ⟨child, isChild, suits, -, -⟩ := played _ (demands demanded)
  exact ⟨child, isChild, serves child suits⟩

include isTree isStory played in
theorem exists_identifier_of_parts
    (isKind : story.kind? id = some kind)
    {part : Part}
    (isPart : part ∈ kind.parts)
    (isName : part.2 = .identifier ∨ part.2 = .word) :
    ∃ name, story.kind? part.1 = some (.identifier name) := by
  obtain ⟨child, isChild, suits⟩ :=
    exists_child_of_parts isTree isStory played isKind isPart
  rcases isName with isName | isName <;>
  · rw [isName] at suits
    cases child with
    | identifier name => exact ⟨name, isChild⟩
    | _ => cases suits

include played in
/-- A line plays its role with the line feed that ends it. -/
theorem exists_lineFeed
    (isLine : (id, .line) ∈ roles) :
    ∃ content last,
      story.kind? id = some (.contentList (content ++ [last])) ∧
        story.kind? last = some (.text "\n") := by
  obtain ⟨kind, isKind, suits, -, demands⟩ := played _ isLine
  cases kind with
  | contentList content =>
      cases content using List.reverseRecOn with
      | nil => cases suits
      | append_singleton content last =>
          have isLast : (last, .lineFeed) ∈ roles :=
            demands (by simp [Role.demands])
          obtain ⟨kind, isText, suits, -, -⟩ := played _ isLast
          refine ⟨content, last, isKind, ?_⟩
          cases kind with
          | text written =>
              rw [isText, show written = "\n" by simpa [Role.suits] using suits]
          | _ => cases suits
  | _ => cases suits

/-- A tree in which all nodes play their roles obeys the schema. -/
theorem obeysSchema_of_roles
    (isTree : story.IsTree)
    (isStory : (Story.root, .story) ∈ roles)
    (played : ArePlayed story.kind? roles) :
    story.ObeysSchema where
  sequences := by
    intro id type alternatives isKind
    obtain ⟨-, -, ⟨isType, notEmpty⟩, -⟩ :=
      exists_calling isTree isStory played isKind
    refine ⟨isType, notEmpty, fun alternative member => ?_⟩
    obtain ⟨child, isChild, suits⟩ :=
      exists_child_of_parts isTree isStory played isKind
        (Role.mem_parts_of_mem member)
    cases child with
    | contentList content => exact ⟨content, isChild⟩
    | _ => cases suits
  branches := by
    intro id
    constructor
    · rintro ⟨arm, isKind⟩
      obtain ⟨role, suits, -, -, isRoot | ⟨above, outer, -, isOuter, -, stands⟩⟩ :=
        exists_calling isTree isStory played isKind
      · subst isRoot
        cases suits
      · cases role with
        | branch =>
            obtain ⟨subject, branches, rfl, member⟩ := stands
            exact ⟨above, subject, branches, isOuter, member⟩
        | _ => cases suits
    · rintro ⟨above, subject, branches, isOuter, member⟩
      obtain ⟨child, isChild, suits⟩ :=
        exists_child_of_parts isTree isStory played isOuter
          (List.mem_append_right _ (Role.mem_parts_of_mem member))
      cases child with
      | branch arm => exact ⟨arm, isChild⟩
      | _ => cases suits
  weaves := by
    intro id content base isKind
    refine standsBelow_of_roles isTree isStory played isKind fun role suits => ?_
    cases role with
    | division place =>
        refine ⟨by simp, ?_⟩
        rintro outer (⟨content, rfl, -⟩ | ⟨part, rfl, -⟩) <;> rfl
    | woven =>
        refine ⟨by simp, ?_⟩
        rintro outer ⟨content, base, rfl⟩
        rfl
    | _ => cases suits
  gathers := by
    intro id name depth rejoins isKind
    obtain ⟨-, -, isProper, -⟩ := exists_calling isTree isStory played isKind
    refine ⟨isProper, ?_⟩
    refine standsBelow_of_roles isTree isStory played isKind fun role suits => ?_
    cases role with
    | woven =>
        refine ⟨by simp, ?_⟩
        rintro outer ⟨content, base, rfl⟩
        rfl
    | statement place =>
        refine ⟨by simp, ?_⟩
        rintro outer rfl
        cases suits
    | _ => cases suits
  flows := by
    intro id part isKind
    refine standsBelow_of_roles isTree isStory played isKind fun role suits => ?_
    cases role with
    | division place =>
        refine ⟨by simp, ?_⟩
        rintro outer (⟨content, rfl, -⟩ | ⟨outer, rfl, rfl⟩)
        · rfl
        · cases level : part.level <;> cases outerLevel : outer.level <;>
            simp_all [Role.suits, FlowLevel.standsAt, FlowLevel.place,
              Grammar.allowsKnots, Grammar.allowsStitches, NodeKind.holdsFlows]
    | statement place =>
        refine ⟨by simp, ?_⟩
        rintro outer rfl
        cases level : part.level <;>
          simp [Role.suits, FlowLevel.standsAt, level, Grammar.allowsKnots,
            Grammar.allowsStitches] at suits
    | _ => cases suits
  choices := by
    intro id option isKind
    obtain ⟨role, suits, ⟨counts, isThere⟩, demands, -⟩ :=
      exists_calling isTree isStory played isKind
    obtain ⟨inner, isInner⟩ := Option.ne_none_iff_exists'.mp isThere
    have notLine : role ≠ .line := by
      rintro rfl
      cases suits
    have isLine : (inner, .line) ∈ roles := by
      apply demands
      rw [Role.demands_eq_parts notLine]
      simp [NodeKind.parts, isInner]
    obtain ⟨content, last, isContent, isLast⟩ := exists_lineFeed played isLine
    exact ⟨counts, inner, content, last, isInner, isContent, isLast⟩
  diverts := by
    intro id link isKind
    obtain ⟨-, -, isProper, -⟩ := exists_calling isTree isStory played isKind
    exact ⟨isProper.target, isProper.empty⟩
  tunnelOnwards := by
    intro id after isKind
    obtain ⟨child, isChild, suits⟩ :=
      exists_child_of_parts isTree isStory played isKind
        (Role.mem_parts_of_mem (List.mem_singleton_self after))
    cases child with
    | divert link => exact ⟨link, isChild⟩
    | _ => cases suits
  divertTargets := by
    intro id target isKind
    obtain ⟨child, isChild, suits⟩ :=
      exists_child_of_parts isTree isStory played isKind
        (List.mem_singleton_self (target, Role.straight))
    cases child with
    | divert link =>
        simp only [Role.suits, Bool.and_eq_true, Bool.not_eq_true'] at suits
        exact ⟨link, isChild, suits.2, suits.1⟩
    | _ => cases suits
  paths := by
    intro id components isKind
    obtain ⟨-, -, isProper, -⟩ := exists_calling isTree isStory played isKind
    refine ⟨isProper, fun component member => ?_⟩
    exact
      exists_identifier_of_parts isTree isStory played isKind
        (Role.mem_parts_of_mem member) (.inl rfl)
  references := by
    intro id components isKind
    obtain ⟨-, -, isProper, -⟩ := exists_calling isTree isStory played isKind
    obtain ⟨first, rest, rfl⟩ := List.exists_cons_of_ne_nil isProper
    have identifiers
        {part : Part}
        (isPart : part ∈ (NodeKind.reference (first :: rest) : StoryKind).parts)
        (isName : part.2 = .identifier ∨ part.2 = .word) :=
      exists_identifier_of_parts isTree isStory played isKind isPart isName
    constructor
    · obtain ⟨child, isChild, suits⟩ :=
        exists_child_of_parts isTree isStory played isKind
          (List.mem_cons_self : (first, Role.word) ∈ _)
      cases child with
      | identifier name =>
          refine ⟨first, rest, name, rfl, isChild, ?_⟩
          simpa [Role.suits] using suits
      | _ => cases suits
    · intro component member
      rcases List.mem_cons.mp member with rfl | isLater
      · exact identifiers (List.mem_cons_self : (component, Role.word) ∈ _) (.inr rfl)
      · exact
          identifiers
            (List.mem_cons_of_mem _ (Role.mem_parts_of_mem isLater))
            (.inl rfl)
  children := by
    intro id kind isKind part isPart
    exact exists_child_of_parts isTree isStory played isKind isPart

end Schema

end Story

end InkSyntax
