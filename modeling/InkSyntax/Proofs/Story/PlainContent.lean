import InkSyntax.Proofs.Story.FrozenGathers
import InkSyntax.Story.Weave

namespace InkSyntax

/-!
# Content without choices, gathers and flows

Such content is not parted: all of it comes into one weave at the base, and no other
weave is made.  In the story that is frozen, the nodes that the root reaches keep
what they are, under new numbers.
-/

namespace WeaveTree

variable
    {depth? : NodeId → Option Nat}
    {base : Nat}
    {content : List NodeId}

/-- Without choices and gathers there is nothing to group. -/
theorem groupWithin_plain
    (steps : Nat)
    (plain : ∀ id ∈ content, depth? id = none) :
    groupWithin depth? steps base content = content.map leaf := by
  induction steps generalizing content with
  | zero =>
      rfl
  | succ steps inductionHypothesis =>
      cases content with
      | nil =>
          rfl
      | cons first rest =>
          have shallow : isDeeper depth? base first = false := by
            rw [isDeeper, plain first List.mem_cons_self]
          have others := inductionHypothesis fun id member =>
            plain id (List.mem_cons_of_mem first member)
          rw [groupWithin, shallow, others]
          rfl

theorem group_plain
    (plain : ∀ id ∈ content, depth? id = none) :
    group depth? base content = content.map leaf :=
  groupWithin_plain _ plain

end WeaveTree

/-- A copy of what rejoins nothing has nothing to change there. -/
theorem NodeKind.copy_eq_mapChildren
    {σ : Type}
    {kind : NodeKind σ}
    {rename : NodeId → NodeId}
    {keep : NodeId → Bool}
    (rejoinsNothing : kind.rejoins = []) :
    kind.copy rename keep = kind.mapChildren rename := by
  cases kind with
  | gather name depth rejoins =>
      cases rejoinsNothing
      rfl
  | _ =>
      rfl

namespace Draft

variable
    {draft : Draft}
    {content : List NodeId}

/-- Whether a node is neither a choice nor a gather nor a flow. -/
def IsPlain (kind : StoryKind) : Prop :=
  kind.weavePointDepth? = none ∧ kind.isFlow = false

theorem joinChoices_plain
    (plain : ∀ id ∈ content, draft.weavePointDepth? id = none) :
    draft.joinChoices [] content = draft := by
  induction content with
  | nil =>
      rfl
  | cons id rest inductionHypothesis =>
      have noPoint := plain id List.mem_cons_self
      have others :=
        inductionHypothesis fun other member =>
          plain other (List.mem_cons_of_mem id member)
      rw [joinChoices]
      cases known : draft.kind? id with
      | none =>
          exact others
      | some kind =>
          rw [weavePointDepth?, known] at noPoint
          cases kind <;> first | exact others | cases noPoint

theorem placeItems_leaves
    (draft : Draft)
    (content : List NodeId) :
    placeItems (content.map .leaf) draft = (content, draft) := by
  induction content with
  | nil =>
      rfl
  | cons id rest inductionHypothesis =>
      simp only [List.map_cons, placeItems, placeItem, inductionHypothesis]

/-- All of plain content comes into one weave. -/
theorem weaveAndFlows_plain
    (plain :
      ∀ id ∈ content, ∃ kind, draft.kind? id = some kind ∧ IsPlain kind) :
    draft.weaveAndFlows content =
      ([⟨draft.size⟩], (draft.add (.weave content 0)).2) := by
  have noPoint (id : NodeId) (member : id ∈ content) :
      draft.weavePointDepth? id = none := by
    obtain ⟨kind, known, isPlain⟩ := plain id member
    rw [weavePointDepth?, known]
    exact isPlain.1
  have noFlow (id : NodeId) (member : id ∈ content) :
      ((draft.kind? id).map NodeKind.isFlow).getD false = false := by
    obtain ⟨kind, known, isPlain⟩ := plain id member
    rw [known]
    exact isPlain.2
  have woven :
      content.filter (fun id => !((draft.kind? id).map NodeKind.isFlow).getD false) =
        content := by
    apply List.filter_eq_self.mpr
    intro id member
    rw [noFlow id member]
    rfl
  have flows :
      content.filter (fun id => ((draft.kind? id).map NodeKind.isFlow).getD false) =
        [] := by
    apply List.filter_eq_nil_iff.mpr
    intro id member
    rw [noFlow id member]
    exact Bool.false_ne_true
  have grouped :
      WeaveTree.group draft.weavePointDepth? 0 content = content.map WeaveTree.leaf :=
    WeaveTree.group_plain noPoint
  have joined := joinChoices_plain noPoint
  simp only [weaveAndFlows, woven, flows, weave, grouped, placeItem, placeItems_leaves,
    addWeave, joined]
  rfl

namespace Renumbers

variable
    {root id : NodeId}
    {rootSpan : Span}
    {file : Option String}
    {entries : List (NodeId × Option NodeId)}
    {story : Story}
    {kind : StoryKind}

theorem placeIn_root
    (renumbers : Renumbers draft root rootSpan file entries story) :
    placeIn entries root = Story.root :=
  renumbers.visits.placeIn_eq renumbers.first

/-- What the root reaches keeps what it is, with its children under new numbers. -/
theorem kind?_placeIn_of_reaches
    (renumbers : Renumbers draft root rootSpan file entries story)
    (reaches : draft.Reaches root id)
    (known : draft.kind? id = some kind)
    (rejoinsNothing : kind.rejoins = []) :
    story.kind? (placeIn entries id) = some (kind.mapChildren (placeIn entries)) := by
  rw [renumbers.kind?_placeIn ((renumbers.exactly id).mpr reaches), known, Option.map_some,
    NodeKind.copy_eq_mapChildren rejoinsNothing]

end Renumbers

end Draft

end InkSyntax
