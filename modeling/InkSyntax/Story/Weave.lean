import InkSyntax.Story.Draft

namespace InkSyntax

/-!
# Weaves

Choices and gathers carry a depth: how many bullets or dashes they were written
with.  A weave at some base holds the points of depth at most one more than its
base; a deeper point starts a weave of its own, which runs up to the next point
that belongs outside.  A gather rejoins the choices since the gather before it in
the same weave.
-/

/-- How content falls into weaves inside weaves. -/
inductive WeaveTree where
  | leaf (id : NodeId)
  | nested (base : Nat) (items : List WeaveTree)

namespace WeaveTree

/-- Whether a node belongs to a weave deeper than a base. -/
def isDeeper (depth? : NodeId → Option Nat) (base : Nat) (id : NodeId) : Bool :=
  match depth? id with
  | some depth => decide (base < depth - 1)
  | none => false

/-- Whether a node stays inside a weave that is deeper than a base. -/
def staysInside (depth? : NodeId → Option Nat) (base : Nat) (id : NodeId) : Bool :=
  match depth? id with
  | some depth => decide (base < depth - 1)
  | none => true

/-- Group content at a base, in at most some steps. -/
def groupWithin (depth? : NodeId → Option Nat) : Nat → Nat → List NodeId → List WeaveTree
  | 0, _, content => content.map leaf
  | _ + 1, _, [] => []
  | steps + 1, base, first :: rest =>
      if isDeeper depth? base first then
        let inner := (depth? first).getD 0 - 1
        nested inner
            (groupWithin depth? steps inner (first :: rest.takeWhile (staysInside depth? base))) ::
          groupWithin depth? steps base (rest.dropWhile (staysInside depth? base))
      else leaf first :: groupWithin depth? steps base rest

/-- Group content at a base.

A step either passes over a node or opens a weave whose first node is then
passed over, so twice the length bounds the steps. -/
def group (depth? : NodeId → Option Nat) (base : Nat) (content : List NodeId) :
    List WeaveTree :=
  groupWithin depth? (2 * content.length + 2) base content

end WeaveTree

namespace Draft

/-- The depth of a choice or gather. -/
def weavePointDepth? (draft : Draft) (id : NodeId) : Option Nat :=
  (draft.kind? id).bind NodeKind.weavePointDepth?

/-- Tell each gather among some nodes which of the choices lead into it.

The first list holds the choices since the last gather. -/
def joinChoices (draft : Draft) : List NodeId → List NodeId → Draft
  | _, [] => draft
  | loose, id :: rest =>
      match draft.kind? id with
      | some (.choice _) => joinChoices draft (loose ++ [id]) rest
      | some (.gather ..) =>
          joinChoices (draft.modify id (·.withRejoins fun _ => loose)) [] rest
      | _ => joinChoices draft loose rest

/-- Make a weave of some nodes. -/
def addWeave (draft : Draft) (content : List NodeId) (base : Nat) : NodeId × Draft :=
  (draft.joinChoices [] content).add (.weave content base)

mutual

/-- Make the weaves inside a grouped item. -/
def placeItem : WeaveTree → Draft → NodeId × Draft
  | .leaf id, draft => (id, draft)
  | .nested base items, draft =>
      let (content, draft) := placeItems items draft
      draft.addWeave content base

/-- Make the weaves inside grouped items. -/
def placeItems : List WeaveTree → Draft → List NodeId × Draft
  | [], draft => ([], draft)
  | item :: items, draft =>
      let (id, draft) := placeItem item draft
      let (ids, draft) := placeItems items draft
      (id :: ids, draft)

end

/-- Make the weave of some content at a base. -/
def weave (draft : Draft) (content : List NodeId) (base : Nat) : NodeId × Draft :=
  placeItem (.nested base (WeaveTree.group draft.weavePointDepth? base content)) draft

/-- The content of a story or flow: the weave of all but the flows, then the flows. -/
def weaveAndFlows (draft : Draft) (content : List NodeId) : List NodeId × Draft :=
  let isFlow (id : NodeId) : Bool := ((draft.kind? id).map NodeKind.isFlow).getD false
  let (woven, after) := draft.weave (content.filter fun id => !isFlow id) 0
  (woven :: content.filter isFlow, after)

end Draft

end InkSyntax
