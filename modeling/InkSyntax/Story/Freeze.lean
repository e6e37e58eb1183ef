import InkSyntax.Story.Draft

namespace InkSyntax.Draft

/-!
# From drafts to stories

Freezing a draft keeps the nodes that its root reaches and numbers them anew, each
node before those below it and these in the order of the text.  A node without a
span takes its parent's.
-/

/-- The new numbers given so far, and the old numbers in the new order with their parents. -/
structure Numbering where
  new : Array (Option NodeId)
  order : Array (NodeId × Option NodeId) := #[]

namespace Numbering

/-- The new number of a node. -/
def find? (numbering : Numbering) (old : NodeId) : Option NodeId :=
  (numbering.new[old.index]?).join

/-- Give the next number to a node. -/
def give (numbering : Numbering) (old : NodeId) (parent : Option NodeId) :
    NodeId × Numbering :=
  let fresh : NodeId := ⟨numbering.order.size⟩
  (fresh,
    ⟨numbering.new.modify old.index fun _ => some fresh, numbering.order.push (old, parent)⟩)

end Numbering

/-- Number the pending nodes and all that they reach, for at most some steps. -/
def numberFrom (draft : Draft) :
    Nat → List (NodeId × Option NodeId) → Numbering → Numbering
  | 0, _, numbering => numbering
  | _ + 1, [], numbering => numbering
  | steps + 1, (old, parent) :: pending, numbering =>
      match draft.kind? old, numbering.find? old with
      | some kind, none =>
          let (fresh, numbering) := numbering.give old parent
          numberFrom draft steps
            (kind.children.map (fun child => (child, some fresh)) ++ pending) numbering
      | _, _ => numberFrom draft steps pending numbering

/-- More steps than numbering can take: one for the root and one for every mention of a child. -/
def stepLimit (draft : Draft) : Nat :=
  draft.slots.foldl (fun total slot => total + slot.kind.children.length) 2

/-- The numbering of what a root reaches. -/
def number (draft : Draft) (root : NodeId) : Numbering :=
  draft.numberFrom draft.stepLimit [(root, none)] ⟨draft.slots.map fun _ => none, #[]⟩

/-- A node under its new number, given the nodes before it. -/
def frozenNode (numbering : Numbering) (rootSpan : Span) (earlier : Array StoryNode)
    (slot : Slot) (parent : Option NodeId) : StoryNode :=
  let inherited := (parent.bind fun above => earlier[above.index]?).map (·.span)
  { kind :=
      (slot.kind.mapChildren fun old => (numbering.find? old).getD old).withRejoins
        (·.filterMap numbering.find?)
    parent := parent
    span := (slot.span.orElse fun _ => inherited).getD rootSpan }

/-- The story of what a root reaches; the root has the given span. -/
def freeze (draft : Draft) (root : NodeId) (rootSpan : Span) (file : Option String) : Story :=
  let numbering := draft.number root
  let nodes := numbering.order.foldl
    (fun (earlier : Array StoryNode) (old, parent) =>
      match draft.slot? old with
      | some slot =>
          let node := frozenNode numbering rootSpan earlier slot parent
          earlier.push node
      | none => earlier)
    #[]
  Story.mk file <|
    match nodes.toList with
    | [] => []
    | first :: others => { first with span := rootSpan } :: others

end InkSyntax.Draft
