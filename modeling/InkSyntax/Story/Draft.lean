import InkSyntax.Story.Basic

namespace InkSyntax

/-!
# Drafts

While a script is being read its nodes lie in a draft, in the order in which they
were made.  The youngest nodes can be forgotten again.  A node gets its span once;
later attempts leave the first one.
-/

/-- A node in the making. -/
structure Slot where
  kind : StoryKind
  span : Option Span := none

/-- Nodes in the making, numbered by age. -/
structure Draft where
  slots : Array Slot := #[]

namespace Draft

def size (draft : Draft) : Nat := draft.slots.size

def slot? (draft : Draft) (id : NodeId) : Option Slot := draft.slots[id.index]?

def kind? (draft : Draft) (id : NodeId) : Option StoryKind := (draft.slot? id).map (·.kind)

def span? (draft : Draft) (id : NodeId) : Option Span := (draft.slot? id).bind (·.span)

/-- The first of some nodes that is not there. -/
def missingAmong? (draft : Draft) (ids : List NodeId) : Option NodeId :=
  ids.find? fun id => (draft.kind? id).isNone

/-- The first of a node and those below it that is not there, looking at most some levels down. -/
def missingWithin? (draft : Draft) : Nat → NodeId → Option NodeId
  | 0, _ => none
  | levels + 1, id =>
      match draft.kind? id with
      | some kind => kind.children.findSome? (missingWithin? draft levels)
      | none => some id

/-- Make a node. -/
def add (draft : Draft) (kind : StoryKind) (span : Option Span := none) : NodeId × Draft :=
  (⟨draft.size⟩, ⟨draft.slots.push ⟨kind, span⟩⟩)

/-- Forget all but the oldest nodes. -/
def keepOldest (draft : Draft) (count : Nat) : Draft := ⟨draft.slots.take count⟩

/-- Give a node a span, unless it has one. -/
def setSpan (draft : Draft) (span : Span) (id : NodeId) : Draft :=
  ⟨draft.slots.modify id.index fun slot => { slot with span := slot.span.orElse fun _ => span }⟩

/-- Give every listed node a span, unless it has one. -/
def setSpans (draft : Draft) (span : Span) (ids : List NodeId) : Draft :=
  ids.foldl (setSpan · span) draft

/-- Change what a node is. -/
def modify (draft : Draft) (id : NodeId) (change : StoryKind → StoryKind) : Draft :=
  ⟨draft.slots.modify id.index fun slot => { slot with kind := change slot.kind }⟩

/-- The span that covers some nodes, if each of them has one. -/
def cover? (draft : Draft) : List NodeId → Option Span
  | [] => none
  | first :: rest =>
      rest.foldl
        (fun covered id => do return (← covered).cover (← draft.span? id))
        (draft.span? first)

/-- Make a node that spans its children. -/
def addSpanning (draft : Draft) (kind : StoryKind) : NodeId × Draft :=
  draft.add kind (draft.cover? kind.children)

end Draft

end InkSyntax
