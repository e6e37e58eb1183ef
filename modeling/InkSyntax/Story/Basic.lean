import InkSyntax.Story.Node

namespace InkSyntax

/-!
# Stories

Access to the nodes of a finished story by number, and walks along its parent
links and child lists.
-/

/-- A node of a finished story. -/
abbrev StoryNode := Node Story

/-- What a node of a finished story is. -/
abbrev StoryKind := NodeKind Story

namespace Story

/-- The name of the file that was read. -/
def file : Story → Option String
  | mk file _ => file

/-- All nodes, each after its parent. -/
def nodes : Story → List StoryNode
  | mk _ nodes => nodes

instance : Inhabited Story := ⟨mk none []⟩

/-- The root is the first node. -/
def root : NodeId := ⟨0⟩

/-- Number of nodes. -/
def size (story : Story) : Nat := story.nodes.length

def node? (story : Story) (id : NodeId) : Option StoryNode := story.nodes[id.index]?

def kind? (story : Story) (id : NodeId) : Option StoryKind := (story.node? id).map (·.kind)

def parent? (story : Story) (id : NodeId) : Option NodeId := (story.node? id).bind (·.parent)

def span? (story : Story) (id : NodeId) : Option Span := (story.node? id).map (·.span)

/-- The nodes directly below a node. -/
def children (story : Story) (id : NodeId) : List NodeId :=
  ((story.kind? id).map NodeKind.children).getD []

/-- The chain of parents above a node, for at most some steps. -/
def parentsFrom (story : Story) : Nat → NodeId → List NodeId
  | 0, _ => []
  | steps + 1, id =>
      match story.parent? id with
      | none => []
      | some parent => parent :: parentsFrom story steps parent

/-- The nodes above a node, from its parent to the root. -/
def ancestors (story : Story) (id : NodeId) : List NodeId := story.parentsFrom story.size id

/-- The listed nodes and all below them in the order of the text, for at most some steps. -/
def subtreesFrom (story : Story) : Nat → List NodeId → List NodeId
  | 0, _ => []
  | _ + 1, [] => []
  | steps + 1, next :: others =>
      next :: subtreesFrom story steps (story.children next ++ others)

/-- The nodes below a node in the order of the text. -/
def descendants (story : Story) (id : NodeId) : List NodeId :=
  story.subtreesFrom story.size (story.children id)

/-- The nodes of which a test holds. -/
def findAll (story : Story) (test : StoryKind → Bool) : List NodeId :=
  (story.nodes.zipIdx.filter fun (node, _) => test node.kind).map fun (_, index) => ⟨index⟩

/-- What stands at the top level. -/
def content (story : Story) : List NodeId :=
  match story.kind? root with
  | some (.story content) => content
  | _ => []

/-- The weave with the text before the first knot. -/
def rootWeave? (story : Story) : Option NodeId :=
  story.content.find? fun id =>
    match story.kind? id with
    | some (.weave ..) => true
    | _ => false

/-- The text of a text node. -/
def text? (story : Story) (id : NodeId) : Option String :=
  match story.kind? id with
  | some (.text text) => some text
  | _ => none

/-- The name of an identifier node. -/
def identifier? (story : Story) (id : NodeId) : Option String :=
  match story.kind? id with
  | some (.identifier name) => some name
  | _ => none

/-- The dotted name of a node, following diverts for at most some steps. -/
def dottedNameFrom? (story : Story) : Nat → NodeId → Option String
  | 0, _ => none
  | steps + 1, id =>
      let joined (parts : List NodeId) : Option String :=
        (parts.mapM story.identifier?).map (String.intercalate ".")
      match story.kind? id with
      | some (.path components) => joined components
      | some (.reference path) => joined path
      | some (.identifier name) => some name
      | some (.divert link) => link.target.bind (dottedNameFrom? story steps)
      | _ => none

/-- A path, variable or target of a divert with points between its parts. -/
def dottedName? (story : Story) (id : NodeId) : Option String :=
  story.dottedNameFrom? (story.size + 1) id

/-- Whether a node is a flow of a given name. -/
def isFlowNamed (story : Story) (name : String) (id : NodeId) : Bool :=
  match story.kind? id with
  | some (.flow part) => story.identifier? part.name == some name
  | _ => false

/-- Go down from some nodes through flows of the given names. -/
def flowBelow? (story : Story) (among : List NodeId) : List String → Option NodeId
  | [] => none
  | name :: names =>
      match among.find? (story.isFlowNamed name) with
      | none => none
      | some found =>
          if names.isEmpty then some found
          else
            match story.kind? found with
            | some (.flow part) => flowBelow? story part.content names
            | _ => none

/-- The knot of a given name, or the stitch of a name with a point in it. -/
def flow? (story : Story) (dotted : String) : Option NodeId :=
  story.flowBelow? story.content (dotted.splitOn ".")

/-- The stories of included files in the order of the text. -/
def includedStories (story : Story) : List Story :=
  story.nodes.filterMap fun node =>
    match node.kind with
    | .includedFile included => included
    | _ => none

end Story

end InkSyntax
