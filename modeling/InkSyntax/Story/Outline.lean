import InkSyntax.Story.Describe
import InkSyntax.Text.Quoted

namespace InkSyntax

/-!
# Outlines

An outline lists the nodes of a story, one to a line, indented by depth.  An
included story follows the line of the node that includes it, one level deeper.
-/

namespace FlowLevel

def name : FlowLevel → String
  | .knot => "Knot"
  | .stitch => "Stitch"

end FlowLevel

namespace Branch

/-- The part a branch plays in its conditional. -/
def role (branch : Branch) : String :=
  if branch.isElse then "else"
  else if branch.isTrueBranch then "true"
  else if branch.matchingEquality then "match"
  else "branch"

end Branch

namespace Story

/-- What the line of a node says about it. -/
def label (story : Story) (id : NodeId) (kind : StoryKind) : String :=
  match kind with
  | .story _ =>
      match story.file with
      | some file => s!"Story {file}"
      | none => "Story"
  | .text written => s!"Text {Quoted.encode written}"
  | .tag isStart => if isStart then "Tag start" else "Tag end"
  | .identifier name => s!"Identifier {name}"
  | .divert link =>
      let properties :=
        [(link.isTunnel, "tunnel"), (link.isThread, "thread"), (link.isEmpty, "empty")]
      let chosen := (properties.filter (·.1)).map (·.2)
      let shown := s!"Divert {story.describe id}"
      if chosen.isEmpty then shown else shown ++ " [" ++ String.intercalate ", " chosen ++ "]"
  | .choice option =>
      s!"Choice depth={option.depth} " ++ (if option.onceOnly then "once" else "sticky") ++
        if option.isInvisibleDefault then " default" else ""
  | .gather _ depth rejoins => s!"Gather depth={depth} rejoins={rejoins.length}"
  | .weave _ base => s!"Weave base={base}"
  | .flow part =>
      let names := String.intercalate ", " (part.parameters.map (·.name))
      (if part.isFunction then "Function " else "") ++
        s!"{part.level.name} {story.describe part.name}({names})"
  | .sequence type _ => s!"Sequence {type.words}"
  | .branch arm =>
      s!"ConditionalBranch {arm.role}" ++ if arm.isInline then " inline" else ""
  | .assignment name _ isGlobal isTemporary =>
      let keyword := if isGlobal then "VAR " else if isTemporary then "temp " else ""
      s!"VariableAssignment {keyword}{story.describe name}"
  | .listElement _ selected value =>
      "ListElement" ++ (if selected then " selected" else "") ++
        match value with
        | some value => s!" = {value}"
        | none => ""
  | .external _ parameters =>
      "ExternalDeclaration (" ++ String.intercalate ", " parameters ++ ")"
  | .functionCall .. | .reference _ | .number _ | .string _ | .unary .. | .binary .. | .step ..
  | .listLiteral _ => s!"{kind.name} {story.describe id}"
  | .authorWarning message => s!"AuthorWarning {Quoted.encode message}"
  | .includedFile none => "IncludedFile (empty)"
  | other => other.name

/-- The depth of every node: one more than its parent's. -/
def depths (story : Story) : List Nat :=
  (story.nodes.foldl
    (fun (known : Array Nat) node =>
      known.push ((node.parent.map fun parent => (known[parent.index]?).getD 0 + 1).getD 0))
    #[]).toList

/-- One line, with its indentation and, if wanted, the span of its node. -/
def line (withSpans : Bool) (depth : Nat) (label : String) (span : Span) : String :=
  String.ofList (List.replicate (2 * depth) ' ') ++ label ++
    (if withSpans then s!"  @{span.display}" else "") ++ "\n"

mutual

/-- The lines of a story that is itself at some depth. -/
def outlineLines (withSpans : Bool) (depth : Nat) : Story → List String
  | .mk file nodes =>
      outlineNodes withSpans depth (.mk file nodes) (depths (.mk file nodes)) 0 nodes

/-- The lines of some nodes of a story, given their depths and the number of the first. -/
def outlineNodes (withSpans : Bool) (depth : Nat) (story : Story) (depths : List Nat)
    (number : Nat) : List (Node Story) → List String
  | [] => []
  | node :: others =>
      outlineNode withSpans (depth + depths.headD 0) story number node ++
        outlineNodes withSpans depth story depths.tail (number + 1) others

/-- The line of a node, and those of the story that it includes. -/
def outlineNode (withSpans : Bool) (depth : Nat) (story : Story) (number : Nat) :
    Node Story → List String
  | ⟨kind, _, span⟩ =>
      line withSpans depth (story.label ⟨number⟩ kind) span ::
        outlineKind withSpans (depth + 1) kind

/-- The lines of an included story. -/
def outlineKind (withSpans : Bool) (depth : Nat) : NodeKind Story → List String
  | .includedFile (some included) => outlineLines withSpans depth included
  | _ => []

end

/-- The indented listing of all nodes of a story. -/
def outline (story : Story) (withSpans : Bool) : String :=
  String.join (story.outlineLines withSpans 0)

end Story

end InkSyntax
