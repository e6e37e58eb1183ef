import InkSyntax.Json.Writer
import InkSyntax.Story.Outline

namespace InkSyntax

/-!
# Stories as structured values

A story is written as an object with its file, its nodes in order and its root.
A node has the fields of its kind by name, after the name of the kind itself.
-/

namespace NodeId

/-- The number of a node. -/
def structured (id : NodeId) : JsonValue := .ofNat id.index

end NodeId

namespace Position

/-- A place, by its three numbers. -/
def structured (position : Position) : JsonValue :=
  .object [("offset", .ofNat position.offset), ("line", .ofNat position.line),
    ("column", .ofNat position.column)]

end Position

namespace Span

/-- A stretch of text, by its ends. -/
def structured (span : Span) : JsonValue :=
  .object [("start", span.start.structured), ("end", span.stop.structured)]

end Span

namespace Parameter

/-- A parameter, by its name and properties. -/
def structured (parameter : Parameter) : JsonValue :=
  .object [("name", .text parameter.name), ("is_by_reference", .bool parameter.byReference),
    ("is_divert_target", .bool parameter.isDivertTarget)]

end Parameter

namespace Binary32

/-- A number as a structured value; an infinity has none. -/
def structured (number : Binary32) : JsonValue :=
  if number.isInfinite then .null else .number (number.write .structured)

end Binary32

namespace NumberValue

/-- A literal value with its type. -/
def structured (ofFloat : Binary32 → JsonValue) : NumberValue → JsonValue
  | .int value => .object [("type", .text "Int"), ("value", .ofInt value)]
  | .float value => .object [("type", .text "Float"), ("value", ofFloat value)]
  | .bool value => .object [("type", .text "Bool"), ("value", .bool value)]

end NumberValue

namespace UnaryOp

/-- The name of an operator. -/
def name : UnaryOp → String
  | .negate => "Negate"
  | .not => "Not"

end UnaryOp

namespace BinaryOp

/-- The name of an operator. -/
def name : BinaryOp → String
  | .and => "And"
  | .or => "Or"
  | .equal => "Equal"
  | .notEqual => "NotEqual"
  | .less => "Less"
  | .lessOrEqual => "LessOrEqual"
  | .greater => "Greater"
  | .greaterOrEqual => "GreaterOrEqual"
  | .has => "Has"
  | .hasnt => "Hasnt"
  | .intersect => "Intersect"
  | .add => "Add"
  | .subtract => "Subtract"
  | .multiply => "Multiply"
  | .divide => "Divide"
  | .modulo => "Modulo"

end BinaryOp

namespace NodeKind

/-- The fields of a node, given how included stories and floating numbers are written. -/
def fields {σ : Type} (ofStory : σ → JsonValue) (ofFloat : Binary32 → JsonValue) :
    NodeKind σ → List (String × JsonValue)
  | .story content => [("content", ids content)]
  | .text written => [("text", .text written)]
  | .glue => []
  | .tag isStart => [("is_start", .bool isStart)]
  | .identifier name => [("name", .text name)]
  | .path components => [("components", ids components)]
  | .divert link =>
      [("target", id? link.target), ("arguments", ids link.arguments),
        ("is_tunnel", .bool link.isTunnel), ("is_thread", .bool link.isThread),
        ("is_empty", .bool link.isEmpty)]
  | .tunnelOnwards after => [("divert_after", id? after)]
  | .divertTarget link => [("divert", link.structured)]
  | .contentList content => [("content", ids content)]
  | .choice option =>
      [("name", id? option.name), ("condition", id? option.condition),
        ("start_content", id? option.startContent),
        ("choice_only_content", id? option.choiceOnlyContent),
        ("inner_content", id? option.innerContent),
        ("indentation_depth", .ofNat option.depth), ("once_only", .bool option.onceOnly),
        ("has_weave_style_brackets", .bool option.hasBrackets),
        ("is_invisible_default", .bool option.isInvisibleDefault)]
  | .gather name depth rejoins =>
      [("name", id? name), ("indentation_depth", .ofNat depth), ("rejoins", ids rejoins)]
  | .weave content base => [("content", ids content), ("base_indentation", .ofNat base)]
  | .flow part =>
      [("flow_kind", .text part.level.name), ("name", part.name.structured),
        ("arguments", .ofList Parameter.structured part.parameters),
        ("content", ids part.content), ("is_function", .bool part.isFunction)]
  | .sequence type alternatives =>
      [("sequence_type", .text type.flagNames), ("alternatives", ids alternatives)]
  | .conditional subject branches =>
      [("initial_condition", id? subject), ("branches", ids branches)]
  | .branch arm =>
      [("own_condition", id? arm.ownCondition), ("content", ids arm.content),
        ("is_true_branch", .bool arm.isTrueBranch), ("is_else", .bool arm.isElse),
        ("matching_equality", .bool arm.matchingEquality), ("is_inline", .bool arm.isInline)]
  | .assignment name value isGlobal isTemporary =>
      [("name", name.structured), ("value", id? value),
        ("is_global_declaration", .bool isGlobal), ("is_new_temporary", .bool isTemporary)]
  | .constant name value => [("name", name.structured), ("value", value.structured)]
  | .listDefinition elements => [("elements", ids elements)]
  | .listElement name selected value =>
      [("name", name.structured), ("in_initial_list", .bool selected),
        ("value", .ofOption .ofInt value)]
  | .listLiteral items => [("items", ids items)]
  | .external name parameters =>
      [("name", name.structured), ("parameters", .ofList .text parameters)]
  | .functionCall name arguments dropsResult =>
      [("name", name.structured), ("arguments", ids arguments),
        ("should_pop_returned_value", .bool dropsResult)]
  | .reference parts => [("path", ids parts)]
  | .number value => [("value", value.structured ofFloat)]
  | .string content => [("content", ids content)]
  | .unary op inner => [("op", .text op.name), ("inner", inner.structured)]
  | .binary left op right =>
      [("left", left.structured), ("op", .text op.name), ("right", right.structured)]
  | .step target amount isIncrement =>
      [("target", target.structured), ("expression", id? amount),
        ("is_increment", .bool isIncrement)]
  | .allOf conditions => [("conditions", ids conditions)]
  | .return value => [("value", id? value)]
  | .authorWarning message => [("message", .text message)]
  | .includedFile included => [("story", .ofOption ofStory included)]
where
  ids (nodes : List NodeId) : JsonValue := .ofList NodeId.structured nodes
  id? (node : Option NodeId) : JsonValue := .ofOption NodeId.structured node

/-- A node of a kind: the name of the kind, then its fields. -/
def structuredWith {σ : Type} (ofStory : σ → JsonValue) (ofFloat : Binary32 → JsonValue)
    (kind : NodeKind σ) : JsonValue :=
  .object (("kind", .text kind.name) :: kind.fields ofStory ofFloat)

end NodeKind

namespace Story

mutual

/-- A story as a structured value, given how floating numbers are written. -/
def structured (ofFloat : Binary32 → JsonValue) : Story → JsonValue
  | .mk file nodes =>
      .object [("file", .ofOption .text file), ("nodes", .list (structuredNodes ofFloat nodes)),
        ("root", Story.root.structured)]

/-- The nodes of a story as structured values. -/
def structuredNodes (ofFloat : Binary32 → JsonValue) : List (Node Story) → List JsonValue
  | [] => []
  | node :: others => structuredNode ofFloat node :: structuredNodes ofFloat others

/-- A node of a story as a structured value. -/
def structuredNode (ofFloat : Binary32 → JsonValue) : Node Story → JsonValue
  | ⟨kind, parent, span⟩ =>
      .object [("kind", structuredKind ofFloat kind),
        ("parent", .ofOption NodeId.structured parent), ("span", span.structured)]

/-- What a node is, as a structured value. -/
def structuredKind (ofFloat : Binary32 → JsonValue) : NodeKind Story → JsonValue
  | .includedFile (some included) =>
      .object [("kind", .text "IncludedFile"), ("story", structured ofFloat included)]
  | kind => kind.structuredWith (fun _ => .null) ofFloat

end

/-- A story as text. -/
def jsonText (story : Story) : String := (story.structured Binary32.structured).pretty

end Story

end InkSyntax
