import InkSyntax.Decimal.Notation
import InkSyntax.Story.Location

namespace InkSyntax

/-!
# Nodes of a story

A node refers to the nodes below it by their numbers.  `NodeKind.children` lists
these numbers in the order of the text and `NodeKind.mapChildren` changes them;
both run over the same fields.  The choices that a gather rejoins are references,
not children.
-/

/-- A knot, or a stitch inside a knot. -/
inductive FlowLevel where
  | knot
  | stitch
  deriving DecidableEq, Repr

/-- A parameter of a knot, stitch or function. -/
structure Parameter where
  name : String
  byReference : Bool
  isDivertTarget : Bool
  deriving DecidableEq, Repr

/-- How a sequence picks its next alternative. -/
structure SequenceType where
  stopping : Bool := false
  cycle : Bool := false
  shuffle : Bool := false
  once : Bool := false
  deriving DecidableEq, Repr

/-- A literal value. -/
inductive NumberValue where
  | int (value : Int)
  | float (value : Binary32)
  | bool (value : Bool)
  deriving DecidableEq, Repr

inductive UnaryOp where
  | negate
  | not
  deriving DecidableEq, Repr

inductive BinaryOp where
  | and
  | or
  | equal
  | notEqual
  | less
  | lessOrEqual
  | greater
  | greaterOrEqual
  | has
  | hasnt
  | intersect
  | add
  | subtract
  | multiply
  | divide
  | modulo
  deriving DecidableEq, Repr

/-- Where a reader is sent. -/
structure Divert where
  target : Option NodeId := none
  arguments : List NodeId := []
  isTunnel : Bool := false
  isThread : Bool := false
  isEmpty : Bool := false
  deriving DecidableEq, Repr

/-- One option offered to the reader. -/
structure Choice where
  name : Option NodeId := none
  condition : Option NodeId := none
  /-- What is shown both in the option and after it is taken. -/
  startContent : Option NodeId := none
  /-- What is shown in the option alone. -/
  choiceOnlyContent : Option NodeId := none
  /-- What is shown only after the option is taken. -/
  innerContent : Option NodeId := none
  depth : Nat
  onceOnly : Bool
  hasBrackets : Bool := false
  isInvisibleDefault : Bool := false
  deriving DecidableEq, Repr

/-- A knot, stitch or function. -/
structure Flow where
  level : FlowLevel
  name : NodeId
  parameters : List Parameter
  content : List NodeId
  isFunction : Bool
  deriving DecidableEq, Repr

/-- One way on of a conditional. -/
structure Branch where
  ownCondition : Option NodeId := none
  content : List NodeId := []
  isTrueBranch : Bool := false
  isElse : Bool := false
  /-- The condition is a value to compare the subject with. -/
  matchingEquality : Bool := false
  isInline : Bool := false
  deriving DecidableEq, Repr

/-- What a node is; included files hold stories of type `σ`. -/
inductive NodeKind (σ : Type) where
  | story (content : List NodeId)
  | text (text : String)
  | glue
  | tag (isStart : Bool)
  | identifier (name : String)
  /-- Identifiers with points between them. -/
  | path (components : List NodeId)
  | divert (divert : Divert)
  /-- The way back out of a tunnel, perhaps to go on elsewhere. -/
  | tunnelOnwards (after : Option NodeId)
  /-- A divert used as a value. -/
  | divertTarget (divert : NodeId)
  | contentList (content : List NodeId)
  | choice (choice : Choice)
  | gather (name : Option NodeId) (depth : Nat) (rejoins : List NodeId)
  | weave (content : List NodeId) (base : Nat)
  | flow (flow : Flow)
  | sequence (type : SequenceType) (alternatives : List NodeId)
  | conditional (subject : Option NodeId) (branches : List NodeId)
  | branch (branch : Branch)
  | assignment (name : NodeId) (value : Option NodeId) (isGlobal isTemporary : Bool)
  | constant (name value : NodeId)
  | listDefinition (elements : List NodeId)
  | listElement (name : NodeId) (selected : Bool) (value : Option Int)
  | listLiteral (items : List NodeId)
  | external (name : NodeId) (parameters : List String)
  | functionCall (name : NodeId) (arguments : List NodeId) (dropsResult : Bool)
  | reference (path : List NodeId)
  | number (value : NumberValue)
  | string (content : List NodeId)
  | unary (op : UnaryOp) (inner : NodeId)
  | binary (left : NodeId) (op : BinaryOp) (right : NodeId)
  | step (target : NodeId) (amount : Option NodeId) (isIncrement : Bool)
  | allOf (conditions : List NodeId)
  | return (value : Option NodeId)
  | authorWarning (message : String)
  | includedFile (story : Option σ)
  deriving DecidableEq, Repr

namespace NumberValue

/-- As it is written in a script. -/
def display : NumberValue → String
  | .int value => toString value
  | .float value => value.display
  | .bool value => if value then "true" else "false"

end NumberValue

namespace UnaryOp

/-- The operator as it is written before its operand. -/
def symbol : UnaryOp → String
  | .negate => "-"
  | .not => "!"

end UnaryOp

namespace BinaryOp

/-- The operator in symbols, also where a word can stand for it. -/
def symbol : BinaryOp → String
  | .and => "&&"
  | .or => "||"
  | .equal => "=="
  | .notEqual => "!="
  | .less => "<"
  | .lessOrEqual => "<="
  | .greater => ">"
  | .greaterOrEqual => ">="
  | .has => "?"
  | .hasnt => "!?"
  | .intersect => "^"
  | .add => "+"
  | .subtract => "-"
  | .multiply => "*"
  | .divide => "/"
  | .modulo => "%"

end BinaryOp

namespace SequenceType

/-- The words that ask for this type in a script. -/
def words (type : SequenceType) : String :=
  let chosen :=
    [(type.once, "once"), (type.cycle, "cycle"), (type.shuffle, "shuffle"),
      (type.stopping, "stopping")]
  String.intercalate " " ((chosen.filter (·.1)).map (·.2))

/-- The names of the properties of this type, for machine-readable output. -/
def flagNames (type : SequenceType) : String :=
  let flags :=
    [(type.stopping, "STOPPING"), (type.cycle, "CYCLE"), (type.shuffle, "SHUFFLE"),
      (type.once, "ONCE")]
  String.intercalate " | " ((flags.filter (·.1)).map (·.2))

/-- The properties of either type. -/
def union (left right : SequenceType) : SequenceType :=
  ⟨left.stopping || right.stopping, left.cycle || right.cycle, left.shuffle || right.shuffle,
    left.once || right.once⟩

/-- The type with the given bits: stopping, cycle, shuffle and once from the lowest. -/
def ofBits (bits : Nat) : SequenceType :=
  ⟨bits.testBit 0, bits.testBit 1, bits.testBit 2, bits.testBit 3⟩

end SequenceType

namespace NodeKind

variable {σ : Type}

/-- The name of the kind, as users see it. -/
def name : NodeKind σ → String
  | .story .. => "Story"
  | .text .. => "Text"
  | .glue => "Glue"
  | .tag .. => "Tag"
  | .identifier .. => "Identifier"
  | .path .. => "Path"
  | .divert .. => "Divert"
  | .tunnelOnwards .. => "TunnelOnwards"
  | .divertTarget .. => "DivertTarget"
  | .contentList .. => "ContentList"
  | .choice .. => "Choice"
  | .gather .. => "Gather"
  | .weave .. => "Weave"
  | .flow .. => "Flow"
  | .sequence .. => "Sequence"
  | .conditional .. => "Conditional"
  | .branch .. => "ConditionalBranch"
  | .assignment .. => "VariableAssignment"
  | .constant .. => "ConstDeclaration"
  | .listDefinition .. => "ListDefinition"
  | .listElement .. => "ListElement"
  | .listLiteral .. => "ListLiteral"
  | .external .. => "ExternalDeclaration"
  | .functionCall .. => "FunctionCall"
  | .reference .. => "VariableReference"
  | .number .. => "Number"
  | .string .. => "StringExpression"
  | .unary .. => "Unary"
  | .binary .. => "Binary"
  | .step .. => "IncDec"
  | .allOf .. => "MultipleCondition"
  | .return .. => "Return"
  | .authorWarning .. => "AuthorWarning"
  | .includedFile .. => "IncludedFile"

/-- The nodes directly below, in the order of the text. -/
def children : NodeKind σ → List NodeId
  | .story content => content
  | .path components => components
  | .divert link => link.target.toList ++ link.arguments
  | .tunnelOnwards after => after.toList
  | .divertTarget link => [link]
  | .contentList content => content
  | .choice option =>
      option.name.toList ++ option.condition.toList ++ option.startContent.toList ++
        option.choiceOnlyContent.toList ++ option.innerContent.toList
  | .gather name _ _ => name.toList
  | .weave content _ => content
  | .flow part => part.name :: part.content
  | .sequence _ alternatives => alternatives
  | .conditional subject branches => subject.toList ++ branches
  | .branch arm => arm.ownCondition.toList ++ arm.content
  | .assignment name value _ _ => name :: value.toList
  | .constant name value => [name, value]
  | .listDefinition elements => elements
  | .listElement name _ _ => [name]
  | .listLiteral items => items
  | .external name _ => [name]
  | .functionCall name arguments _ => name :: arguments
  | .reference parts => parts
  | .string content => content
  | .unary _ inner => [inner]
  | .binary left _ right => [left, right]
  | .step target amount _ => target :: amount.toList
  | .allOf conditions => conditions
  | .return value => value.toList
  | .text _ | .glue | .tag _ | .identifier _ | .number _ | .authorWarning _
  | .includedFile _ => []

/-- The same node with other numbers for the nodes below it. -/
def mapChildren (rename : NodeId → NodeId) : NodeKind σ → NodeKind σ
  | .story content => .story (content.map rename)
  | .path components => .path (components.map rename)
  | .divert link =>
      .divert { link with
        target := link.target.map rename, arguments := link.arguments.map rename }
  | .tunnelOnwards after => .tunnelOnwards (after.map rename)
  | .divertTarget link => .divertTarget (rename link)
  | .contentList content => .contentList (content.map rename)
  | .choice option =>
      .choice { option with
        name := option.name.map rename
        condition := option.condition.map rename
        startContent := option.startContent.map rename
        choiceOnlyContent := option.choiceOnlyContent.map rename
        innerContent := option.innerContent.map rename }
  | .gather name depth rejoins => .gather (name.map rename) depth rejoins
  | .weave content base => .weave (content.map rename) base
  | .flow part =>
      .flow { part with name := rename part.name, content := part.content.map rename }
  | .sequence type alternatives => .sequence type (alternatives.map rename)
  | .conditional subject branches => .conditional (subject.map rename) (branches.map rename)
  | .branch arm =>
      .branch { arm with
        ownCondition := arm.ownCondition.map rename, content := arm.content.map rename }
  | .assignment name value isGlobal isTemporary =>
      .assignment (rename name) (value.map rename) isGlobal isTemporary
  | .constant name value => .constant (rename name) (rename value)
  | .listDefinition elements => .listDefinition (elements.map rename)
  | .listElement name selected value => .listElement (rename name) selected value
  | .listLiteral items => .listLiteral (items.map rename)
  | .external name parameters => .external (rename name) parameters
  | .functionCall name arguments dropsResult =>
      .functionCall (rename name) (arguments.map rename) dropsResult
  | .reference parts => .reference (parts.map rename)
  | .string content => .string (content.map rename)
  | .unary op inner => .unary op (rename inner)
  | .binary left op right => .binary (rename left) op (rename right)
  | .step target amount isIncrement => .step (rename target) (amount.map rename) isIncrement
  | .allOf conditions => .allOf (conditions.map rename)
  | .return value => .return (value.map rename)
  | .text written => .text written
  | .glue => .glue
  | .tag isStart => .tag isStart
  | .identifier name => .identifier name
  | .number value => .number value
  | .authorWarning message => .authorWarning message
  | .includedFile included => .includedFile included

theorem toList_map_option {α β : Type} (change : α → β) (value : Option α) :
    (value.map change).toList = value.toList.map change := by
  cases value <;> rfl

/-- Renaming the children of a node renames them one by one, in order. -/
theorem children_mapChildren (rename : NodeId → NodeId) (kind : NodeKind σ) :
    (kind.mapChildren rename).children = kind.children.map rename := by
  cases kind <;> simp [mapChildren, children, toList_map_option]

/-- The same gather with other choices that it rejoins; other nodes are unchanged. -/
def withRejoins (change : List NodeId → List NodeId) : NodeKind σ → NodeKind σ
  | .gather name depth rejoins => .gather name depth (change rejoins)
  | other => other

/-- The depth of a choice or gather, which places it in a weave. -/
def weavePointDepth? : NodeKind σ → Option Nat
  | .choice option => some option.depth
  | .gather _ depth _ => some depth
  | _ => none

def isFlow : NodeKind σ → Bool
  | .flow _ => true
  | _ => false

def isGather : NodeKind σ → Bool
  | .gather .. => true
  | _ => false

def isChoice : NodeKind σ → Bool
  | .choice _ => true
  | _ => false

/-- Nodes that have a value. -/
def isExpression : NodeKind σ → Bool
  | .number _ | .string _ | .divertTarget _ | .reference _ | .listLiteral _ | .functionCall ..
  | .unary .. | .binary .. | .step .. | .allOf _ => true
  | _ => false

end NodeKind

/-- A node with its place in the tree and in the text. -/
structure Node (σ : Type) where
  kind : NodeKind σ
  parent : Option NodeId
  span : Span
  deriving DecidableEq, Repr

/-- A script that was read: its nodes, each after its parent and the root first. -/
inductive Story where
  | mk (file : Option String) (nodes : List (Node Story))

end InkSyntax
