import InkSyntax.Machine.Repetition
import InkSyntax.Story.Describe

namespace InkSyntax

/-!
# What the rules of the grammar do

The rules of the grammar make nodes, amend nodes made shortly before, and read
constructs that contain each other.  Each such thing is an operation; a rule
states which operations it performs, and `InkSyntax.Grammar.Workshop` performs
them.
-/

/-- Where a run of statements stands, from the innermost place outwards. -/
inductive Place where
  /-- In a branch of a conditional or sequence that spans several lines. -/
  | block
  | stitch
  | knot
  | top
  deriving DecidableEq, Repr

/-- Constructs that contain each other, with what reading them gives. -/
inductive Construct : Type → Type where
  /-- Operands joined by operators that bind tighter than a given strength. -/
  | expression (weakerThan : Nat) : Construct NodeId
  /-- An operand with its signs. -/
  | operand : Construct NodeId
  /-- Text with logic in braces, glue, tags and diverts. -/
  | prose : Construct (List NodeId)
  /-- Statements up to the end of their block. -/
  | statements (place : Place) : Construct (List NodeId)

/-- A change to a node after it was made. -/
inductive Amendment where
  /-- A divert goes on to another one. -/
  | tunnel
  /-- A divert starts a thread. -/
  | thread
  /-- A text is replaced. -/
  | text (text : String)
  /-- A content list gets another element. -/
  | append (child : NodeId)
  /-- A branch gets its part in the conditional. -/
  | role (isTrueBranch isElse matchingEquality : Bool)
  /-- A branch is written on one line. -/
  | inline (isInline : Bool)
  /-- The result of a call is not used. -/
  | dropResult
  deriving DecidableEq, Repr

namespace Amendment

variable {σ : Type}

/-- Amend a node; nodes of other kinds are unchanged. -/
def apply : Amendment → NodeKind σ → NodeKind σ
  | tunnel, .divert link => .divert { link with isTunnel := true }
  | thread, .divert link => .divert { link with isThread := true }
  | text written, .text _ => .text written
  | append child, .contentList content => .contentList (content ++ [child])
  | role isTrueBranch isElse matchingEquality, .branch arm =>
      .branch { arm with
        isTrueBranch := isTrueBranch, isElse := isElse, matchingEquality := matchingEquality }
  | inline isInline, .branch arm => .branch { arm with isInline := isInline }
  | dropResult, .functionCall name arguments _ => .functionCall name arguments true
  | _, kind => kind

end Amendment

/-- What comes of the request to include a file. -/
inductive Inclusion where
  | story (story : Story)
  /-- The file at this path is being read already. -/
  | recursive (path : String)
  | missing

/-- The operations of the grammar. -/
inductive Craft : Type → Type 1 where
  /-- Make a node. -/
  | make (kind : StoryKind) : Craft NodeId
  /-- Make a node that spans its children. -/
  | makeSpanning (kind : StoryKind) : Craft NodeId
  /-- What a node is. -/
  | kindOf (id : NodeId) : Craft StoryKind
  | amend (id : NodeId) (amendment : Amendment) : Craft Unit
  /-- All nodes made so far, to look at a node and at all below it. -/
  | survey (id : NodeId) : Craft Draft
  /-- The span of a node, if it has one. -/
  | spanOf (id : NodeId) : Craft (Option Span)
  /-- Arrange statements into a weave, with the flows after it. -/
  | weave (content : List NodeId) : Craft (List NodeId)
  /-- Whether the content of a choice is being read. -/
  | isInChoice : Craft Bool
  | setInChoice (inChoice : Bool) : Craft Unit
  /-- Read another file. -/
  | include (file : String) : Craft Inclusion
  /-- Read a construct of the grammar. -/
  | read {α : Type} (construct : Construct α) : Craft α

/-- A rule of the grammar. -/
abbrev GrammarRule := Rule Craft

namespace Flag

/-- Inside a string: a quotation mark ends text and tags are refused. -/
def inString : UInt32 := 1

/-- A tag was opened and not closed yet. -/
def tagOpen : UInt32 := 2

end Flag

namespace Grammar

/-- Make a node. -/
def make (kind : StoryKind) : GrammarRule NodeId := .effect (.make kind)

/-- Make a text node. -/
def makeText (text : String) : GrammarRule NodeId := make (.text text)

/-- What a node is. -/
def kindOf (id : NodeId) : GrammarRule StoryKind := .effect (.kindOf id)

/-- Change a node after it was made. -/
def amend (id : NodeId) (amendment : Amendment) : GrammarRule Unit :=
  .effect (.amend id amendment)

/-- All nodes made so far, to look at a node and at all below it. -/
def survey (id : NodeId) : GrammarRule Draft := .effect (.survey id)

/-- The span of a node, if it has one. -/
def spanOf (id : NodeId) : GrammarRule (Option Span) := .effect (.spanOf id)

/-- Operands joined by operators. -/
def expression : GrammarRule NodeId := .effect (.read (.expression 0))

/-- Text with logic in braces, glue, tags and diverts. -/
def prose : GrammarRule (List NodeId) := .effect (.read .prose)

/-- Statements up to the end of their block. -/
def statements (place : Place) : GrammarRule (List NodeId) :=
  .effect (.read (.statements place))

/-- Report an error on the first line of a node. -/
def errorAt (id : NodeId) (message : String) : GrammarRule Unit := do
  let line ← match ← spanOf id with
    | some span => pure span.start.line
    | none => Rule.line
  Rule.report .error line message

/-- The name of an identifier node, empty for other nodes. -/
def identifierName (id : NodeId) : GrammarRule String := do
  match ← kindOf id with
  | .identifier name => return name
  | _ => return ""

end Grammar

end InkSyntax
