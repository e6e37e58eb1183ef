import InkSyntax.Grammar.Statement
import InkSyntax.Proofs.Text.Unbroken
import Mathlib.Data.List.Basic

namespace InkSyntax

/-!
# The roles of nodes

What a node is settles which roles the nodes below it have to play: a path is made
of identifiers, the branches of a conditional are branches, and so on.  A role
suits some kinds of nodes; besides, a node has to be proper in itself, whatever
stands below it.
-/

/-- What a node is good for below another one. -/
inductive Role where
  | story
  | identifier
  /-- An identifier of a given name. -/
  | named (name : String)
  /-- An identifier that is not reserved. -/
  | word
  | path
  | divert
  /-- A divert that is no tunnel. -/
  | single
  /-- A divert that is neither a tunnel nor a thread. -/
  | straight
  /-- A divert that goes to some target. -/
  | leading
  /-- A divert that is not the empty one, and whose target may still be missing. -/
  | unfinished
  | expression
  /-- An expression or the definition of a list. -/
  | value
  | list
  /-- A list that ends with a line feed. -/
  | line
  | lineFeed
  | branch
  | element
  /-- A statement at a place. -/
  | statement (place : Place)
  /-- A part of a flow or story: its weave, or a flow inside. -/
  | division (place : Place)
  /-- What stands in a weave. -/
  | woven
  deriving DecidableEq, Repr

/-- A node with the role that it plays. -/
abbrev Part := NodeId × Role

namespace Role

/-- What stands among text; any statement inside braces does. -/
abbrev content : Role := .statement .block

/-- Some nodes that all play this role. -/
def parts (role : Role) (ids : List NodeId) : List Part :=
  ids.map (·, role)

section Parts

variable
    (role : Role)
    (ids more : List NodeId)
    (id : NodeId)

@[simp] theorem parts_nil :
    role.parts [] = [] :=
  rfl

@[simp] theorem parts_cons :
    role.parts (id :: ids) = (id, role) :: role.parts ids :=
  rfl

@[simp] theorem parts_append :
    role.parts (ids ++ more) = role.parts ids ++ role.parts more :=
  List.map_append

@[simp] theorem map_fst_parts :
    (role.parts ids).map Prod.fst = ids := by
  simp [parts, Function.comp_def]

theorem parts_eq_flatMap :
    role.parts ids = ids.flatMap fun id => [(id, role)] := by
  simp [parts, ← List.map_eq_flatMap]

theorem forall₂_parts
    {role other : Role}
    {ids : List NodeId}
    {related : Part → Part → Prop}
    (holds : ∀ id ∈ ids, related (id, role) (id, other)) :
    List.Forall₂ related (role.parts ids) (other.parts ids) := by
  induction ids with
  | nil =>
      exact .nil
  | cons id rest inductionHypothesis =>
      obtain ⟨first, others⟩ := List.forall_mem_cons.mp holds
      exact .cons first (inductionHypothesis others)

end Parts

end Role

/-- The types that sequences have. -/
def sequenceTypes : List SequenceType :=
  [{ once := true }, { cycle := true }, { stopping := true },
    { shuffle := true, stopping := true }, { shuffle := true, once := true }]

/-- A divert without a target is empty or a thread, and an empty one is nothing else. -/
structure Divert.IsProper (link : Divert) : Prop where
  target : link.target = none → link.isEmpty = true ∨ link.isThread = true
  empty :
    link.isEmpty = true →
    link.arguments = [] ∧ link.isTunnel = false ∧ link.isThread = false

/-- The place that the content of a flow is. -/
def FlowLevel.place : FlowLevel → Place
  | .knot => .knot
  | .stitch => .stitch

/-- Whether a flow can stand at a place. -/
def FlowLevel.standsAt (place : Place) : FlowLevel → Bool
  | .knot => Grammar.allowsKnots place
  | .stitch => Grammar.allowsStitches place

namespace NodeKind

variable {σ : Type}

/-- What a node must be in itself; names in particular are not broken into lines. -/
def IsProper : NodeKind σ → Prop
  | .identifier name => Unbroken name
  | .flow part => ∀ parameter ∈ part.parameters, Unbroken parameter.name
  | .external _ parameters => ∀ parameter ∈ parameters, Unbroken parameter
  | .path components => components ≠ []
  | .reference components => components ≠ []
  | .divert link => link.IsProper
  | .choice option => 1 ≤ option.depth ∧ option.innerContent ≠ none
  | .gather _ depth _ => 1 ≤ depth
  | .sequence type alternatives => type ∈ sequenceTypes ∧ alternatives ≠ []
  | _ => True

/-- The nodes directly below with the roles that they have to play. -/
def parts : NodeKind σ → List Part
  | .story content => Role.parts (.division .top) content
  | .path components => Role.identifier.parts components
  | .divert link =>
      Role.path.parts link.target.toList ++ Role.expression.parts link.arguments
  | .tunnelOnwards after => Role.divert.parts after.toList
  | .divertTarget link => [(link, .straight)]
  | .contentList content => Role.content.parts content
  | .choice option =>
      Role.identifier.parts option.name.toList ++
        Role.expression.parts option.condition.toList ++
        Role.list.parts option.startContent.toList ++
        Role.list.parts option.choiceOnlyContent.toList ++
        Role.line.parts option.innerContent.toList
  | .gather name _ _ => Role.identifier.parts name.toList
  | .weave content _ => Role.woven.parts content
  | .flow part =>
      (part.name, .identifier) :: Role.parts (.division part.level.place) part.content
  | .sequence _ alternatives => Role.list.parts alternatives
  | .conditional subject branches =>
      Role.expression.parts subject.toList ++ Role.branch.parts branches
  | .branch arm =>
      Role.expression.parts arm.ownCondition.toList ++ Role.content.parts arm.content
  | .assignment name value _ _ => (name, .identifier) :: Role.value.parts value.toList
  | .constant name value => [(name, .identifier), (value, .expression)]
  | .listDefinition elements => Role.element.parts elements
  | .listElement name _ _ => [(name, .identifier)]
  | .listLiteral items => Role.identifier.parts items
  | .external name _ => [(name, .identifier)]
  | .functionCall name arguments _ =>
      (name, .identifier) :: Role.expression.parts arguments
  | .reference components =>
      Role.word.parts components.head?.toList ++ Role.identifier.parts components.tail
  | .string content => Role.content.parts content
  | .unary _ inner => [(inner, .expression)]
  | .binary left _ right => [(left, .expression), (right, .expression)]
  | .step target amount _ =>
      (target, .identifier) :: Role.expression.parts amount.toList
  | .allOf conditions => Role.expression.parts conditions
  | .return value => Role.expression.parts value.toList
  | .text _ | .glue | .tag _ | .identifier _ | .number _ | .authorWarning _
  | .includedFile _ => []

/-- Nodes that may stand among text. -/
def isContent : NodeKind σ → Bool
  | .text _ | .glue | .tag _ | .divert _ | .tunnelOnwards _ | .contentList _ | .choice _
  | .sequence .. | .conditional .. | .assignment .. | .constant .. | .external .. | .return _
  | .authorWarning _ | .includedFile _ => true
  | kind => kind.isExpression

end NodeKind

namespace Role

variable {σ : Type}

/-- Whether a node of some kind is good for a role. -/
def suits : Role → NodeKind σ → Bool
  | .story, .story _ => true
  | .identifier, .identifier _ => true
  | .named name, .identifier other => name == other
  | .word, .identifier name => !Grammar.reservedWords.contains name
  | .path, .path _ => true
  | .divert, .divert _ => true
  | .single, .divert link => !link.isTunnel
  | .straight, .divert link => !link.isTunnel && !link.isThread
  | .leading, .divert link => !link.isEmpty && (link.target.isSome || link.isThread)
  | .unfinished, .divert link => !link.isEmpty
  | .expression, kind => kind.isExpression
  | .value, .listDefinition _ => true
  | .value, kind => kind.isExpression
  | .list, .contentList _ => true
  | .line, .contentList content => !content.isEmpty
  | .lineFeed, .text written => written == "\n"
  | .branch, .branch _ => true
  | .element, .listElement .. => true
  | .statement place, .gather .. => Grammar.allowsGathers place
  | .statement place, .flow part => part.level.standsAt place
  | .statement _, kind => kind.isContent
  | .division _, .weave .. => true
  | .division place, .flow part => part.level.standsAt place
  | .woven, .gather .. => true
  | .woven, .weave .. => true
  | .woven, kind => kind.isContent
  | _, _ => false

/-- A node of some kind may play a role. -/
structure Admits (role : Role) (kind : NodeKind σ) : Prop where
  suits : role.suits kind = true
  proper : role = .unfinished ∨ kind.IsProper

/-- The parts that a node in a role has for those below; a line ends with a line feed. -/
def demands : Role → NodeKind σ → List Part
  | .line, .contentList content =>
      Role.content.parts content.dropLast ++ Role.lineFeed.parts content.getLast?.toList
  | _, kind => kind.parts

/-- Whoever plays one role may play another one instead. -/
def Serves (role other : Role) : Prop :=
  ∀ kind : StoryKind,
    role.Admits kind → other.Admits kind ∧ other.demands kind = role.demands kind

section Demands

theorem dropLast_append_getLast?_toList
    {α : Type}
    (values : List α) :
    values.dropLast ++ values.getLast?.toList = values := by
  cases isLast : values.getLast? with
  | none =>
      simp [List.getLast?_eq_none_iff.mp isLast]
  | some last =>
      exact List.dropLast_append_getLast? last isLast

theorem head?_toList_append_tail
    {α : Type}
    (values : List α) :
    values.head?.toList ++ values.tail = values := by
  cases values <;> rfl

/-- The roles go to the children of a node, one by one. -/
theorem map_fst_demands
    (role : Role)
    (kind : NodeKind σ) :
    (role.demands kind).map Prod.fst = kind.children := by
  unfold demands
  split
  · simp [NodeKind.children, dropLast_append_getLast?_toList]
  · cases kind <;>
      simp [NodeKind.parts, NodeKind.children, head?_toList_append_tail]

theorem demands_eq_parts
    {role : Role}
    (notLine : role ≠ .line)
    (kind : NodeKind σ) :
    role.demands kind = kind.parts := by
  unfold demands
  split
  · exact absurd rfl notLine
  · rfl

@[simp] theorem demands_weave
    (role : Role)
    (content : List NodeId)
    (base : Nat) :
    role.demands (.weave content base : NodeKind σ) = Role.woven.parts content := by
  cases role <;> rfl

end Demands

namespace Serves

/-- A role serves for another one of proper nodes if it suits no other kinds. -/
theorem of_suits
    {role other : Role}
    (notLine : role ≠ .line)
    (notOther : other ≠ .line)
    (proper : role ≠ .unfinished)
    (suitsBoth :
      ∀ kind : StoryKind, role.suits kind = true → other.suits kind = true) :
    role.Serves other := by
  intro kind admits
  refine ⟨⟨suitsBoth kind admits.suits, .inr ?_⟩, ?_⟩
  · exact admits.proper.resolve_left proper
  · rw [demands_eq_parts notLine, demands_eq_parts notOther]

theorem refl
    (role : Role) :
    role.Serves role :=
  fun _ admits => ⟨admits, rfl⟩

theorem expression_statement
    (place : Place) :
    Serves .expression (.statement place) :=
  .of_suits (by simp) (by simp) (by simp) fun kind isSuited => by
    cases kind <;> first | exact isSuited | cases isSuited

theorem expression_value :
    Serves .expression .value :=
  .of_suits (by simp) (by simp) (by simp) fun kind isSuited => by
    cases kind <;> first | exact isSuited | cases isSuited

/-- A name that is not reserved is a word. -/
theorem named_word
    {name : String}
    (isFree : Grammar.reservedWords.contains name = false) :
    Serves (.named name) .word :=
  .of_suits (by simp) (by simp) (by simp) fun kind isSuited => by
    cases kind with
    | identifier other =>
        have same : name = other := by simpa [suits] using isSuited
        rw [← same]
        simp only [suits, isFree, Bool.not_false]
    | _ => cases isSuited

theorem word_identifier :
    Serves .word .identifier :=
  .of_suits (by simp) (by simp) (by simp) fun kind isSuited => by
    cases kind <;> first | rfl | cases isSuited

theorem leading_unfinished :
    Serves .leading .unfinished :=
  .of_suits (by simp) (by simp) (by simp) fun kind isSuited => by
    cases kind with
    | divert link =>
        exact (Bool.and_eq_true_iff.mp isSuited).1
    | _ => cases isSuited

theorem leading_divert :
    Serves .leading .divert :=
  .of_suits (by simp) (by simp) (by simp) fun kind isSuited => by
    cases kind <;> first | rfl | cases isSuited

theorem leading_content :
    Serves .leading .content :=
  .of_suits (by simp) (by simp) (by simp) fun kind isSuited => by
    cases kind <;> first | rfl | cases isSuited

theorem list_content :
    Serves .list .content :=
  .of_suits (by simp) (by simp) (by simp) fun kind isSuited => by
    cases kind <;> first | rfl | cases isSuited

theorem content_statement
    (place : Place) :
    Serves .content (.statement place) :=
  .of_suits (by simp) (by simp) (by simp) fun kind isSuited => by
    cases kind with
    | flow part =>
        cases shape : part.level <;>
          simp [Role.suits, FlowLevel.standsAt, shape, Grammar.allowsKnots,
            Grammar.allowsStitches] at isSuited
    | _ => first | exact isSuited | cases isSuited

end Serves

end Role

end InkSyntax
