import InkSyntax.Proofs.Story.Outlines
import InkSyntax.Proofs.Story.Schema

namespace InkSyntax

/-!
# What labels show of a story

Labels quote the texts of a story, but expressions are described in full.  Names and
numbers have no line feeds, so it is only in the literals of strings that a description
can come upon one, and then the label of the literal shows it.
-/

namespace NodeKind

variable {σ : Type}

/-- Nodes that are described by what is below them. -/
def spellsOut : NodeKind σ → Bool
  | .path _ | .reference _ | .string _ | .divert _ | .divertTarget _ | .unary .. | .binary ..
  | .functionCall .. | .listLiteral _ | .step .. | .allOf _ | .contentList _ => true
  | _ => false

/-- The text that a node itself adds to its description, as it stands in the script. -/
def ownText : NodeKind σ → String
  | .text written => written
  | .identifier name => name
  | _ => ""

/-- Texts and lists of content. -/
def isProse : NodeKind σ → Bool
  | .text _ | .contentList _ => true
  | _ => false

theorem unbroken_name
    (kind : NodeKind σ) :
    Unbroken kind.name := by
  cases kind <;> simp +decide [name]

theorem unbroken_symbols :
    (∀ op : UnaryOp, Unbroken op.symbol) ∧ ∀ op : BinaryOp, Unbroken op.symbol := by
  constructor
  · intro op
    cases op <;> decide
  · intro op
    cases op <;> decide

/-- A description is broken in the node's own text, or in what it shows of those below. -/
theorem unbroken_describeWith_iff
    (below : NodeId → String)
    (kind : NodeKind σ) :
    Unbroken (kind.describeWith below) ↔
      Unbroken kind.ownText ∧
        (kind.spellsOut = true → ∀ child ∈ kind.children, Unbroken (below child)) := by
  have joined
      (separator : String)
      (between : Unbroken separator)
      (ids : List NodeId) :
      Unbroken (String.intercalate separator (ids.map below)) ↔
        ∀ id ∈ ids, Unbroken (below id) := by
    rw [unbroken_intercalate between, List.forall_mem_map]
  have points : Unbroken "." := by decide
  have commas : Unbroken ", " := by decide
  have ands : Unbroken " && " := by decide
  obtain ⟨unary, binary⟩ := unbroken_symbols
  cases kind with
  | text written => simp [describeWith, ownText, spellsOut]
  | identifier name => simp [describeWith, ownText, spellsOut]
  | number value =>
      simp [describeWith, ownText, spellsOut, unbroken_empty, value.unbroken_display]
  | path components =>
      simp [describeWith, ownText, spellsOut, unbroken_empty, joined _ points, children]
  | reference components =>
      simp [describeWith, ownText, spellsOut, unbroken_empty, joined _ points, children]
  | string content =>
      simp +decide [describeWith, ownText, spellsOut, joined, children]
  | divert link =>
      obtain ⟨target, arguments, isTunnel, isThread, isEmpty⟩ := link
      have listed := joined _ commas arguments
      by_cases noArguments : arguments = []
      · cases target <;>
          simp +decide [describeWith, ownText, spellsOut, noArguments, children]
      · cases target <;>
          simp +decide [describeWith, ownText, spellsOut, noArguments, listed, children]
  | divertTarget link =>
      simp [describeWith, ownText, spellsOut, unbroken_empty, children]
  | unary op inner =>
      simp [describeWith, ownText, spellsOut, unbroken_empty, unary, children]
  | binary left op right =>
      simp +decide [describeWith, ownText, spellsOut, binary, children]
  | functionCall function arguments dropsResult =>
      simp +decide [describeWith, ownText, spellsOut, joined _ commas, children]
  | listLiteral items =>
      simp +decide [describeWith, ownText, spellsOut, joined _ commas, children]
  | step target amount isIncrement =>
      cases amount <;> cases isIncrement <;>
        simp +decide [describeWith, ownText, spellsOut, children]
  | allOf conditions =>
      simp [describeWith, ownText, spellsOut, unbroken_empty, joined _ ands, children]
  | contentList content =>
      simp [describeWith, ownText, spellsOut, unbroken_empty, joined, children]
  | glue => simp +decide [describeWith, ownText, spellsOut]
  | _ =>
      simp [describeWith, ownText, spellsOut, unbroken_empty, unbroken_name]

end NodeKind

namespace Story

/-- A node is described by way of the other, or is the other. -/
abbrev Shows (story : Story) : NodeId → NodeId → Prop :=
  Relation.ReflTransGen fun outer inner =>
    ∃ kind, story.kind? outer = some kind ∧ kind.spellsOut = true ∧ inner ∈ kind.children

variable
    {story : Story}
    {id outer inner : NodeId}
    {kind : StoryKind}
    {levels : Nat}

/-- Looking down far enough, a description is broken just if a text is that it comes upon. -/
theorem IsTree.unbroken_describeWithin_iff
    (isTree : story.IsTree)
    (enough : story.size ≤ id.index + levels) :
    Unbroken (describeWithin story.kind? levels id) ↔
      ∀ inner kind,
        story.Shows id inner → story.kind? inner = some kind → Unbroken kind.ownText := by
  have unknown
      {id : NodeId}
      (isUnknown : story.kind? id = none) :
      ∀ inner kind,
        story.Shows id inner → story.kind? inner = some kind → Unbroken kind.ownText := by
    intro inner kind shows_ isKind
    rcases shows_.cases_head with rfl | ⟨child, ⟨kind, isOuter, -⟩, -⟩
    · rw [isUnknown] at isKind
      cases isKind
    · rw [isUnknown] at isOuter
      cases isOuter
  induction levels generalizing id with
  | zero =>
      have isUnknown : story.kind? id = none := by
        cases isKind : story.kind? id with
        | none => rfl
        | some kind =>
            have := lt_size_of_kind? isKind
            omega
      exact iff_of_true unbroken_empty (unknown isUnknown)
  | succ levels inductionHypothesis =>
      cases isKind : story.kind? id with
      | none =>
          simp only [describeWithin, isKind]
          exact iff_of_true unbroken_empty (unknown isKind)
      | some kind =>
          have further
              (child : NodeId)
              (isChild : child ∈ kind.children) :
              story.size ≤ child.index + levels := by
            rw [← children_eq isKind] at isChild
            have := isTree.lt_of_parent (isTree.parent?_eq_some_iff.mpr isChild)
            omega
          simp only [describeWithin, isKind]
          rw [NodeKind.unbroken_describeWith_iff]
          constructor
          · rintro ⟨own, others⟩ inner other shows_ isOther
            rcases shows_.cases_head with
              rfl | ⟨child, ⟨same, isSame, spells, isChild⟩, reaches⟩
            · rw [isKind] at isOther
              exact Option.some.inj isOther ▸ own
            · cases isKind.symm.trans isSame
              exact
                (inductionHypothesis (further child isChild)).mp
                  (others spells child isChild) inner other reaches isOther
          · intro all
            refine ⟨all id kind .refl isKind, fun spells child isChild => ?_⟩
            refine (inductionHypothesis (further child isChild)).mpr ?_
            exact fun inner other reaches isOther =>
              all inner other (.head ⟨kind, isKind, spells, isChild⟩ reaches) isOther

theorem IsTree.unbroken_describe_iff
    (isTree : story.IsTree)
    (id : NodeId) :
    Unbroken (story.describe id) ↔
      ∀ inner kind,
        story.Shows id inner → story.kind? inner = some kind → Unbroken kind.ownText :=
  isTree.unbroken_describeWithin_iff (Nat.le_add_left _ _)

/-- Literals of strings show no text with a line feed in it. -/
def HasUnbrokenLiterals (story : Story) : Prop :=
  ∀ literal content inner written,
    story.kind? literal = some (.string content) →
    story.Shows literal inner →
    story.kind? inner = some (.text written) →
    Unbroken written

/-- Neither the name of the file nor the literals of strings have line feeds. -/
structure IsUnbroken (story : Story) : Prop where
  file : ∀ file, story.file = some file → Unbroken file
  literals : story.HasUnbrokenLiterals

section Roles

variable
    {roles : List Part}
    (isTree : story.IsTree)
    (isStory : (Story.root, .story) ∈ roles)
    (played : ArePlayed story.kind? roles)

include isTree isStory played

/-- Outside of literals nothing is described by prose. -/
theorem not_isProse_of_child
    (isKind : story.kind? outer = some kind)
    (noProse : kind.isProse = false)
    (noLiteral : ∀ content, kind ≠ .string content)
    (spells : kind.spellsOut = true)
    (isChild : inner ∈ kind.children) :
    ∃ child, story.kind? inner = some child ∧ child.isProse = false := by
  obtain ⟨⟨_, role⟩, isPart, rfl⟩ : ∃ part ∈ kind.parts, part.1 = inner := by
    rw [← Role.map_fst_demands .story, Role.demands_eq_parts (by simp)] at isChild
    exact List.mem_map.mp isChild
  obtain ⟨child, isChild, suits⟩ :=
    exists_child_of_parts isTree isStory played isKind isPart
  have isTerm :
      role = .identifier ∨ role = .word ∨ role = .path ∨ role = .straight ∨
        role = .expression := by
    cases kind <;>
      simp only [NodeKind.parts, List.mem_append, List.mem_cons, Role.mem_parts,
        List.not_mem_nil, Prod.mk.injEq] at isPart <;>
      grind [NodeKind.isProse, NodeKind.spellsOut]
  refine ⟨child, isChild, ?_⟩
  rcases isTerm with rfl | rfl | rfl | rfl | rfl <;>
    cases child <;> first | rfl | cases suits

/-- So prose is shown by way of a literal, if it is not prose that is described. -/
theorem exists_literal_of_shows
    (isKind : story.kind? id = some kind)
    (noProse : kind.isProse = false)
    (shows_ : story.Shows id inner) :
    (∃ literal content,
        story.kind? literal = some (.string content) ∧ story.Shows literal inner) ∨
      ∃ other, story.kind? inner = some other ∧ other.isProse = false := by
  induction shows_ with
  | refl =>
      exact .inr ⟨kind, isKind, noProse⟩
  | @tail outer inner _ shown inductionHypothesis =>
      rcases inductionHypothesis with
        ⟨literal, content, isLiteral, reaches⟩ | ⟨other, isOther, plain⟩
      · exact .inl ⟨literal, content, isLiteral, reaches.tail shown⟩
      · obtain ⟨same, isSame, spells, isChild⟩ := shown
        cases isOther.symm.trans isSame
        by_cases isLiteral : ∃ content, other = .string content
        · obtain ⟨content, rfl⟩ := isLiteral
          exact .inl ⟨outer, content, isOther, .single ⟨_, isOther, spells, isChild⟩⟩
        · exact
            .inr
              (not_isProse_of_child isTree isStory played isOther plain
                (fun content isString => isLiteral ⟨content, isString⟩) spells isChild)

theorem unbroken_describe
    (literals : story.HasUnbrokenLiterals)
    (isKind : story.kind? id = some kind)
    (noProse : kind.isProse = false) :
    Unbroken (story.describe id) := by
  refine (isTree.unbroken_describe_iff id).mpr fun inner other shows_ isOther => ?_
  obtain ⟨-, -, proper, -⟩ := exists_calling isTree isStory played isOther
  have literal := exists_literal_of_shows isTree isStory played isKind noProse shows_
  cases other with
  | identifier name =>
      exact proper
  | text written =>
      rcases literal with ⟨literal, content, isLiteral, reaches⟩ | ⟨same, isSame, plain⟩
      · exact literals literal content inner written isLiteral reaches isOther
      · cases isOther.symm.trans isSame
        cases plain
  | _ => exact unbroken_empty

theorem unbroken_label
    (unbroken : story.IsUnbroken)
    (isKind : story.kind? id = some kind) :
    Unbroken (story.label id kind) := by
  obtain ⟨-, -, proper, -⟩ := exists_calling isTree isStory played isKind
  have described (noProse : kind.isProse = false) :=
    unbroken_describe isTree isStory played unbroken.literals isKind noProse
  have commas : Unbroken ", " := by decide
  have identifier
      {name : NodeId}
      (isPart : (name, Role.identifier) ∈ kind.parts) :
      Unbroken (story.describe name) := by
    obtain ⟨word, isName⟩ :=
      exists_identifier_of_parts isTree isStory played isKind isPart (.inl rfl)
    exact unbroken_describe isTree isStory played unbroken.literals isName rfl
  unfold label
  cases kind with
  | story content =>
      dsimp only
      split
      next file isFile => simp +decide [unbroken.file file isFile]
      next => decide
  | text written =>
      simp +decide [Quoted.unbroken_encode]
  | tag isStart =>
      cases isStart <;> simp +decide
  | identifier name =>
      have isName : Unbroken name := proper
      simp +decide [isName]
  | divert link =>
      have whole := described rfl
      obtain ⟨target, arguments, isTunnel, isThread, isEmpty⟩ := link
      cases isTunnel <;> cases isThread <;> cases isEmpty <;> simp +decide [whole]
  | choice option =>
      cases once : option.onceOnly <;> cases default : option.isInvisibleDefault <;>
        simp +decide [once, default]
  | gather name depth rejoins =>
      simp +decide
  | weave content base =>
      simp +decide
  | flow part =>
      have parameters :=
        (unbroken_intercalate commas).mpr (List.forall_mem_map.mpr proper)
      have named := identifier List.mem_cons_self
      cases isFunction : part.isFunction <;> cases level : part.level <;>
        simp +decide [isFunction, level, named, parameters]
  | sequence type alternatives =>
      have words : Unbroken type.words := by
        obtain ⟨stopping, cycle, shuffle, once⟩ := type
        cases stopping <;> cases cycle <;> cases shuffle <;> cases once <;> decide
      simp +decide [words]
  | branch arm =>
      have role : Unbroken arm.role := by
        unfold Branch.role
        split_ifs <;> decide
      cases inline : arm.isInline <;> simp +decide [inline, role]
  | assignment name value isGlobal isTemporary =>
      have named := identifier List.mem_cons_self
      cases isGlobal <;> cases isTemporary <;> simp +decide [named]
  | listElement name selected value =>
      cases selected <;> cases value <;> simp +decide
  | external name parameters =>
      have names := (unbroken_intercalate commas).mpr proper
      simp +decide [names]
  | functionCall | reference | number | string | unary | binary | step | listLiteral =>
      simp +decide [described rfl, NodeKind.unbroken_name]
  | authorWarning message =>
      simp +decide [Quoted.unbroken_encode]
  | includedFile included =>
      cases included <;> simp +decide [NodeKind.name]
  | _ => exact NodeKind.unbroken_name _

/-- Labels are broken just by the name of the file and by the literals of strings. -/
theorem unbroken_labels_iff :
    (∀ id kind, story.kind? id = some kind → Unbroken (story.label id kind)) ↔
      story.IsUnbroken := by
  constructor
  · intro labels
    refine ⟨fun file isFile => ?_, ?_⟩
    · obtain ⟨⟨node, content, isNode, isKind, -⟩, -⟩ := isTree.root
      have shown :=
        labels Story.root (.story content)
          (Option.map_eq_some_iff.mpr ⟨node, isNode, isKind⟩)
      unfold label at shown
      simp only [isFile, unbroken_append, unbroken_toString] at shown
      exact shown.2
    · intro literal content inner written isLiteral shows_ isText
      have shown := labels literal _ isLiteral
      unfold label at shown
      simp only [unbroken_append, unbroken_toString] at shown
      exact
        (isTree.unbroken_describe_iff literal).mp shown.2 inner _ shows_ isText
  · intro unbroken id kind isKind
    exact unbroken_label isTree isStory played unbroken isKind

end Roles

end Story

end InkSyntax
