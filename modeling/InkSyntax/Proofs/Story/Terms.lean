import InkSyntax.Proofs.Story.Kinds
import InkSyntax.Story.Describe
import Mathlib.Data.List.Forall2
import Mathlib.Data.List.Nodup
import Mathlib.Data.List.Perm.Subperm

namespace InkSyntax

/-!
# Terms

An expression in a story is spread over nodes that refer to each other by numbers.  A
term is the same expression as one tree, without numbers and spans: two nodes are equal
up to these if they represent the same term.  Describing a node writes the term that it
represents.
-/

/-- An element of a list literal, perhaps with the name of its list. -/
structure ListItem where
  first : String
  element : Option String := none
  deriving DecidableEq, Repr

/-- An expression made of numbers, names, calls, lists and operators. -/
inductive Term where
  | int (value : Int)
  | bool (value : Bool)
  | reference (path : List String)
  | list (items : List ListItem)
  | call (name : String) (arguments : List Term)
  | unary (op : UnaryOp) (operand : Term)
  | binary (left : Term) (op : BinaryOp) (right : Term)
  deriving Repr

/-- An element as the name of an identifier. -/
def ListItem.written (item : ListItem) : String :=
  item.first ++
    match item.element with
    | some element => "." ++ element
    | none => ""

namespace Term

/-- Induction over terms, with the arguments of a call taken one by one. -/
@[induction_eliminator]
theorem induction
    {motive : Term → Prop}
    (int : ∀ value, motive (.int value))
    (bool : ∀ value, motive (.bool value))
    (reference : ∀ path, motive (.reference path))
    (list : ∀ items, motive (.list items))
    (call :
      ∀ name arguments,
        (∀ argument ∈ arguments, motive argument) →
        motive (.call name arguments))
    (unary : ∀ op operand, motive operand → motive (.unary op operand))
    (binary :
      ∀ left op right,
        motive left → motive right → motive (.binary left op right))
    (term : Term) :
    motive term := by
  refine
    Term.rec (motive_1 := motive)
      (motive_2 := fun arguments => ∀ argument ∈ arguments, motive argument)
      int bool reference list call unary binary nofun ?_ term
  intro first others isFirst areOthers argument member
  rcases List.mem_cons.mp member with rfl | isOther
  · exact isFirst
  · exact areOthers argument isOther

mutual

/-- A term as it is written. -/
def written : Term → String
  | int value => (NumberValue.int value).display
  | bool value => (NumberValue.bool value).display
  | reference path => String.intercalate "." path
  | list items => "(" ++ String.intercalate ", " (items.map ListItem.written) ++ ")"
  | call name arguments =>
      name ++ "(" ++ String.intercalate ", " (writtenAll arguments) ++ ")"
  | unary op operand => op.symbol ++ operand.written
  | binary left op right =>
      "(" ++ left.written ++ " " ++ op.symbol ++ " " ++ right.written ++ ")"

/-- Terms as they are written. -/
def writtenAll : List Term → List String
  | [] => []
  | term :: others => term.written :: writtenAll others

end

mutual

/-- How many nodes lie on the longest way down from the node of a term. -/
def height : Term → Nat
  | int _ => 1
  | bool _ => 1
  | reference path => min path.length 1 + 1
  | list items => min items.length 1 + 1
  | call _ arguments => max 2 (heightAll arguments + 1)
  | unary _ operand => operand.height + 1
  | binary left _ right => max left.height right.height + 1

/-- The greatest height of some terms. -/
def heightAll : List Term → Nat
  | [] => 0
  | term :: others => max term.height (heightAll others)

end

/-- A node is an identifier with this name. -/
def Names
    (kind? : NodeId → Option StoryKind)
    (name : String)
    (id : NodeId) : Prop :=
  kind? id = some (.identifier name)

mutual

/--
A node, with those below it, represents a term.

Only a call that is a statement by itself drops its result, so no call in a term does.
-/
def Represents
    (kind? : NodeId → Option StoryKind) :
    Term → NodeId → Prop
  | int value, id => kind? id = some (.number (.int value))
  | bool value, id => kind? id = some (.number (.bool value))
  | reference path, id =>
      ∃ ids,
        kind? id = some (.reference ids) ∧
          List.Forall₂ (Names kind?) path ids
  | list items, id =>
      ∃ ids,
        kind? id = some (.listLiteral ids) ∧
          List.Forall₂ (Names kind?) (items.map ListItem.written) ids
  | call name arguments, id =>
      ∃ function ids,
        kind? id = some (.functionCall function ids false) ∧
          Names kind? name function ∧
          RepresentsAll kind? arguments ids
  | unary op operand, id =>
      ∃ inner,
        kind? id = some (.unary op inner) ∧ operand.Represents kind? inner
  | binary left op right, id =>
      ∃ leftId rightId,
        kind? id = some (.binary leftId op rightId) ∧
          left.Represents kind? leftId ∧
          right.Represents kind? rightId

/-- Nodes represent terms, one each. -/
def RepresentsAll
    (kind? : NodeId → Option StoryKind) :
    List Term → List NodeId → Prop
  | [], ids => ids = []
  | term :: others, ids =>
      ∃ id rest,
        ids = id :: rest ∧
          term.Represents kind? id ∧
          RepresentsAll kind? others rest

end

variable
    {kind? other? : NodeId → Option StoryKind}
    {term other : Term}
    {terms : List Term}
    {id : NodeId}
    {ids : List NodeId}

theorem writtenAll_eq_map :
    writtenAll terms = terms.map written := by
  induction terms with
  | nil =>
      rfl
  | cons term others inductionHypothesis =>
      rw [writtenAll, inductionHypothesis, List.map_cons]

theorem height_le_heightAll
    (member : term ∈ terms) :
    term.height ≤ heightAll terms := by
  induction terms with
  | nil =>
      cases member
  | cons first others inductionHypothesis =>
      rw [heightAll]
      rcases List.mem_cons.mp member with rfl | isOther
      · exact Nat.le_max_left _ _
      · exact Nat.le_trans (inductionHypothesis isOther) (Nat.le_max_right _ _)

theorem representsAll_iff :
    RepresentsAll kind? terms ids ↔
      List.Forall₂ (Represents kind?) terms ids := by
  induction terms generalizing ids with
  | nil =>
      rw [RepresentsAll, List.forall₂_nil_left_iff]
  | cons term others inductionHypothesis =>
      rw [RepresentsAll, List.forall₂_cons_left_iff]
      constructor
      · rintro ⟨first, rest, rfl, isFirst, areOthers⟩
        exact ⟨first, rest, isFirst, inductionHypothesis.mp areOthers, rfl⟩
      · rintro ⟨first, rest, isFirst, areOthers, rfl⟩
        exact ⟨first, rest, rfl, isFirst, inductionHypothesis.mpr areOthers⟩

/-- What holds of each of some nodes holds of what represents them, one by one. -/
theorem forall₂_imp_of_mem
    {α β : Type}
    {related other : α → β → Prop}
    {firsts : List α}
    {seconds : List β}
    (implies :
      ∀ first ∈ firsts, ∀ second, related first second → other first second)
    (each : List.Forall₂ related firsts seconds) :
    List.Forall₂ other firsts seconds := by
  have both :=
    (List.forall₂_and_left
        (p := fun first => ∀ second, related first second → other first second)
        _ _).mpr
      ⟨implies, each⟩
  exact both.imp fun first second holds => holds.1 second holds.2

section Growth

theorem Names.mono
    {name : String}
    (grows : ∀ id kind, kind? id = some kind → other? id = some kind)
    (names : Names kind? name id) :
    Names other? name id :=
  grows id _ names

/-- What a node represents stays when nodes are added. -/
theorem Represents.mono
    (grows : ∀ id kind, kind? id = some kind → other? id = some kind)
    (represents : term.Represents kind? id) :
    term.Represents other? id := by
  induction term generalizing id with
  | int value =>
      exact grows id _ represents
  | bool value =>
      exact grows id _ represents
  | reference path =>
      obtain ⟨ids, kind, names⟩ := represents
      exact ⟨ids, grows id _ kind, names.imp fun _ _ => Names.mono grows⟩
  | list items =>
      obtain ⟨ids, kind, names⟩ := represents
      exact ⟨ids, grows id _ kind, names.imp fun _ _ => Names.mono grows⟩
  | call name arguments inductionHypothesis =>
      obtain ⟨function, ids, kind, names, areArguments⟩ := represents
      refine ⟨function, ids, grows id _ kind, names.mono grows, ?_⟩
      apply representsAll_iff.mpr
      apply forall₂_imp_of_mem _ (representsAll_iff.mp areArguments)
      intro argument member id isArgument
      exact inductionHypothesis argument member isArgument
  | unary op operand inductionHypothesis =>
      obtain ⟨inner, kind, isOperand⟩ := represents
      exact ⟨inner, grows id _ kind, inductionHypothesis isOperand⟩
  | binary left op right leftHypothesis rightHypothesis =>
      obtain ⟨leftId, rightId, kind, isLeft, isRight⟩ := represents
      exact
        ⟨leftId, rightId, grows id _ kind, leftHypothesis isLeft,
          rightHypothesis isRight⟩

end Growth

section Describing

theorem map_eq_of_forall₂
    {α β γ : Type}
    {related : α → β → Prop}
    {firsts : List α}
    {seconds : List β}
    (before : α → γ)
    (after : β → γ)
    (same : ∀ first second, related first second → after second = before first)
    (each : List.Forall₂ related firsts seconds) :
    seconds.map after = firsts.map before := by
  induction each with
  | nil =>
      rfl
  | cons isFirst _ inductionHypothesis =>
      rw [List.map_cons, List.map_cons, same _ _ isFirst, inductionHypothesis]

theorem describeWithin_succ
    {kind : StoryKind}
    (isKind : kind? id = some kind)
    (levels : Nat) :
    describeWithin kind? (levels + 1) id =
      kind.describeWith (describeWithin kind? levels) := by
  simp only [describeWithin, isKind]

theorem describeWithin_of_names
    {name : String}
    {levels : Nat}
    (names : Names kind? name id)
    (enough : 0 < levels) :
    describeWithin kind? levels id = name := by
  obtain ⟨levels, rfl⟩ := Nat.exists_eq_succ_of_ne_zero (Nat.ne_zero_of_lt enough)
  exact describeWithin_succ names levels

theorem map_describeWithin_of_names
    {names : List String}
    {levels : Nat}
    (each : List.Forall₂ (Names kind?) names ids)
    (enough : names ≠ [] → 0 < levels) :
    ids.map (describeWithin kind? levels) = names := by
  cases each with
  | nil =>
      rfl
  | cons isFirst areOthers =>
      have described :=
        map_eq_of_forall₂ id (describeWithin kind? levels)
          (fun _ _ names =>
            describeWithin_of_names names (enough (List.cons_ne_nil _ _)))
          (List.Forall₂.cons isFirst areOthers)
      rwa [List.map_id] at described

theorem height_pos
    (term : Term) :
    0 < term.height := by
  cases term <;> simp only [height] <;> omega

/-- Describing a node writes the term that it represents, if it looks deep enough. -/
theorem Represents.describeWithin_eq
    {levels : Nat}
    (represents : term.Represents kind? id)
    (enough : term.height ≤ levels) :
    describeWithin kind? levels id = term.written := by
  induction term generalizing id levels with
  | int value =>
      obtain ⟨levels, rfl⟩ := Nat.exists_eq_add_of_le' enough
      exact describeWithin_succ represents levels
  | bool value =>
      obtain ⟨levels, rfl⟩ := Nat.exists_eq_add_of_le' enough
      exact describeWithin_succ represents levels
  | reference path =>
      obtain ⟨ids, kind, names⟩ := represents
      obtain ⟨levels, rfl⟩ :=
        Nat.exists_eq_add_of_le' (Nat.le_trans (height_pos _) enough)
      have parts : ids.map (describeWithin kind? levels) = path := by
        apply map_describeWithin_of_names names
        intro nonempty
        have := List.length_pos_of_ne_nil nonempty
        rw [height] at enough
        omega
      rw [describeWithin_succ kind]
      simp only [NodeKind.describeWith, parts, written]
  | list items =>
      obtain ⟨ids, kind, names⟩ := represents
      obtain ⟨levels, rfl⟩ :=
        Nat.exists_eq_add_of_le' (Nat.le_trans (height_pos _) enough)
      have parts :
          ids.map (describeWithin kind? levels) = items.map ListItem.written := by
        apply map_describeWithin_of_names names
        intro nonempty
        have := List.length_pos_of_ne_nil nonempty
        rw [List.length_map] at this
        rw [height] at enough
        omega
      rw [describeWithin_succ kind]
      simp only [NodeKind.describeWith, parts, written]
  | call name arguments inductionHypothesis =>
      obtain ⟨function, ids, kind, names, areArguments⟩ := represents
      obtain ⟨levels, rfl⟩ :=
        Nat.exists_eq_add_of_le' (Nat.le_trans (height_pos _) enough)
      rw [height] at enough
      have called : describeWithin kind? levels function = name :=
        describeWithin_of_names names (by omega)
      have parts :
          ids.map (describeWithin kind? levels) = arguments.map written := by
        apply map_eq_of_forall₂ _ _ (fun _ _ described => described)
        apply forall₂_imp_of_mem _ (representsAll_iff.mp areArguments)
        intro argument member id isArgument
        apply inductionHypothesis argument member isArgument
        have := height_le_heightAll member
        omega
      rw [describeWithin_succ kind]
      simp only [NodeKind.describeWith, parts, called, written, writtenAll_eq_map]
  | unary op operand inductionHypothesis =>
      obtain ⟨inner, kind, isOperand⟩ := represents
      obtain ⟨levels, rfl⟩ :=
        Nat.exists_eq_add_of_le' (Nat.le_trans (height_pos _) enough)
      rw [height] at enough
      rw [describeWithin_succ kind, NodeKind.describeWith,
        inductionHypothesis isOperand (by omega), written]
  | binary left op right leftHypothesis rightHypothesis =>
      obtain ⟨leftId, rightId, kind, isLeft, isRight⟩ := represents
      obtain ⟨levels, rfl⟩ :=
        Nat.exists_eq_add_of_le' (Nat.le_trans (height_pos _) enough)
      rw [height] at enough
      rw [describeWithin_succ kind, NodeKind.describeWith,
        leftHypothesis isLeft (by omega), rightHypothesis isRight (by omega),
        written]

end Describing

section Height

/-! What a node is settles which term it can represent, up to what lies below it. -/

attribute [local simp] Represents

theorem represents_iff_of_int
    {value : Int}
    (kind : kind? id = some (.number (.int value))) :
    other.Represents kind? id ↔ other = .int value := by
  cases other <;> simp [kind, eq_comm]

theorem represents_iff_of_bool
    {value : Bool}
    (kind : kind? id = some (.number (.bool value))) :
    other.Represents kind? id ↔ other = .bool value := by
  cases other <;> simp [kind, eq_comm]

theorem represents_iff_of_reference
    (kind : kind? id = some (.reference ids)) :
    other.Represents kind? id ↔
      ∃ path, other = .reference path ∧ List.Forall₂ (Names kind?) path ids := by
  cases other <;> simp [kind]

theorem represents_iff_of_list
    (kind : kind? id = some (.listLiteral ids)) :
    other.Represents kind? id ↔
      ∃ items,
        other = .list items ∧
          List.Forall₂ (Names kind?) (items.map ListItem.written) ids := by
  cases other <;> simp [kind]

theorem represents_iff_of_call
    {function : NodeId}
    (kind : kind? id = some (.functionCall function ids false)) :
    other.Represents kind? id ↔
      ∃ name arguments,
        other = .call name arguments ∧
          Names kind? name function ∧
          RepresentsAll kind? arguments ids := by
  cases other <;> simp [kind]

theorem represents_iff_of_unary
    {op : UnaryOp}
    {inner : NodeId}
    (kind : kind? id = some (.unary op inner)) :
    other.Represents kind? id ↔
      ∃ operand, other = .unary op operand ∧ operand.Represents kind? inner := by
  cases other <;> simp [kind, eq_comm]

theorem represents_iff_of_binary
    {op : BinaryOp}
    {leftId rightId : NodeId}
    (kind : kind? id = some (.binary leftId op rightId)) :
    other.Represents kind? id ↔
      ∃ left right,
        other = .binary left op right ∧
          left.Represents kind? leftId ∧
          right.Represents kind? rightId := by
  cases other <;> simp [kind, eq_comm]

/-- Terms that one node represents are equally high. -/
theorem Represents.height_eq
    (first : term.Represents kind? id)
    (second : other.Represents kind? id) :
    term.height = other.height := by
  induction term generalizing other id with
  | int value =>
      rw [(represents_iff_of_int first).mp second]
  | bool value =>
      rw [(represents_iff_of_bool first).mp second]
  | reference path =>
      obtain ⟨ids, kind, names⟩ := first
      obtain ⟨path, rfl, others⟩ := (represents_iff_of_reference kind).mp second
      rw [height, height, names.length_eq, others.length_eq]
  | list items =>
      obtain ⟨ids, kind, names⟩ := first
      obtain ⟨items, rfl, others⟩ := (represents_iff_of_list kind).mp second
      have length := names.length_eq.trans others.length_eq.symm
      rw [List.length_map, List.length_map] at length
      rw [height, height, length]
  | call name arguments inductionHypothesis =>
      obtain ⟨function, ids, kind, -, areFirst⟩ := first
      obtain ⟨name, others, rfl, -, areSecond⟩ :=
        (represents_iff_of_call kind).mp second
      have same : heightAll arguments = heightAll others := by
        clear kind second
        induction arguments generalizing others ids with
        | nil =>
            subst areFirst
            cases others with
            | nil =>
                rfl
            | cons other others =>
                obtain ⟨_, _, ⟨⟩, _⟩ := areSecond
        | cons argument arguments argumentsHypothesis =>
            obtain ⟨id, ids, rfl, isFirst, areFirst⟩ := areFirst
            cases others with
            | nil =>
                cases areSecond
            | cons other others =>
                obtain ⟨_, _, ⟨⟩, isSecond, areSecond⟩ := areSecond
                have head :=
                  inductionHypothesis argument List.mem_cons_self isFirst isSecond
                have rest :=
                  argumentsHypothesis
                    (fun argument member =>
                      inductionHypothesis argument (List.mem_cons_of_mem _ member))
                    ids areFirst others areSecond
                rw [heightAll, heightAll, head, rest]
      rw [height, height, same]
  | unary op operand inductionHypothesis =>
      obtain ⟨inner, kind, isOperand⟩ := first
      obtain ⟨operand, rfl, isOther⟩ := (represents_iff_of_unary kind).mp second
      rw [height, height, inductionHypothesis isOperand isOther]
  | binary left op right leftHypothesis rightHypothesis =>
      obtain ⟨leftId, rightId, kind, isLeft, isRight⟩ := first
      obtain ⟨left, right, rfl, otherLeft, otherRight⟩ :=
        (represents_iff_of_binary kind).mp second
      rw [height, height, leftHypothesis isLeft otherLeft,
        rightHypothesis isRight otherRight]

theorem Represents.isSome
    (represents : term.Represents kind? id) :
    (kind? id).isSome = true := by
  cases term <;> grind [Represents]

/-- Different nodes on a way down, which represent terms of at most some height. -/
structure IsWay
    (kind? : NodeId → Option StoryKind)
    (height : Nat)
    (way : List NodeId) : Prop where
  nodup : way.Nodup
  isSome : ∀ id ∈ way, (kind? id).isSome = true
  height_le :
    ∀ id ∈ way, ∀ term : Term, term.Represents kind? id → term.height ≤ height

/-- A node that represents a higher term goes on top of a way. -/
theorem IsWay.cons
    {way : List NodeId}
    {bound : Nat}
    (isWay : IsWay kind? bound way)
    (represents : term.Represents kind? id)
    (higher : bound < term.height) :
    IsWay kind? term.height (id :: way) where
  nodup := by
    apply List.nodup_cons.mpr
    constructor
    · intro member
      have := isWay.height_le id member term represents
      omega
    · exact isWay.nodup
  isSome := by
    intro other member
    rcases List.mem_cons.mp member with rfl | below
    · exact represents.isSome
    · exact isWay.isSome other below
  height_le := by
    intro node member other isOther
    rcases List.mem_cons.mp member with rfl | below
    · exact Nat.le_of_eq (isOther.height_eq represents)
    · have := isWay.height_le node below other isOther
      omega

theorem isWay_nil :
    IsWay kind? 0 [] where
  nodup := List.nodup_nil
  isSome := nofun
  height_le := nofun

/-- An identifier is a way of one node, which represents no term. -/
theorem isWay_of_names
    {name : String}
    (names : Names kind? name id) :
    IsWay kind? 0 [id] where
  nodup := List.pairwise_singleton _ id
  isSome := by
    rintro other member
    rw [List.mem_singleton.mp member, show kind? id = _ from names]
    rfl
  height_le := by
    intro other member term represents
    rw [List.mem_singleton.mp member] at represents
    have isName : kind? id = some (.identifier name) := names
    cases term <;> simp [Represents, isName] at represents

theorem exists_way_of_names
    {names : List String}
    (each : List.Forall₂ (Names kind?) names ids) :
    ∃ way, IsWay kind? 0 way ∧ way.length = min names.length 1 := by
  cases each with
  | nil =>
      exact ⟨[], isWay_nil, rfl⟩
  | cons isFirst areOthers =>
      exact ⟨_, isWay_of_names isFirst, by simp⟩

/-- One of some terms is the highest, and a node represents it. -/
theorem exists_highest
    (represents : RepresentsAll kind? terms ids)
    (nonempty : terms ≠ []) :
    ∃ term ∈ terms, ∃ id,
      term.Represents kind? id ∧ term.height = heightAll terms := by
  induction terms generalizing ids with
  | nil =>
      exact absurd rfl nonempty
  | cons first others inductionHypothesis =>
      obtain ⟨id, rest, -, isFirst, areOthers⟩ := represents
      rw [heightAll]
      by_cases highest : heightAll others ≤ first.height
      · exact ⟨first, List.mem_cons_self, id, isFirst, by omega⟩
      · have someOther : others ≠ [] := by
          rintro rfl
          exact highest (Nat.zero_le _)
        obtain ⟨term, member, node, isTerm, height⟩ :=
          inductionHypothesis areOthers someOther
        exact
          ⟨term, List.mem_cons_of_mem _ member, node, isTerm, by omega⟩

/-- From a node that represents a term a way leads down that is as long as it is high. -/
theorem Represents.exists_way
    (represents : term.Represents kind? id) :
    ∃ way, IsWay kind? term.height way ∧ way.length = term.height := by
  have onTop
      {term : Term}
      {id : NodeId}
      {way : List NodeId}
      {bound : Nat}
      (represents : term.Represents kind? id)
      (isWay : IsWay kind? bound way)
      (higher : bound < term.height)
      (length : way.length + 1 = term.height) :
      ∃ way, IsWay kind? term.height way ∧ way.length = term.height :=
    ⟨id :: way, isWay.cons represents higher, length⟩
  induction term generalizing id with
  | int value =>
      exact onTop represents isWay_nil (height_pos _) rfl
  | bool value =>
      exact onTop represents isWay_nil (height_pos _) rfl
  | reference path =>
      obtain ⟨ids, -, names⟩ := show ∃ ids, _ from represents
      obtain ⟨way, isWay, length⟩ := exists_way_of_names names
      exact onTop represents isWay (height_pos _) (by rw [height, length])
  | list items =>
      obtain ⟨ids, -, names⟩ := show ∃ ids, _ from represents
      obtain ⟨way, isWay, length⟩ := exists_way_of_names names
      rw [List.length_map] at length
      exact onTop represents isWay (height_pos _) (by rw [height, length])
  | call name arguments inductionHypothesis =>
      obtain ⟨function, ids, -, names, areArguments⟩ :=
        show ∃ function ids, _ from represents
      by_cases shallow : heightAll arguments ≤ 1
      · apply onTop represents (isWay_of_names names) (height_pos _)
        rw [height, List.length_singleton]
        omega
      · have nonempty : arguments ≠ [] := by
          rintro rfl
          exact shallow (Nat.zero_le _)
        obtain ⟨argument, member, node, isArgument, highest⟩ :=
          exists_highest areArguments nonempty
        obtain ⟨way, isWay, length⟩ :=
          inductionHypothesis argument member isArgument
        apply onTop represents isWay
        · rw [height]
          omega
        · rw [height]
          omega
  | unary op operand inductionHypothesis =>
      obtain ⟨inner, -, isOperand⟩ := show ∃ inner, _ from represents
      obtain ⟨way, isWay, length⟩ := inductionHypothesis isOperand
      apply onTop represents isWay
      · rw [height]
        omega
      · rw [height, length]
  | binary left op right leftHypothesis rightHypothesis =>
      obtain ⟨leftId, rightId, -, isLeft, isRight⟩ :=
        show ∃ leftId rightId, _ from represents
      obtain ⟨leftWay, leftIsWay, leftLength⟩ := leftHypothesis isLeft
      obtain ⟨rightWay, rightIsWay, rightLength⟩ := rightHypothesis isRight
      by_cases leftHigher : right.height ≤ left.height
      · apply onTop represents leftIsWay
        · rw [height]
          omega
        · rw [height]
          omega
      · apply onTop represents rightIsWay
        · rw [height]
          omega
        · rw [height]
          omega

/-- No term is higher than there are nodes. -/
theorem Represents.height_le
    {size : Nat}
    (represents : term.Represents kind? id)
    (within : ∀ id, (kind? id).isSome = true → id.index < size) :
    term.height ≤ size := by
  obtain ⟨way, isWay, length⟩ := represents.exists_way
  have nodup : (way.map NodeId.index).Nodup := by
    apply List.Nodup.map _ isWay.nodup
    intro first second same
    cases first
    cases second
    exact congrArg _ same
  have bounded : way.map NodeId.index ⊆ List.range size := by
    intro index member
    obtain ⟨node, onWay, rfl⟩ := List.mem_map.mp member
    exact List.mem_range.mpr (within node (isWay.isSome node onWay))
  have shorter := (List.subperm_of_subset nodup bounded).length_le
  rw [List.length_map, List.length_range] at shorter
  omega

end Height

/-- Describing a node of a story writes the term that it represents. -/
theorem Represents.describe
    {story : Story}
    (represents : term.Represents story.kind? id) :
    story.describe id = term.written := by
  apply represents.describeWithin_eq
  apply represents.height_le
  intro node isSome
  simpa [Story.kind?, Story.node?, Story.size] using isSome

end Term

end InkSyntax
