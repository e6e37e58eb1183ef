import InkSyntax.Proofs.Reading.Barriers

namespace InkSyntax

/-!
# How many scopes are open inside each other

Constructs nest in each other without end only inside braces and parentheses, on lines
of logic, and behind the words that declare variables and constants.  In text without
any of these, how a rule is built bounds the scopes that are open at a time, so there
is one lemma for each way of building rules.  What stands behind one of these barriers
is never come to and may nest as it likes.
-/

open Grammar (Barred IsPlain)

/-- The scopes that a construct opens inside each other in plain text.

The other constructs begin behind a barrier only. -/
def Construct.plainDepth? : {α : Type} → Construct α → Option Nat
  | _, .prose => some 11
  | _, .statements .stitch => some 18
  | _, .statements .knot => some 24
  | _, .statements .top => some 30
  | _, _ => none

/-- Reading a construct takes one level besides the scopes that it opens. -/
@[simp] def Craft.OpensAtMost (depth : Nat) : {α : Type} → Craft α → Prop
  | _, .read construct => ∃ inner ∈ construct.plainDepth?, inner < depth
  | _, _ => True

namespace Rule

/-- In plain text a rule opens at most so many scopes inside each other. -/
def OpensAtMost : {α : Type} → Nat → GrammarRule α → Prop
  | _, depth, .bind first next =>
      OpensAtMost depth first ∧
        (Barred IsPlain first ∨ ∀ value, OpensAtMost depth (next value))
  | _, depth, .attempt rule => OpensAtMost depth rule
  | _, depth, .scope _ rule => ∃ inner, depth = inner + 1 ∧ OpensAtMost inner rule
  | _, depth, .loop _ round => ∀ state, OpensAtMost depth (round state)
  | _, depth, .effect operation => operation.OpensAtMost depth
  | _, _, _ => True

variable
    {α β σ : Type}
    {depth : Nat}

section Constructors

@[simp] theorem opensAtMost_pure
    (value : α) :
    OpensAtMost depth (Pure.pure value : GrammarRule α) :=
  trivial

@[simp] theorem opensAtMost_fail :
    OpensAtMost depth (fail : GrammarRule α) :=
  trivial

@[simp] theorem opensAtMost_ite
    {condition : Prop}
    [Decidable condition]
    {first second : GrammarRule α} :
    OpensAtMost depth (if condition then first else second) ↔
      (condition → OpensAtMost depth first) ∧
        (¬ condition → OpensAtMost depth second) := by
  by_cases holds : condition <;> simp [holds]

@[simp] theorem opensAtMost_bind
    {first : GrammarRule α}
    {next : α → GrammarRule β} :
    OpensAtMost depth (first >>= next) ↔
      OpensAtMost depth first ∧
        (Barred IsPlain first ∨ ∀ value, OpensAtMost depth (next value)) :=
  Iff.rfl

theorem OpensAtMost.bind
    {first : GrammarRule α}
    {next : α → GrammarRule β}
    (opens : OpensAtMost depth first)
    (then_ : ∀ value, OpensAtMost depth (next value)) :
    OpensAtMost depth (first >>= next) :=
  ⟨opens, .inr then_⟩

/-- What stands behind a barrier is never come to. -/
theorem OpensAtMost.barred
    {first : GrammarRule α}
    {next : α → GrammarRule β}
    (barred : Barred IsPlain first)
    (opens : OpensAtMost depth first) :
    OpensAtMost depth (first >>= next) :=
  ⟨opens, .inl barred⟩

@[simp] theorem opensAtMost_attempt
    {rule : GrammarRule α} :
    OpensAtMost depth (attempt rule) ↔ OpensAtMost depth rule :=
  Iff.rfl

@[simp] theorem opensAtMost_loop
    {state : σ}
    {round : σ → GrammarRule (σ ⊕ α)} :
    OpensAtMost depth (loop state round) ↔
      ∀ state, OpensAtMost depth (round state) :=
  Iff.rfl

@[simp] theorem opensAtMost_scan
    (scanner : Scanner α) :
    OpensAtMost depth (scan scanner : GrammarRule α) :=
  trivial

@[simp] theorem opensAtMost_here :
    OpensAtMost depth (here : GrammarRule Checkpoint) :=
  trivial

@[simp] theorem opensAtMost_setFlag
    (mask : UInt32)
    (on : Bool) :
    OpensAtMost depth (setFlag mask on : GrammarRule Unit) :=
  trivial

@[simp] theorem opensAtMost_report
    (severity : Severity)
    (line : Nat)
    (message : String) :
    OpensAtMost depth (report severity line message : GrammarRule Unit) :=
  trivial

@[simp] theorem opensAtMost_effect
    {operation : Craft α} :
    OpensAtMost depth (effect operation) ↔ operation.OpensAtMost depth :=
  Iff.rfl

@[simp] theorem opensAtMost_scope
    {fate : α → Fate}
    {rule : GrammarRule α} :
    OpensAtMost (depth + 1) (scope fate rule) ↔ OpensAtMost depth rule := by
  constructor
  · rintro ⟨inner, same, opens⟩
    cases same
    exact opens
  · exact fun opens => ⟨depth, rfl, opens⟩

@[simp] theorem opensAtMost_parse
    [StandsFor α]
    {rule : GrammarRule α} :
    OpensAtMost (depth + 1) (parse rule) ↔ OpensAtMost depth rule :=
  opensAtMost_scope

@[simp] theorem opensAtMost_peek
    {rule : GrammarRule α} :
    OpensAtMost (depth + 1) (peek rule) ↔ OpensAtMost depth rule :=
  opensAtMost_scope.trans
    ⟨fun opens => opens.1, fun opens => .bind opens fun _ => trivial⟩

end Constructors

section Combinators

@[simp] theorem opensAtMost_require
    (test : Bool) :
    OpensAtMost depth (require test : GrammarRule Unit) := by
  cases test <;> trivial

@[simp] theorem opensAtMost_literal
    (expected : String) :
    OpensAtMost depth (literal expected : GrammarRule Unit) :=
  trivial

@[simp] theorem opensAtMost_chars
    (accept : Char → Bool) :
    OpensAtMost depth (chars accept : GrammarRule String) :=
  trivial

@[simp] theorem opensAtMost_anyChar :
    OpensAtMost depth (anyChar : GrammarRule Char) :=
  trivial

@[simp] theorem opensAtMost_lineBreak :
    OpensAtMost depth (lineBreak : GrammarRule Unit) :=
  trivial

@[simp] theorem opensAtMost_atEnd :
    OpensAtMost depth (atEnd : GrammarRule Bool) :=
  .bind trivial fun _ => trivial

@[simp] theorem opensAtMost_hasFlag
    (mask : UInt32) :
    OpensAtMost depth (hasFlag mask : GrammarRule Bool) :=
  .bind trivial fun _ => trivial

@[simp] theorem opensAtMost_line :
    OpensAtMost depth (line : GrammarRule Nat) :=
  .bind trivial fun _ => trivial

@[simp] theorem opensAtMost_error
    (message : String) :
    OpensAtMost depth (error message : GrammarRule Unit) :=
  .bind opensAtMost_line fun _ => trivial

@[simp] theorem opensAtMost_warning
    (message : String) :
    OpensAtMost depth (warning message : GrammarRule Unit) :=
  .bind opensAtMost_line fun _ => trivial

@[simp] theorem opensAtMost_reportExpected
    (description : String) :
    OpensAtMost depth (reportExpected description : GrammarRule Unit) :=
  .bind trivial fun _ => opensAtMost_error _

@[simp] theorem opensAtMost_integer :
    OpensAtMost depth (integer : GrammarRule Int) := by
  simp [integer]

@[simp] theorem OpensAtMost.expect
    [StandsFor α]
    {rule : GrammarRule α}
    {description : String}
    (opens : OpensAtMost depth rule) :
    OpensAtMost (depth + 1) (Rule.expect rule description) := by
  refine .bind (opensAtMost_parse.mpr opens) ?_
  rintro (_ | value) <;> simp

@[simp] theorem OpensAtMost.expectOr
    [StandsFor α]
    {rule recovery : GrammarRule α}
    {description : String}
    (opens : OpensAtMost depth rule)
    (recovers : OpensAtMost (depth + 1) recovery) :
    OpensAtMost (depth + 1) (Rule.expectOr rule description recovery) := by
  refine .bind (opensAtMost_parse.mpr opens) ?_
  rintro (_ | value)
  · exact .bind (opensAtMost_reportExpected description) fun _ => recovers
  · trivial

theorem opensAtMost_firstOf
    [StandsFor α]
    {rules : List (GrammarRule α)}
    (opens : ∀ rule ∈ rules, OpensAtMost depth rule) :
    OpensAtMost (depth + 1) (oneOf.firstOf rules) := by
  induction rules with
  | nil =>
      trivial
  | cons rule others inductionHypothesis =>
      obtain ⟨opensFirst, othersOpen⟩ := List.forall_mem_cons.mp opens
      refine .bind (opensAtMost_parse.mpr opensFirst) ?_
      rintro (_ | value)
      · exact inductionHypothesis othersOpen
      · trivial

theorem opensAtMost_oneOf
    [StandsFor α]
    {rules : List (GrammarRule α)}
    (opens : ∀ rule ∈ rules, OpensAtMost depth rule) :
    OpensAtMost (depth + 2) (oneOf rules) :=
  opensAtMost_parse.mpr (opensAtMost_firstOf opens)

theorem OpensAtMost.oneOrMore
    [StandsFor α]
    {rule : GrammarRule α}
    (opens : OpensAtMost depth rule) :
    OpensAtMost (depth + 1) (Rule.oneOrMore rule) := by
  refine .bind (fun found => .bind (opensAtMost_parse.mpr opens) ?_) fun found => ?_
  · rintro (_ | value) <;> trivial
  · simp

/-- Behind the first item, every scope is inside that of its round. -/
theorem OpensAtMost.separated
    [StandsFor α]
    [StandsFor β]
    {item : GrammarRule α}
    {separator : GrammarRule β}
    (opens : OpensAtMost depth item)
    (opensFirst : OpensAtMost (depth + 1) item)
    (separates : OpensAtMost depth separator) :
    OpensAtMost (depth + 2) (Rule.separated item separator) := by
  refine .bind (opensAtMost_parse.mpr opensFirst) fun first found => .bind ?_ ?_
  · exact
      opensAtMost_scope.mpr
        (.bind (opensAtMost_parse.mpr separates) fun _ =>
          opensAtMost_parse.mpr opens)
  · rintro (_ | value) <;> trivial

/-- Alternating pieces are read in one scope, each in one of its own. -/
theorem opensAtMost_alternateUntil
    [StandsFor (Step α)]
    [StandsFor (List α)]
    {outer inner : GrammarRule (Step α)}
    {stop : GrammarRule β}
    (outerOpens : OpensAtMost depth outer)
    (innerOpens : OpensAtMost depth inner)
    (stopOpens : OpensAtMost depth stop) :
    OpensAtMost (depth + 2) (alternateUntil outer inner stop) := by
  refine opensAtMost_parse.mpr ?_
  refine .bind (opensAtMost_parse.mpr outerOpens) fun first => ?_
  refine .bind (fun found => ?_) fun found => by simp
  refine .bind (opensAtMost_peek.mpr stopOpens) fun stops => ?_
  refine opensAtMost_ite.mpr ⟨fun _ => trivial, fun _ => ?_⟩
  refine .bind (opensAtMost_parse.mpr innerOpens) ?_
  rintro (_ | main)
  · trivial
  · refine .bind (opensAtMost_parse.mpr outerOpens) ?_
    rintro (_ | next) <;> simp

theorem opensAtMost_alternate
    [StandsFor (Step α)]
    [StandsFor (List α)]
    {outer inner : GrammarRule (Step α)}
    (outerOpens : OpensAtMost depth outer)
    (innerOpens : OpensAtMost depth inner) :
    OpensAtMost (depth + 2) (alternate outer inner) :=
  opensAtMost_alternateUntil outerOpens innerOpens trivial

/-- Text looks ahead inside its own scope, for as often as it pauses. -/
theorem opensAtMost_textUntil
    {stop : GrammarRule α}
    {pauses stops : Char → Bool}
    (opens : OpensAtMost depth stop) :
    OpensAtMost (depth + 2) (textUntil stop pauses stops) := by
  refine opensAtMost_parse.mpr (.bind (fun parts => ?_) fun _ => by simp)
  refine .bind (opensAtMost_chars _) fun found => ?_
  refine .bind (opensAtMost_peek.mpr opens) fun stops => ?_
  refine opensAtMost_ite.mpr ⟨fun _ => trivial, fun _ => ?_⟩
  refine .bind opensAtMost_here fun checkpoint => ?_
  cases checkpoint.cursor.rest with
  | nil =>
      trivial
  | cons character rest =>
      simp

@[simp] theorem OpensAtMost.optionally
    [StandsFor α]
    {rule : GrammarRule α}
    (opens : OpensAtMost depth rule) :
    OpensAtMost (depth + 1) (Rule.optionally rule) := by
  refine .bind (opensAtMost_parse.mpr opens) ?_
  rintro (_ | value) <;> trivial

@[simp] theorem OpensAtMost.dropped
    [StandsFor β]
    {rule : GrammarRule β}
    (opens : OpensAtMost depth rule) :
    OpensAtMost (depth + 1) (Rule.dropped rule : GrammarRule (Step α)) :=
  .bind (opensAtMost_parse.mpr opens) fun _ => trivial

@[simp] theorem OpensAtMost.optionallyDropped
    [StandsFor β]
    {rule : GrammarRule β}
    (opens : OpensAtMost depth rule) :
    OpensAtMost (depth + 1)
      (Rule.optionallyDropped rule : GrammarRule (Step α)) :=
  .bind (opensAtMost_parse.mpr opens) fun _ => trivial

@[simp] theorem OpensAtMost.single
    [StandsFor α]
    {rule : GrammarRule α}
    (opens : OpensAtMost depth rule) :
    OpensAtMost (depth + 1) (Rule.single rule) :=
  .bind (opensAtMost_parse.mpr opens) fun _ => trivial

end Combinators

end Rule

end InkSyntax
