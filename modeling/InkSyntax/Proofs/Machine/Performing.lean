import InkSyntax.Machine.Repetition

namespace InkSyntax.Rule

/-!
# Which effects a rule may perform

Rules are terms, so the effects that a rule may perform can be read off it, whatever
values its parts give.  Choice and repetition perform what their parts perform.
-/

/-- All effects of a rule are allowed. -/
def Performs
    {E : Type → Type 1}
    (allowed : (γ : Type) → E γ → Prop) :
    {α : Type} → Rule E α → Prop
  | _, .bind first next =>
      Performs allowed first ∧ ∀ value, Performs allowed (next value)
  | _, .attempt rule => Performs allowed rule
  | _, .scope _ rule => Performs allowed rule
  | _, .loop _ round => ∀ state, Performs allowed (round state)
  | _, .effect operation => allowed _ operation
  | _, _ => True

variable
    {E : Type → Type 1}
    {α β σ : Type}
    {allowed : (γ : Type) → E γ → Prop}

theorem performs_of_forall
    (all : ∀ {γ : Type} (operation : E γ), allowed γ operation)
    (rule : Rule E α) :
    rule.Performs allowed := by
  induction rule with
  | bind first next firstHypothesis nextHypothesis =>
      exact ⟨firstHypothesis, nextHypothesis⟩
  | attempt rule inductionHypothesis =>
      exact inductionHypothesis
  | scope fate rule inductionHypothesis =>
      exact inductionHypothesis
  | loop state round inductionHypothesis =>
      exact inductionHypothesis
  | effect operation =>
      exact all operation
  | _ =>
      trivial

/-- What is allowed may be more than a rule performs. -/
theorem Performs.mono
    {allowed' : (γ : Type) → E γ → Prop}
    (implies :
      ∀ {γ : Type} {operation : E γ},
        allowed γ operation → allowed' γ operation)
    {rule : Rule E α}
    (performs : rule.Performs allowed) :
    rule.Performs allowed' := by
  induction rule with
  | bind first next firstHypothesis nextHypothesis =>
      exact
        ⟨firstHypothesis performs.1, fun value =>
          nextHypothesis value (performs.2 value)⟩
  | attempt rule inductionHypothesis =>
      exact inductionHypothesis performs
  | scope fate rule inductionHypothesis =>
      exact inductionHypothesis performs
  | loop state round inductionHypothesis =>
      exact fun state => inductionHypothesis state (performs state)
  | effect operation =>
      exact implies performs
  | _ =>
      trivial

section Constructors

@[simp, grind .] theorem performs_pure
    (value : α) :
    (Pure.pure value : Rule E α).Performs allowed :=
  trivial

@[simp, grind .] theorem performs_fail :
    (fail : Rule E α).Performs allowed :=
  trivial

@[simp, grind =] theorem performs_bind
    {first : Rule E α}
    {next : α → Rule E β} :
    (first >>= next).Performs allowed ↔
      first.Performs allowed ∧ ∀ value, (next value).Performs allowed :=
  Iff.rfl

theorem Performs.bind
    {first : Rule E α}
    {next : α → Rule E β}
    (performs : first.Performs allowed)
    (then_ : ∀ value, (next value).Performs allowed) :
    (first >>= next).Performs allowed :=
  ⟨performs, then_⟩

@[simp] theorem performs_ite
    {condition : Prop}
    [Decidable condition]
    {first second : Rule E α} :
    (if condition then first else second).Performs allowed ↔
      (condition → first.Performs allowed) ∧
        (¬ condition → second.Performs allowed) := by
  by_cases holds : condition <;> simp [holds]

@[simp, grind =] theorem performs_attempt
    {rule : Rule E α} :
    (attempt rule).Performs allowed ↔ rule.Performs allowed :=
  Iff.rfl

@[simp, grind =] theorem performs_scope
    {fate : α → Fate}
    {rule : Rule E α} :
    (scope fate rule).Performs allowed ↔ rule.Performs allowed :=
  Iff.rfl

@[simp, grind =] theorem performs_loop
    {state : σ}
    {round : σ → Rule E (σ ⊕ α)} :
    (loop state round).Performs allowed ↔
      ∀ state, (round state).Performs allowed :=
  Iff.rfl

@[simp, grind .] theorem performs_scan
    (scanner : Scanner α) :
    (scan scanner : Rule E α).Performs allowed :=
  trivial

@[simp, grind .] theorem performs_here :
    (here : Rule E Checkpoint).Performs allowed :=
  trivial

@[simp, grind .] theorem performs_setFlag
    (mask : UInt32)
    (on : Bool) :
    (setFlag mask on : Rule E Unit).Performs allowed :=
  trivial

@[simp, grind .] theorem performs_report
    (severity : Severity)
    (line : Nat)
    (message : String) :
    (report severity line message : Rule E Unit).Performs allowed :=
  trivial

@[simp, grind =] theorem performs_effect
    {operation : E α} :
    (effect operation).Performs allowed ↔ allowed α operation :=
  Iff.rfl

@[simp, grind =] theorem performs_parse
    [StandsFor α]
    {rule : Rule E α} :
    (parse rule).Performs allowed ↔ rule.Performs allowed :=
  Iff.rfl

@[simp, grind =] theorem performs_peek
    {rule : Rule E α} :
    (peek rule).Performs allowed ↔ rule.Performs allowed := by
  simp [peek]

end Constructors

section Combinators

@[simp, grind .] theorem performs_require
    (test : Bool) :
    (require test : Rule E Unit).Performs allowed := by
  cases test <;> trivial

@[simp, grind =] theorem performs_ahead
    {rule : Rule E α} :
    (ahead rule).Performs allowed ↔ rule.Performs allowed := by
  simp [ahead, *]

@[simp, grind .] theorem performs_atEnd :
    (atEnd : Rule E Bool).Performs allowed := by
  simp [atEnd, *]

@[simp, grind .] theorem performs_line :
    (line : Rule E Nat).Performs allowed := by
  simp [line, *]

@[simp, grind .] theorem performs_hasFlag
    (mask : UInt32) :
    (hasFlag mask : Rule E Bool).Performs allowed := by
  simp [hasFlag, *]

@[simp, grind .] theorem performs_literal
    (expected : String) :
    (literal expected : Rule E Unit).Performs allowed :=
  trivial

@[simp, grind .] theorem performs_anyChar :
    (anyChar : Rule E Char).Performs allowed :=
  trivial

@[simp, grind .] theorem performs_chars
    (accept : Char → Bool) :
    (chars accept : Rule E String).Performs allowed :=
  trivial

@[simp, grind .] theorem performs_error
    (message : String) :
    (error message : Rule E Unit).Performs allowed := by
  simp [error, *]

@[simp, grind .] theorem performs_warning
    (message : String) :
    (warning message : Rule E Unit).Performs allowed := by
  simp [warning, *]

@[simp, grind .] theorem performs_reportExpected
    (description : String) :
    (reportExpected description : Rule E Unit).Performs allowed := by
  simp [reportExpected, *]

@[simp, grind .] theorem performs_integer :
    (integer : Rule E Int).Performs allowed := by
  simp [integer, *]

@[simp, grind =] theorem performs_expect
    [StandsFor α]
    {rule : Rule E α}
    {description : String} :
    (expect rule description).Performs allowed ↔ rule.Performs allowed := by
  refine ⟨fun performs => performs.1, fun performs => .bind performs ?_⟩
  rintro (_ | value) <;> simp

@[simp, grind =] theorem performs_expectOr
    [StandsFor α]
    {rule recovery : Rule E α}
    {description : String} :
    (expectOr rule description recovery).Performs allowed ↔
      rule.Performs allowed ∧ recovery.Performs allowed := by
  refine ⟨fun performs => ⟨performs.1, (performs.2 none).2 ()⟩, ?_⟩
  rintro ⟨performs, recovers⟩
  refine .bind performs ?_
  rintro (_ | value) <;> simp [recovers]

theorem performs_firstOf
    [StandsFor α]
    {rules : List (Rule E α)}
    (performs : ∀ rule ∈ rules, rule.Performs allowed) :
    (oneOf.firstOf rules).Performs allowed := by
  induction rules with
  | nil =>
      trivial
  | cons rule others inductionHypothesis =>
      obtain ⟨performsRule, performsOthers⟩ := List.forall_mem_cons.mp performs
      refine performs_bind.mpr ⟨performsRule, ?_⟩
      rintro (_ | value)
      · exact inductionHypothesis performsOthers
      · trivial

@[simp, grind ←] theorem performs_oneOf
    [StandsFor α]
    {rules : List (Rule E α)}
    (performs : ∀ rule ∈ rules, rule.Performs allowed) :
    (oneOf rules).Performs allowed :=
  performs_firstOf performs

@[simp, grind =] theorem performs_zeroOrMore
    [StandsFor α]
    {rule : Rule E α} :
    (zeroOrMore rule).Performs allowed ↔ rule.Performs allowed := by
  refine ⟨fun performs => (performs []).1, fun performs found => ?_⟩
  refine .bind performs ?_
  rintro (_ | value) <;> trivial

@[simp, grind =] theorem performs_oneOrMore
    [StandsFor α]
    {rule : Rule E α} :
    (oneOrMore rule).Performs allowed ↔ rule.Performs allowed := by
  refine ⟨fun performs => performs_zeroOrMore.mp performs.1, fun performs => ?_⟩
  refine .bind (performs_zeroOrMore.mpr performs) fun found => ?_
  split <;> trivial

@[simp, grind ←] theorem performs_separated
    [StandsFor α]
    [StandsFor β]
    {item : Rule E α}
    {separator : Rule E β}
    (items : item.Performs allowed)
    (separators : separator.Performs allowed) :
    (separated item separator).Performs allowed := by
  refine performs_bind.mpr ⟨items, fun first found => ?_⟩
  refine performs_bind.mpr ⟨performs_bind.mpr ⟨separators, fun _ => items⟩, ?_⟩
  rintro (_ | value) <;> trivial

theorem performs_alternateRound
    [StandsFor (Step α)]
    {outer inner : Rule E (Step α)}
    {stop : Rule E β}
    (outerPerforms : outer.Performs allowed)
    (innerPerforms : inner.Performs allowed)
    (stopPerforms : stop.Performs allowed)
    (found : List α) :
    (alternateRound outer inner stop found).Performs allowed := by
  refine performs_bind.mpr ⟨performs_peek.mpr stopPerforms, fun stops => ?_⟩
  split
  · trivial
  · refine performs_bind.mpr ⟨innerPerforms, ?_⟩
    rintro (_ | main)
    · trivial
    · refine performs_bind.mpr ⟨outerPerforms, ?_⟩
      rintro (_ | next)
      · trivial
      · refine performs_bind.mpr ⟨performs_atEnd, fun isEnd => ?_⟩
        split <;> trivial

@[simp, grind ←] theorem performs_alternateUntil
    [StandsFor (Step α)]
    [StandsFor (List α)]
    {outer inner : Rule E (Step α)}
    {stop : Rule E β}
    (outerPerforms : outer.Performs allowed)
    (innerPerforms : inner.Performs allowed)
    (stopPerforms : stop.Performs allowed) :
    (alternateUntil outer inner stop).Performs allowed := by
  refine performs_bind.mpr ⟨outerPerforms, fun first => ?_⟩
  refine performs_bind.mpr ⟨?_, fun found => ?_⟩
  · exact fun found =>
      performs_alternateRound outerPerforms innerPerforms stopPerforms found
  · split <;> trivial

@[simp, grind ←] theorem performs_alternate
    [StandsFor (Step α)]
    [StandsFor (List α)]
    {outer inner : Rule E (Step α)}
    (outerPerforms : outer.Performs allowed)
    (innerPerforms : inner.Performs allowed) :
    (alternate outer inner).Performs allowed := by
  simp [alternate, *]

@[simp, grind ←] theorem performs_textUntil
    {stop : Rule E α}
    {pauses stops : Char → Bool}
    (performs : stop.Performs allowed) :
    (textUntil stop pauses stops).Performs allowed := by
  refine performs_bind.mpr ⟨fun parts => ?_, fun text => ?_⟩
  · refine performs_bind.mpr ⟨performs_chars _, fun found => ?_⟩
    refine performs_bind.mpr ⟨performs_peek.mpr performs, fun stops => ?_⟩
    split
    · trivial
    · refine performs_bind.mpr ⟨performs_here, fun checkpoint => ?_⟩
      split
      · trivial
      · split
        · exact performs_bind.mpr ⟨performs_anyChar, fun _ => trivial⟩
        · trivial
  · dsimp only
    split <;> trivial

@[simp, grind =] theorem performs_optionally
    [StandsFor α]
    {rule : Rule E α} :
    (optionally rule).Performs allowed ↔ rule.Performs allowed := by
  refine ⟨fun performs => performs.1, fun performs => .bind performs ?_⟩
  rintro (_ | value) <;> trivial

@[simp, grind =] theorem performs_dropped
    [StandsFor β]
    {rule : Rule E β} :
    (dropped rule : Rule E (Step α)).Performs allowed ↔
      rule.Performs allowed := by
  simp [dropped]

@[simp, grind =] theorem performs_optionallyDropped
    [StandsFor β]
    {rule : Rule E β} :
    (optionallyDropped rule : Rule E (Step α)).Performs allowed ↔
      rule.Performs allowed := by
  simp [optionallyDropped]

@[simp, grind =] theorem performs_single
    [StandsFor α]
    {rule : Rule E α} :
    (single rule).Performs allowed ↔ rule.Performs allowed := by
  simp [single]

end Combinators

end InkSyntax.Rule
