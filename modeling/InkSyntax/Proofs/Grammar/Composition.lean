import InkSyntax.Grammar.Craft

namespace InkSyntax.Rule

/-!
# What rules consist of

A rule of the grammar reports problems in three ways only: as an error or a warning
on the line of the cursor, or as an error on the first line of a node.  It looks
ahead only for some rules that are known beforehand.  Whether a rule consists of
such parts follows from how it is built, so there is one lemma for each way of
building rules.
-/

section Lookahead

variable
    {E : Type → Type 1}
    {α : Type}
    {allowed : (β : Type) → Rule E β → Prop}

/-- A rule looks ahead for one of some rules. -/
def IsLookahead
    (allowed : (β : Type) → Rule E β → Prop)
    (rule : Rule E α) : Prop :=
  ∃ (β : Type) (ahead : Rule E β),
    allowed β ahead ∧
      (⟨α, rule⟩ : (γ : Type) × Rule E γ) = ⟨Bool, peek ahead⟩

/-- All that a rule looks ahead for, whatever happens, is allowed.

Looking ahead is a scope that is undone in any case, so it is a matter of the scopes. -/
def LooksFor
    (allowed : (β : Type) → Rule E β → Prop) :
    {α : Type} → Rule E α → Prop
  | _, .bind first next =>
      LooksFor allowed first ∧ ∀ value, LooksFor allowed (next value)
  | _, .attempt rule => LooksFor allowed rule
  | _, .scope fate rule =>
      LooksFor allowed rule ∧
        (IsLookahead (fun _ _ => True) (.scope fate rule) →
          IsLookahead allowed (.scope fate rule))
  | _, .loop _ round => ∀ state, LooksFor allowed (round state)
  | _, _ => True

/-- A lookahead is one for something that is allowed. -/
theorem LooksFor.exists_allowed
    {rule : Rule E α}
    (looks : (peek rule).LooksFor allowed) :
    ∃ (β : Type) (ahead : Rule E β),
      allowed β ahead ∧ peek rule = peek ahead := by
  obtain ⟨β, ahead, isAllowed, same⟩ := looks.2 ⟨α, rule, trivial, rfl⟩
  exact ⟨β, ahead, isAllowed, eq_of_heq (Sigma.mk.inj same).2⟩

end Lookahead

/-- A problem is reported on the line of the cursor or on that of a node. -/
inductive Tells : {α : Type} → GrammarRule α → Prop where
  | error (message : String) : Tells (Rule.error message)
  | warning (message : String) : Tells (Rule.warning message)
  | errorAt (id : NodeId) (message : String) : Tells (Grammar.errorAt id message)

/-- All that a rule reports it tells, and all that it looks ahead for is allowed. -/
def Consists
    (allowed : (β : Type) → GrammarRule β → Prop) :
    {α : Type} → GrammarRule α → Prop
  | _, .bind first next =>
      Tells (.bind first next) ∨
        Consists allowed first ∧ ∀ value, Consists allowed (next value)
  | _, .attempt rule => Consists allowed rule
  | _, .scope fate rule =>
      Consists allowed rule ∧
        (IsLookahead (fun _ _ => True) (.scope fate rule) →
          IsLookahead allowed (.scope fate rule))
  | _, .loop _ round => ∀ state, Consists allowed (round state)
  | _, .report .. => False
  | _, _ => True

variable
    {α β σ : Type}
    {allowed : (β : Type) → GrammarRule β → Prop}

theorem Tells.looksFor
    {rule : GrammarRule α}
    (tells : Tells rule) :
    rule.LooksFor allowed := by
  cases tells with
  | error message | warning message =>
      exact ⟨⟨trivial, fun _ => trivial⟩, fun _ => trivial⟩
  | errorAt id message =>
      refine ⟨trivial, ?_⟩
      rintro (_ | span)
      · exact ⟨⟨trivial, fun _ => trivial⟩, fun _ => trivial⟩
      · exact ⟨trivial, fun _ => trivial⟩

/-- What a rule consists of tells what it looks ahead for. -/
theorem Consists.looksFor
    {rule : GrammarRule α}
    (consists : rule.Consists allowed) :
    rule.LooksFor allowed := by
  induction rule with
  | bind first next firstHypothesis nextHypothesis =>
      obtain tells | ⟨ofFirst, ofNext⟩ := consists
      · exact tells.looksFor
      · exact
          ⟨firstHypothesis ofFirst, fun value =>
            nextHypothesis value (ofNext value)⟩
  | attempt rule inductionHypothesis =>
      exact inductionHypothesis consists
  | scope fate rule inductionHypothesis =>
      exact ⟨inductionHypothesis consists.1, consists.2⟩
  | loop state round inductionHypothesis =>
      exact fun state => inductionHypothesis state (consists state)
  | report severity line message =>
      exact consists.elim
  | _ =>
      trivial

section Constructors

@[simp] theorem consists_pure
    (value : α) :
    (Pure.pure value : GrammarRule α).Consists allowed :=
  trivial

@[simp] theorem consists_fail :
    (fail : GrammarRule α).Consists allowed :=
  trivial

@[simp] theorem consists_ite
    {condition : Prop}
    [Decidable condition]
    {first second : GrammarRule α} :
    (if condition then first else second).Consists allowed ↔
      (condition → first.Consists allowed) ∧
        (¬ condition → second.Consists allowed) := by
  by_cases holds : condition <;> simp [holds]

@[simp] theorem consists_bind
    {first : GrammarRule α}
    {next : α → GrammarRule β} :
    (first >>= next).Consists allowed ↔
      Tells (first >>= next) ∨
        first.Consists allowed ∧ ∀ value, (next value).Consists allowed :=
  Iff.rfl

theorem Consists.bind
    {first : GrammarRule α}
    {next : α → GrammarRule β}
    (consists : first.Consists allowed)
    (then_ : ∀ value, (next value).Consists allowed) :
    (first >>= next).Consists allowed :=
  .inr ⟨consists, then_⟩

@[simp] theorem consists_attempt
    {rule : GrammarRule α} :
    (attempt rule).Consists allowed ↔ rule.Consists allowed :=
  Iff.rfl

@[simp] theorem consists_loop
    {state : σ}
    {round : σ → GrammarRule (σ ⊕ α)} :
    (loop state round).Consists allowed ↔
      ∀ state, (round state).Consists allowed :=
  Iff.rfl

@[simp] theorem consists_scan
    (scanner : Scanner α) :
    (scan scanner : GrammarRule α).Consists allowed :=
  trivial

@[simp] theorem consists_here :
    (here : GrammarRule Checkpoint).Consists allowed :=
  trivial

@[simp] theorem consists_setFlag
    (mask : UInt32)
    (on : Bool) :
    (setFlag mask on : GrammarRule Unit).Consists allowed :=
  trivial

@[simp] theorem consists_effect
    (operation : Craft α) :
    (effect operation).Consists allowed :=
  trivial

/-- A scope that may be kept is no lookahead. -/
theorem consists_scope
    {fate : α → Fate}
    {rule : GrammarRule α}
    (kept : α = Bool → ∃ value, fate value ≠ .undo) :
    (scope fate rule).Consists allowed ↔ rule.Consists allowed := by
  constructor
  · exact And.left
  · intro consists
    refine ⟨consists, ?_⟩
    rintro ⟨β, ahead, _, same⟩
    have sameType : α = Bool := congrArg Sigma.fst same
    obtain ⟨value, keeps⟩ := kept sameType
    subst sameType
    have sameRule := eq_of_heq (Sigma.mk.inj same).2
    simp only [peek, scope.injEq] at sameRule
    exact absurd (congrFun sameRule.1 value) keeps

@[simp] theorem consists_parse
    [StandsFor α]
    {rule : GrammarRule α} :
    (parse rule).Consists allowed ↔ rule.Consists allowed := by
  refine consists_scope fun sameType => ?_
  subst sameType
  exact ⟨true, nofun⟩

theorem Consists.peek
    {rule : GrammarRule α}
    (consists : rule.Consists allowed)
    (isAllowed : allowed α rule) :
    (Rule.peek rule).Consists allowed :=
  ⟨.bind consists fun _ => trivial, fun _ => ⟨α, rule, isAllowed, rfl⟩⟩

end Constructors

section Combinators

@[simp] theorem consists_require
    (test : Bool) :
    (require test : GrammarRule Unit).Consists allowed := by
  cases test <;> trivial

@[simp] theorem consists_literal
    (expected : String) :
    (literal expected : GrammarRule Unit).Consists allowed :=
  trivial

@[simp] theorem consists_chars
    (accept : Char → Bool) :
    (chars accept : GrammarRule String).Consists allowed :=
  trivial

@[simp] theorem consists_anyChar :
    (anyChar : GrammarRule Char).Consists allowed :=
  trivial

@[simp] theorem consists_lineBreak :
    (lineBreak : GrammarRule Unit).Consists allowed :=
  trivial

@[simp] theorem consists_atEnd :
    (atEnd : GrammarRule Bool).Consists allowed := by
  simp [atEnd]

@[simp] theorem consists_hasFlag
    (mask : UInt32) :
    (hasFlag mask : GrammarRule Bool).Consists allowed := by
  simp [hasFlag]

@[simp] theorem consists_error
    (message : String) :
    (error message : GrammarRule Unit).Consists allowed :=
  .inl (.error message)

@[simp] theorem consists_warning
    (message : String) :
    (warning message : GrammarRule Unit).Consists allowed :=
  .inl (.warning message)

@[simp] theorem consists_errorAt
    (id : NodeId)
    (message : String) :
    (Grammar.errorAt id message).Consists allowed :=
  .inl (.errorAt id message)

@[simp] theorem consists_reportExpected
    (description : String) :
    (reportExpected description : GrammarRule Unit).Consists allowed := by
  simp [reportExpected]

@[simp] theorem consists_integer :
    (integer : GrammarRule Int).Consists allowed := by
  simp [integer]

@[simp] theorem Consists.expect
    [StandsFor α]
    {rule : GrammarRule α}
    {description : String}
    (consists : rule.Consists allowed) :
    (Rule.expect rule description).Consists allowed := by
  refine .bind (consists_parse.mpr consists) ?_
  rintro (_ | value) <;> simp

@[simp] theorem Consists.expectOr
    [StandsFor α]
    {rule recovery : GrammarRule α}
    {description : String}
    (consists : rule.Consists allowed)
    (recovers : recovery.Consists allowed) :
    (Rule.expectOr rule description recovery).Consists allowed := by
  refine .bind (consists_parse.mpr consists) ?_
  rintro (_ | value)
  · exact .bind (consists_reportExpected description) fun _ => recovers
  · trivial

@[simp] theorem consists_firstOf
    [StandsFor α]
    {rules : List (GrammarRule α)}
    (consist : ∀ rule ∈ rules, rule.Consists allowed) :
    (oneOf.firstOf rules).Consists allowed := by
  induction rules with
  | nil =>
      trivial
  | cons rule others inductionHypothesis =>
      obtain ⟨consists, othersConsist⟩ := List.forall_mem_cons.mp consist
      refine .bind (consists_parse.mpr consists) ?_
      rintro (_ | value)
      · exact inductionHypothesis othersConsist
      · trivial

@[simp] theorem consists_oneOf
    [StandsFor α]
    {rules : List (GrammarRule α)}
    (consist : ∀ rule ∈ rules, rule.Consists allowed) :
    (oneOf rules).Consists allowed :=
  consists_parse.mpr (consists_firstOf consist)

@[simp] theorem Consists.oneOrMore
    [StandsFor α]
    {rule : GrammarRule α}
    (consists : rule.Consists allowed) :
    (Rule.oneOrMore rule).Consists allowed := by
  refine .bind (fun found => .bind (consists_parse.mpr consists) ?_) fun found => ?_
  · rintro (_ | value) <;> trivial
  · simp

@[simp] theorem Consists.separated
    [StandsFor α]
    [StandsFor β]
    {item : GrammarRule α}
    {separator : GrammarRule β}
    (consists : item.Consists allowed)
    (separates : separator.Consists allowed) :
    (Rule.separated item separator).Consists allowed := by
  refine .bind (consists_parse.mpr consists) fun first found => .bind ?_ ?_
  · refine (consists_scope fun sameType => ?_).mpr ?_
    · subst sameType
      exact ⟨true, nofun⟩
    · exact
        .bind (consists_parse.mpr separates) fun _ => consists_parse.mpr consists
  · rintro (_ | value) <;> trivial

theorem consists_alternateRound
    [StandsFor (Step α)]
    {outer inner : GrammarRule (Step α)}
    {stop : GrammarRule β}
    (outerConsists : outer.Consists allowed)
    (innerConsists : inner.Consists allowed)
    (isAllowed : allowed β stop)
    (stopConsists : stop.Consists allowed)
    (found : List α) :
    (alternateRound outer inner stop found).Consists allowed := by
  refine .bind (stopConsists.peek isAllowed) fun stops =>
    consists_ite.mpr ⟨fun _ => trivial, fun _ => ?_⟩
  refine .bind (consists_parse.mpr innerConsists) ?_
  rintro (_ | main)
  · trivial
  · refine .bind (consists_parse.mpr outerConsists) ?_
    rintro (_ | next) <;> simp

/-- Alternating pieces look ahead for what ends them. -/
theorem consists_alternateUntil
    [StandsFor (Step α)]
    [StandsFor (List α)]
    {outer inner : GrammarRule (Step α)}
    {stop : GrammarRule β}
    (outerConsists : outer.Consists allowed)
    (innerConsists : inner.Consists allowed)
    (isAllowed : allowed β stop)
    (stopConsists : stop.Consists allowed) :
    (alternateUntil outer inner stop).Consists allowed := by
  refine consists_parse.mpr ?_
  refine .bind (consists_parse.mpr outerConsists) fun first => ?_
  refine
    .bind
      (consists_alternateRound outerConsists innerConsists isAllowed
        stopConsists)
      fun found => ?_
  simp

theorem consists_alternate
    [StandsFor (Step α)]
    [StandsFor (List α)]
    {outer inner : GrammarRule (Step α)}
    (outerConsists : outer.Consists allowed)
    (innerConsists : inner.Consists allowed)
    (isAllowed : allowed Unit .fail) :
    (alternate outer inner).Consists allowed :=
  consists_alternateUntil outerConsists innerConsists isAllowed trivial

/-- Text looks ahead for what ends it. -/
theorem consists_textUntil
    {stop : GrammarRule α}
    {pauses stops : Char → Bool}
    (isAllowed : allowed α stop)
    (consists : stop.Consists allowed) :
    (textUntil stop pauses stops).Consists allowed := by
  refine consists_parse.mpr (.bind (fun parts => ?_) fun _ => by simp)
  refine .bind (consists_chars _) fun found => ?_
  refine .bind (consists.peek isAllowed) fun stops =>
    consists_ite.mpr ⟨fun _ => trivial, fun _ => ?_⟩
  refine .bind consists_here fun checkpoint => ?_
  cases checkpoint.cursor.rest with
  | nil =>
      trivial
  | cons character rest =>
      simp

@[simp] theorem Consists.optionally
    [StandsFor α]
    {rule : GrammarRule α}
    (consists : rule.Consists allowed) :
    (Rule.optionally rule).Consists allowed := by
  refine .bind (consists_parse.mpr consists) ?_
  rintro (_ | value) <;> trivial

@[simp] theorem Consists.dropped
    [StandsFor β]
    {rule : GrammarRule β}
    (consists : rule.Consists allowed) :
    (Rule.dropped rule : GrammarRule (Step α)).Consists allowed :=
  .bind (consists_parse.mpr consists) fun _ => trivial

@[simp] theorem Consists.optionallyDropped
    [StandsFor β]
    {rule : GrammarRule β}
    (consists : rule.Consists allowed) :
    (Rule.optionallyDropped rule : GrammarRule (Step α)).Consists allowed :=
  .bind (consists_parse.mpr consists) fun _ => trivial

@[simp] theorem Consists.single
    [StandsFor α]
    {rule : GrammarRule α}
    (consists : rule.Consists allowed) :
    (Rule.single rule).Consists allowed :=
  .bind (consists_parse.mpr consists) fun _ => trivial

end Combinators

end InkSyntax.Rule
