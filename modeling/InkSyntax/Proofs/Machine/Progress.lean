import InkSyntax.Proofs.Machine.Consumption

namespace InkSyntax

/-!
# Rules whose repetitions come to an end

A rule advances if no repetition in it asks for another round without having
consumed text, at least while the text in front is clean in some sense.  The text
is finite, so a rule that advances never uses up the rounds that its repetitions
may make.
-/

/-- The run was not broken off for want of rounds. -/
def Outcome.Returns
    {H α : Type}
    (outcome : Outcome H α) : Prop :=
  match outcome with
  | .faulted fault => fault ≠ .stalled
  | _ => True

namespace Rule

variable
    {E : Type → Type 1}
    {H ι : Type}
    [Host H]
    {α β σ : Type}

/-- A round that asks for another one has consumed text, if the text is clean. -/
def GoesOn
    (handle : ι → {γ : Type} → E γ → Action H γ)
    (clean : List Char → Prop)
    (round : Rule E (σ ⊕ α)) : Prop :=
  ∀ (room : ι) (machine : Machine H),
    clean machine.cursor.rest →
    (round.run (handle room) machine).Ensures
      (fun result after =>
        result.isLeft = true → machine.cursor.offset < after.cursor.offset)
      fun _ => True

/-- No repetition in a rule goes on without having consumed text. -/
def Advances
    (handle : ι → {γ : Type} → E γ → Action H γ)
    (clean : List Char → Prop) :
    {α : Type} → Rule E α → Prop
  | _, .bind first next =>
      Advances handle clean first ∧
        ∀ value, Advances handle clean (next value)
  | _, .attempt rule => Advances handle clean rule
  | _, .scope _ rule => Advances handle clean rule
  | _, .loop _ round =>
      ∀ state,
        Advances handle clean (round state) ∧
          GoesOn handle clean (round state)
  | _, _ => True

variable
    {handle : ι → {γ : Type} → E γ → Action H γ}
    {clean : List Char → Prop}

/-- A round that consumes whenever it asks for another does so on any text. -/
theorem ConsumesIf.goesOn
    {round : Rule E (σ ⊕ α)}
    (consumes : round.ConsumesIf handle (·.isLeft = true)) :
    round.GoesOn handle clean :=
  fun room machine _ => consumes room machine

section Constructors

@[simp, grind .] theorem advances_pure
    (value : α) :
    (Pure.pure value : Rule E α).Advances handle clean :=
  trivial

@[simp, grind .] theorem advances_fail :
    (fail : Rule E α).Advances handle clean :=
  trivial

@[simp, grind =] theorem advances_bind
    {first : Rule E α}
    {next : α → Rule E β} :
    (first >>= next).Advances handle clean ↔
      first.Advances handle clean ∧
        ∀ value, (next value).Advances handle clean :=
  Iff.rfl

theorem Advances.bind
    {first : Rule E α}
    {next : α → Rule E β}
    (advances : first.Advances handle clean)
    (then_ : ∀ value, (next value).Advances handle clean) :
    (first >>= next).Advances handle clean :=
  ⟨advances, then_⟩

@[simp] theorem advances_ite
    {condition : Prop}
    [Decidable condition]
    {first second : Rule E α} :
    (if condition then first else second).Advances handle clean ↔
      (condition → first.Advances handle clean) ∧
        (¬ condition → second.Advances handle clean) := by
  by_cases holds : condition <;> simp [holds]

@[simp, grind =] theorem advances_attempt
    {rule : Rule E α} :
    (attempt rule).Advances handle clean ↔ rule.Advances handle clean :=
  Iff.rfl

@[simp, grind =] theorem advances_scope
    {fate : α → Fate}
    {rule : Rule E α} :
    (scope fate rule).Advances handle clean ↔ rule.Advances handle clean :=
  Iff.rfl

@[simp, grind .] theorem advances_scan
    (scanner : Scanner α) :
    (scan scanner : Rule E α).Advances handle clean :=
  trivial

@[simp, grind .] theorem advances_here :
    (here : Rule E Checkpoint).Advances handle clean :=
  trivial

@[simp, grind .] theorem advances_setFlag
    (mask : UInt32)
    (on : Bool) :
    (setFlag mask on : Rule E Unit).Advances handle clean :=
  trivial

@[simp, grind .] theorem advances_report
    (severity : Severity)
    (line : Nat)
    (message : String) :
    (report severity line message : Rule E Unit).Advances handle clean :=
  trivial

@[simp, grind .] theorem advances_effect
    (operation : E α) :
    (effect operation).Advances handle clean :=
  trivial

@[simp, grind =] theorem advances_parse
    [StandsFor α]
    {rule : Rule E α} :
    (parse rule).Advances handle clean ↔ rule.Advances handle clean :=
  Iff.rfl

@[simp, grind =] theorem advances_peek
    {rule : Rule E α} :
    (peek rule).Advances handle clean ↔ rule.Advances handle clean := by
  simp [peek]

end Constructors

section Combinators

@[simp, grind .] theorem advances_require
    (test : Bool) :
    (require test : Rule E Unit).Advances handle clean := by
  cases test <;> trivial

@[simp, grind =] theorem advances_ahead
    {rule : Rule E α} :
    (ahead rule).Advances handle clean ↔ rule.Advances handle clean := by
  simp [ahead]

@[simp, grind .] theorem advances_atEnd :
    (atEnd : Rule E Bool).Advances handle clean := by
  simp [atEnd]

@[simp, grind .] theorem advances_line :
    (line : Rule E Nat).Advances handle clean := by
  simp [line]

@[simp, grind .] theorem advances_hasFlag
    (mask : UInt32) :
    (hasFlag mask : Rule E Bool).Advances handle clean := by
  simp [hasFlag]

@[simp, grind .] theorem advances_literal
    (expected : String) :
    (literal expected : Rule E Unit).Advances handle clean :=
  trivial

@[simp, grind .] theorem advances_anyChar :
    (anyChar : Rule E Char).Advances handle clean :=
  trivial

@[simp, grind .] theorem advances_chars
    (accept : Char → Bool) :
    (chars accept : Rule E String).Advances handle clean :=
  trivial

@[simp, grind .] theorem advances_lineBreak :
    (lineBreak : Rule E Unit).Advances handle clean :=
  trivial

@[simp, grind .] theorem advances_error
    (message : String) :
    (error message : Rule E Unit).Advances handle clean := by
  simp [error]

@[simp, grind .] theorem advances_warning
    (message : String) :
    (warning message : Rule E Unit).Advances handle clean := by
  simp [warning]

@[simp, grind .] theorem advances_reportExpected
    (description : String) :
    (reportExpected description : Rule E Unit).Advances handle clean := by
  simp [reportExpected]

@[simp, grind .] theorem advances_integer :
    (integer : Rule E Int).Advances handle clean := by
  simp [integer]

@[simp, grind =] theorem advances_expect
    [StandsFor α]
    {rule : Rule E α}
    {description : String} :
    (expect rule description).Advances handle clean ↔
      rule.Advances handle clean := by
  refine ⟨fun advances => advances.1, fun advances => .bind advances ?_⟩
  rintro (_ | value) <;> simp

@[simp, grind =] theorem advances_expectOr
    [StandsFor α]
    {rule recovery : Rule E α}
    {description : String} :
    (expectOr rule description recovery).Advances handle clean ↔
      rule.Advances handle clean ∧ recovery.Advances handle clean := by
  refine ⟨fun advances => ⟨advances.1, (advances.2 none).2 ()⟩, ?_⟩
  rintro ⟨advances, recovers⟩
  refine .bind advances ?_
  rintro (_ | value) <;> simp [recovers]

theorem advances_firstOf
    [StandsFor α]
    {rules : List (Rule E α)}
    (advance : ∀ rule ∈ rules, rule.Advances handle clean) :
    (oneOf.firstOf rules).Advances handle clean := by
  induction rules with
  | nil =>
      trivial
  | cons rule others inductionHypothesis =>
      obtain ⟨first, rest⟩ := List.forall_mem_cons.mp advance
      refine advances_bind.mpr ⟨first, ?_⟩
      rintro (_ | value)
      · exact inductionHypothesis rest
      · trivial

@[simp, grind ←] theorem advances_oneOf
    [StandsFor α]
    {rules : List (Rule E α)}
    (advance : ∀ rule ∈ rules, rule.Advances handle clean) :
    (oneOf rules).Advances handle clean :=
  advances_firstOf advance

@[simp, grind =] theorem advances_optionally
    [StandsFor α]
    {rule : Rule E α} :
    (optionally rule).Advances handle clean ↔ rule.Advances handle clean := by
  refine ⟨fun advances => advances.1, fun advances => .bind advances ?_⟩
  rintro (_ | value) <;> trivial

@[simp, grind =] theorem advances_dropped
    [StandsFor β]
    {rule : Rule E β} :
    (dropped rule : Rule E (Step α)).Advances handle clean ↔
      rule.Advances handle clean := by
  simp [dropped]

@[simp, grind =] theorem advances_optionallyDropped
    [StandsFor β]
    {rule : Rule E β} :
    (optionallyDropped rule : Rule E (Step α)).Advances handle clean ↔
      rule.Advances handle clean := by
  simp [optionallyDropped]

@[simp, grind =] theorem advances_single
    [StandsFor α]
    {rule : Rule E α} :
    (single rule).Advances handle clean ↔ rule.Advances handle clean := by
  simp [single]

end Combinators

section Repetitions

/-- A repetition advances if a round that asks for another consumes text. -/
theorem advances_loop
    {state : σ}
    {round : σ → Rule E (σ ⊕ α)}
    (advances : ∀ state, (round state).Advances handle clean)
    (consumes :
      ∀ state, (round state).ConsumesIf handle (·.isLeft = true)) :
    (loop state round).Advances handle clean :=
  fun state => ⟨advances state, (consumes state).goesOn⟩

variable
    (forward : Forward handle)

include forward

theorem advances_zeroOrMore
    [StandsFor α]
    {rule : Rule E α}
    (advances : rule.Advances handle clean)
    (consumes : rule.Consumes handle) :
    (zeroOrMore rule).Advances handle clean := by
  refine advances_loop (fun found => .bind advances ?_) fun found => ?_
  · rintro (_ | value) <;> trivial
  · refine consumesIf_bind forward _ consumes.attempt_parse ?_
    rintro (_ | value) isNone
    · exact consumesIf_pure Bool.false_ne_true
    · exact absurd rfl isNone

theorem advances_oneOrMore
    [StandsFor α]
    {rule : Rule E α}
    (advances : rule.Advances handle clean)
    (consumes : rule.Consumes handle) :
    (oneOrMore rule).Advances handle clean := by
  refine .bind (advances_zeroOrMore forward advances consumes) fun found => ?_
  split <;> trivial

theorem advances_separated
    [StandsFor α]
    [StandsFor β]
    {item : Rule E α}
    {separator : Rule E β}
    (items : item.Advances handle clean)
    (separators : separator.Advances handle clean)
    (consumes : separator.Consumes handle) :
    (separated item separator).Advances handle clean := by
  refine .bind items fun first => advances_loop (fun found => ?_) fun found => ?_
  · refine .bind ⟨separators, fun _ => items⟩ ?_
    rintro (_ | value) <;> trivial
  · have pair :
        (parse separator >>= fun _ => parse item).Consumes handle :=
      Consumes.bind forward consumes.parse _
    refine consumesIf_bind forward _ (ConsumesIf.attempt pair.scope) ?_
    rintro (_ | value) isNone
    · exact consumesIf_pure Bool.false_ne_true
    · exact absurd ⟨value, rfl, trivial, Fate.noConfusion⟩ isNone

/-- Pieces in turn advance if of two pieces, not both neutral, one has consumed. -/
theorem advances_alternateUntil
    [StandsFor (Step α)]
    [StandsFor (List α)]
    {outer inner : Rule E (Step α)}
    {stop : Rule E β}
    (outerAdvances : outer.Advances handle clean)
    (innerAdvances : inner.Advances handle clean)
    (stopAdvances : stop.Advances handle clean)
    (ofInner ofOuter : Step α → Prop)
    (innerConsumes : inner.ConsumesIf handle ofInner)
    (outerConsumes : outer.ConsumesIf handle ofOuter)
    (either :
      ∀ main next : Step α,
        (main.isNeutral && next.isNeutral) = false →
        ofInner main ∨ ofOuter next) :
    (alternateUntil outer inner stop).Advances handle clean := by
  refine .bind outerAdvances fun first => .bind ?_ fun found => ?_
  · refine advances_loop (fun found => ?_) fun found => ?_
    · refine .bind (advances_peek.mpr stopAdvances) fun stops => ?_
      split
      · trivial
      · refine .bind innerAdvances ?_
        rintro (_ | main)
        · trivial
        · refine .bind outerAdvances ?_
          rintro (_ | next)
          · trivial
          · refine .bind advances_atEnd fun isEnd => ?_
            split <;> trivial
    · refine consumesIf_bind_next forward _ fun stops => ?_
      split
      · exact consumesIf_pure Bool.false_ne_true
      · refine
          consumesIf_bind forward _ (ConsumesIf.attempt innerConsumes.parse) ?_
        rintro (_ | main) notMain
        · exact consumesIf_pure Bool.false_ne_true
        · refine
            consumesIf_bind forward _ (ConsumesIf.attempt outerConsumes.parse)
              ?_
          rintro (_ | next) notNext
          · exact consumesIf_pure Bool.false_ne_true
          · refine consumesIf_bind_next forward _ fun isEnd => ?_
            by_cases neutral : (main.isNeutral && next.isNeutral) = true
            · rw [neutral, Bool.true_or, if_pos rfl]
              exact consumesIf_pure Bool.false_ne_true
            · rcases either main next (by simpa using neutral) with
                ofMain | ofNext
              · exact absurd ⟨main, rfl, ofMain⟩ notMain
              · exact absurd ⟨next, rfl, ofNext⟩ notNext
  · split <;> trivial

theorem advances_alternate_of_inner
    [StandsFor (Step α)]
    [StandsFor (List α)]
    {outer inner : Rule E (Step α)}
    (outerAdvances : outer.Advances handle clean)
    (innerAdvances : inner.Advances handle clean)
    (consumes : inner.Consumes handle) :
    (alternate outer inner).Advances handle clean :=
  advances_alternateUntil forward outerAdvances innerAdvances advances_fail _
    (fun _ => False) consumes (consumesIf_of_never (fun _ => id) outer)
    fun _ _ _ => .inl trivial

theorem advances_alternate_of_outer
    [StandsFor (Step α)]
    [StandsFor (List α)]
    {outer inner : Rule E (Step α)}
    (outerAdvances : outer.Advances handle clean)
    (innerAdvances : inner.Advances handle clean)
    (consumes : outer.Consumes handle) :
    (alternate outer inner).Advances handle clean :=
  advances_alternateUntil forward outerAdvances innerAdvances advances_fail
    (fun _ => False) _ (consumesIf_of_never (fun _ => id) inner) consumes
    fun _ _ _ => .inr trivial

theorem advances_textUntil
    {stop : Rule E α}
    (advances : stop.Advances handle clean)
    (pauses stops : Char → Bool) :
    (textUntil stop pauses stops).Advances handle clean := by
  refine .bind (advances_loop (fun parts => ?_) fun parts => ?_) fun text => ?_
  · refine .bind (advances_chars _) fun part => ?_
    refine .bind (advances_peek.mpr advances) fun stopsHere => ?_
    split
    · trivial
    · refine .bind advances_here fun checkpoint => ?_
      split
      · trivial
      · split
        · exact .bind advances_anyChar fun _ => trivial
        · trivial
  · refine consumesIf_bind_next forward _ fun part => ?_
    refine consumesIf_bind_next forward _ fun stopsHere => ?_
    split
    · exact consumesIf_pure Bool.false_ne_true
    · refine consumesIf_bind_next forward _ fun checkpoint => ?_
      split
      · exact consumesIf_pure Bool.false_ne_true
      · split
        · exact Consumes.bind forward consumes_anyChar _
        · exact consumesIf_pure Bool.false_ne_true
  · dsimp only
    split <;> trivial

end Repetitions

section Returning

/-- Rounds that consume text are never as many as the characters in front. -/
theorem GoesOn.iterate_returns
    {round : σ → Rule E (σ ⊕ α)}
    {room : ι}
    (forward : Forward handle)
    (holds : Machine H → Prop)
    (keeps :
      ∀ {γ : Type} (rule : Rule E γ) (machine : Machine H),
        holds machine → (rule.run (handle room) machine).Ends holds)
    (isClean : ∀ machine, holds machine → clean machine.cursor.rest)
    (goesOn : ∀ state, (round state).GoesOn handle clean)
    (returns :
      ∀ state machine,
        holds machine →
        ((round state).run (handle room) machine).Returns)
    (count : Nat)
    (state : σ)
    (machine : Machine H)
    (atStart : holds machine)
    (enough : machine.cursor.rest.length < count) :
    (Action.iterate (fun state => (round state).run (handle room)) count state
      machine).Returns := by
  induction count generalizing state machine with
  | zero =>
      exact absurd enough (Nat.not_lt_zero _)
  | succ count inductionHypothesis =>
      have kept := keeps (round state) machine atStart
      have moved := forward.ends_proceeds room (round state) machine
      have consumed := goesOn state room machine (isClean machine atStart)
      have notStalled := returns state machine atStart
      simp only [Action.iterate]
      cases ran : (round state).run (handle room) machine with
      | faulted fault =>
          rw [ran] at notStalled
          exact notStalled
      | failed after =>
          trivial
      | matched result after =>
          rw [ran] at kept moved consumed
          cases result with
          | inl next =>
              have total := (Machine.Proceeds.cursor moved).offset_add_length
              have further := consumed rfl
              exact inductionHypothesis next after kept (by omega)
          | inr value =>
              trivial

/-- A rule that advances does not run out of rounds, if none of its effects does. -/
theorem Advances.run_returns
    {room : ι}
    (forward : Forward handle)
    (holds : Machine H → Prop)
    (keeps :
      ∀ {γ : Type} (rule : Rule E γ) (machine : Machine H),
        holds machine → (rule.run (handle room) machine).Ends holds)
    (opens : ∀ machine, holds machine → holds machine.opened)
    (isClean : ∀ machine, holds machine → clean machine.cursor.rest)
    (enough :
      ∀ machine, holds machine → machine.cursor.rest.length < machine.rounds)
    (effects :
      ∀ {γ : Type} (operation : E γ) (machine : Machine H),
        holds machine → (handle room operation machine).Returns)
    (rule : Rule E α)
    (advances : rule.Advances handle clean)
    (machine : Machine H)
    (atStart : holds machine) :
    (rule.run (handle room) machine).Returns := by
  induction rule generalizing machine with
  | bind first next firstHypothesis nextHypothesis =>
      have kept := keeps first machine atStart
      have returns := firstHypothesis advances.1 machine atStart
      simp only [run]
      cases ran : first.run (handle room) machine with
      | matched value middle =>
          rw [ran] at kept
          exact nextHypothesis value (advances.2 value) middle kept
      | failed after =>
          trivial
      | faulted fault =>
          rw [ran] at returns
          exact returns
  | attempt rule inductionHypothesis =>
      have returns := inductionHypothesis advances machine atStart
      simp only [run]
      cases ran : rule.run (handle room) machine with
      | faulted fault =>
          rw [ran] at returns
          exact returns
      | _ =>
          trivial
  | scope fate rule inductionHypothesis =>
      have returns :=
        inductionHypothesis advances machine.opened (opens machine atStart)
      cases ran : (Rule.scope fate rule).run (handle room) machine with
      | faulted fault =>
          by_cases hasRoom : machine.stack.height < machine.stack.maxDepth
          · rw [faulted_of_scope hasRoom (forward.ends_proceeds room rule _)
              ran] at returns
            exact returns
          · simp only [run, Action.inScope, Machine.openScope, RuleStack.push,
              if_pos (Nat.le_of_not_lt hasRoom)] at ran
            cases ran
            exact Fault.noConfusion
      | _ =>
          trivial
  | loop state round inductionHypothesis =>
      exact
        GoesOn.iterate_returns forward holds keeps isClean
          (fun state => (advances state).2)
          (fun state => inductionHypothesis state (advances state).1) _ state
          machine atStart (enough machine atStart)
  | scan scanner =>
      simp only [run]
      split <;> trivial
  | effect operation =>
      exact effects operation machine atStart
  | _ =>
      trivial

end Returning

end Rule

end InkSyntax
