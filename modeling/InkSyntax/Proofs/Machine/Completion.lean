import InkSyntax.Proofs.Machine.Guarantee

namespace InkSyntax

/-!
# Rules that come to an end

Some rules can be followed on the text alone: where they start in it settles where
they end and with which value.  Such a rule completes from a spot in the text if no
run of it from there faults, given room for the scopes that it opens and rounds for
every character that is left.  A repetition completes if each of its rounds does and
the next one starts further on.
-/

/-- A spot in a text, by its line and by what follows it. -/
structure Spot where
  line : Nat
  rest : List Char

namespace Spot

/-- The spot behind some more characters. -/
def drop
    (spot : Spot)
    (count : Nat) : Spot :=
  ⟨spot.line + (spot.rest.take count).count '\n', spot.rest.drop count⟩

@[simp]
theorem drop_zero
    (spot : Spot) :
    spot.drop 0 = spot := by
  simp [drop]

@[simp]
theorem rest_drop
    (spot : Spot)
    (count : Nat) :
    (spot.drop count).rest = spot.rest.drop count :=
  rfl

end Spot

namespace Cursor

def spot (cursor : Cursor) : Spot :=
  ⟨cursor.line, cursor.rest⟩

theorem spot_advance
    (cursor : Cursor)
    (count : Nat) :
    (cursor.advance count).spot = cursor.spot.drop count := by
  induction count generalizing cursor with
  | zero =>
      simp [advance, spot, Spot.drop]
  | succ count inductionHypothesis =>
      cases rest : cursor.rest with
      | nil =>
          simp [advance, spot, Spot.drop, rest]
      | cons character others =>
          simp only [advance, rest]
          rw [inductionHypothesis]
          by_cases isBreak : character = '\n'
          · simp [past, spot, Spot.drop, rest, isBreak, Nat.add_comm,
              Nat.add_left_comm]
          · simp [past, spot, Spot.drop, rest, isBreak]

end Cursor

/-- A run does not fault, and something holds after a match and something after a failure. -/
def Outcome.Completes
    {H α : Type}
    (outcome : Outcome H α)
    (onMatch : α → Machine H → Prop)
    (onFailure : Machine H → Prop) : Prop :=
  match outcome with
  | .matched value after => onMatch value after
  | .failed after => onFailure after
  | .faulted _ => False

theorem Outcome.Completes.mono
    {H α : Type}
    {outcome : Outcome H α}
    {onMatch onMatch' : α → Machine H → Prop}
    {onFailure onFailure' : Machine H → Prop}
    (completes : outcome.Completes onMatch onFailure)
    (match_ : ∀ value after, onMatch value after → onMatch' value after)
    (failure : ∀ after, onFailure after → onFailure' after) :
    outcome.Completes onMatch' onFailure' := by
  cases outcome with
  | matched value after =>
      exact match_ value after completes
  | failed after =>
      exact failure after completes
  | faulted fault =>
      exact completes

/-- What a run ensures adds to what it completes with. -/
theorem Outcome.Completes.and_ensures
    {H α : Type}
    {outcome : Outcome H α}
    {onMatch onMatch' : α → Machine H → Prop}
    {onFailure onFailure' : Machine H → Prop}
    (completes : outcome.Completes onMatch onFailure)
    (ensures : outcome.Ensures onMatch' onFailure') :
    outcome.Completes
      (fun value after => onMatch value after ∧ onMatch' value after)
      (fun after => onFailure after ∧ onFailure' after) := by
  cases outcome with
  | matched value after =>
      exact ⟨completes, ensures⟩
  | failed after =>
      exact ⟨completes, ensures⟩
  | faulted fault =>
      exact completes

section Runs

variable
    {E : Type → Type 1}
    {H : Type}
    [Host H]
    {α β σ : Type}
    {handle : {γ : Type} → E γ → Action H γ}
    {machine : Machine H}
    {onMatch : β → Machine H → Prop}
    {onFailure : Machine H → Prop}

theorem Rule.run_completes_bind
    {first : Rule E α}
    {next : α → Rule E β} :
    ((first >>= next).run handle machine).Completes onMatch onFailure ↔
      (first.run handle machine).Completes
        (fun value middle =>
          ((next value).run handle middle).Completes onMatch onFailure)
        onFailure := by
  rw [run_bind]
  cases first.run handle machine <;> rfl

theorem Rule.run_completes_attempt
    {rule : Rule E α}
    {onMatch : Option α → Machine H → Prop} :
    ((Rule.attempt rule).run handle machine).Completes onMatch onFailure ↔
      (rule.run handle machine).Completes
        (fun value => onMatch (some value)) (onMatch none) := by
  simp only [Rule.run]
  cases rule.run handle machine <;> rfl

theorem Rule.run_completes_scan
    {scanner : Scanner β} :
    ((Rule.scan scanner : Rule E β).run handle machine).Completes
        onMatch onFailure ↔
      match scanner machine.cursor.rest with
      | some (value, length) =>
          onMatch value (machine.moveTo (machine.cursor.advance length))
      | none => onFailure machine := by
  simp only [Rule.run, Cursor.scan]
  cases scanner machine.cursor.rest <;> rfl

theorem Rule.run_completes_literal
    {expected : String}
    {onMatch : Unit → Machine H → Prop} :
    ((Rule.literal expected : Rule E Unit).run handle machine).Completes
        onMatch onFailure ↔
      if expected.toList <+: machine.cursor.rest then
        onMatch () (machine.moveTo (machine.cursor.advance expected.toList.length))
      else
        onFailure machine := by
  refine run_completes_scan.trans ?_
  unfold Scanner.exactly
  by_cases stands : expected.toList <+: machine.cursor.rest <;> simp [stands]

/-- A scope that has room closes as its fate says, and is undone if its rule fails. -/
theorem Rule.run_completes_scope
    {fate : β → Fate}
    {rule : Rule E β}
    (room : machine.stack.height < machine.stack.maxDepth)
    (inside :
      (rule.run handle machine.opened).Completes
        (fun value after =>
          machine.opened.Proceeds after ∧
            match fate value with
            | .keep nodes =>
                ∀ closed, machine.Keeps nodes after closed → onMatch value closed
            | .undo =>
                ∀ closed, machine.Undoes after closed → onMatch value closed)
        (fun after =>
          machine.opened.Proceeds after ∧
            ∀ closed, machine.Undoes after closed → onFailure closed)) :
    ((Rule.scope fate rule).run handle machine).Completes onMatch onFailure := by
  have opens :
      machine.openScope = .ok (machine.nextRule, machine.opened) :=
    Machine.openScope_eq_ok_iff.mpr ⟨room, rfl, rfl⟩
  simp only [Rule.run, Action.inScope, opens]
  cases ran : rule.run handle machine.opened with
  | faulted fault =>
      rw [ran] at inside
      exact inside
  | failed after =>
      rw [ran] at inside
      obtain ⟨proceeds, failed⟩ := inside
      obtain ⟨closed, cancels, undoes⟩ := proceeds.exists_undoes
      simp only [Action.balanced, proceeds.height, ↓reduceIte, cancels,
        Outcome.ofExcept]
      exact failed closed undoes
  | matched value after =>
      rw [ran] at inside
      obtain ⟨proceeds, matched⟩ := inside
      simp only [Action.balanced, proceeds.height, ↓reduceIte]
      cases fated : fate value with
      | keep nodes =>
          obtain ⟨closed, commits, keeps⟩ := proceeds.exists_keeps nodes
          simp only [fated] at matched
          simp only [commits, Outcome.ofExcept]
          exact matched closed keeps
      | undo =>
          obtain ⟨closed, cancels, undoes⟩ := proceeds.exists_undoes
          simp only [fated] at matched
          simp only [cancels, Outcome.ofExcept]
          exact matched closed undoes

/-- A repetition whose rounds read on comes to an end before it runs out of rounds. -/
theorem Rule.run_completes_loop
    {state : σ}
    {round : σ → Rule E (σ ⊕ β)}
    (invariant : σ → Machine H → Prop)
    (atStart : invariant state machine)
    (rounds : machine.cursor.rest.length < machine.rounds)
    (keeps :
      ∀ state machine,
        invariant state machine →
        ((round state).run handle machine).Completes
          (fun result after =>
            match result with
            | .inl next =>
                invariant next after ∧
                  after.cursor.rest.length < machine.cursor.rest.length
            | .inr value => onMatch value after)
          onFailure) :
    ((Rule.loop state round).run handle machine).Completes onMatch onFailure := by
  have iterates
      (count : Nat)
      (state : σ)
      (machine : Machine H)
      (atStart : invariant state machine)
      (enough : machine.cursor.rest.length < count) :
      (Action.iterate (fun state => (round state).run handle)
          count state machine).Completes onMatch onFailure := by
    induction count generalizing state machine with
    | zero =>
        exact absurd enough (Nat.not_lt_zero _)
    | succ count inductionHypothesis =>
        have ran := keeps state machine atStart
        simp only [Action.iterate]
        cases first : (round state).run handle machine with
        | faulted fault =>
            rw [first] at ran
            exact ran
        | failed after =>
            rw [first] at ran
            exact ran
        | matched result middle =>
            rw [first] at ran
            cases result with
            | inr value =>
                exact ran
            | inl next =>
                obtain ⟨holds, shorter⟩ := ran
                exact inductionHypothesis next middle holds (by omega)
  exact iterates machine.rounds state machine atStart rounds

end Runs

namespace Rule

variable
    {E : Type → Type 1}
    {H : Type}
    [Host H]
    {α β σ : Type}

/-- What all runs of a rule from a spot come to, given room for so many scopes. -/
def Completes
    (handle : {γ : Type} → E γ → Action H γ)
    (rule : Rule E α)
    (depth : Nat)
    (spot : Spot)
    (onMatch : α → Spot → Prop)
    (onFailure : Spot → Prop) : Prop :=
  ∀ machine : Machine H,
    machine.cursor.spot = spot →
    machine.stack.height + depth ≤ machine.stack.maxDepth →
    spot.rest.length < machine.rounds →
    (rule.run handle machine).Completes
      (fun value after =>
        machine.Proceeds after ∧ onMatch value after.cursor.spot)
      (fun after => machine.Proceeds after ∧ onFailure after.cursor.spot)

variable
    {handle : {γ : Type} → E γ → Action H γ}
    {rule : Rule E α}
    {depth : Nat}
    {spot : Spot}
    {onMatch onMatch' : α → Spot → Prop}
    {onFailure onFailure' : Spot → Prop}

theorem Completes.mono
    {deeper : Nat}
    (completes : rule.Completes handle depth spot onMatch onFailure)
    (depth_le : depth ≤ deeper)
    (match_ : ∀ value after, onMatch value after → onMatch' value after)
    (failure : ∀ after, onFailure after → onFailure' after) :
    rule.Completes handle deeper spot onMatch' onFailure' := by
  intro machine at_ room rounds
  refine (completes machine at_ (by omega) rounds).mono ?_ ?_
  · rintro value after ⟨proceeds, matched⟩
    exact ⟨proceeds, match_ value _ matched⟩
  · rintro after ⟨proceeds, failed⟩
    exact ⟨proceeds, failure _ failed⟩

theorem completes_pure
    {value : α}
    (holds : onMatch value spot) :
    (Pure.pure value : Rule E α).Completes handle depth spot onMatch
      onFailure := by
  rintro machine rfl _ _
  exact ⟨.refl machine, holds⟩

theorem completes_fail
    (holds : onFailure spot) :
    (Rule.fail : Rule E α).Completes handle depth spot onMatch onFailure := by
  rintro machine rfl _ _
  exact ⟨.refl machine, holds⟩

/-- What comes after a rule starts no further back. -/
theorem completes_bind
    {next : α → Rule E β}
    {onMatch : β → Spot → Prop}
    (completes :
      rule.Completes handle depth spot
        (fun value middle =>
          middle.rest.length ≤ spot.rest.length →
            (next value).Completes handle depth middle onMatch onFailure)
        onFailure) :
    (rule >>= next).Completes handle depth spot onMatch onFailure := by
  rintro machine rfl room rounds
  refine run_completes_bind.mpr ((completes machine rfl room rounds).mono ?_ fun _ => id)
  rintro value middle ⟨proceeds, then_⟩
  have shorter := proceeds.cursor.length_le
  have ranThen :=
    then_ shorter middle rfl
      (by rw [proceeds.height, proceeds.maxDepth]; exact room)
      (by rw [proceeds.rounds]; exact Nat.lt_of_le_of_lt shorter rounds)
  refine ranThen.mono ?_ ?_
  · rintro result after ⟨proceedsThen, matched⟩
    exact ⟨proceeds.trans proceedsThen, matched⟩
  · rintro after ⟨proceedsThen, failed⟩
    exact ⟨proceeds.trans proceedsThen, failed⟩

/-- Two rules in sequence, given what holds between them. -/
theorem completes_then
    {next : α → Rule E β}
    {onMatch : β → Spot → Prop}
    (between : α → Spot → Prop)
    (completes : rule.Completes handle depth spot between onFailure)
    (then_ :
      ∀ value middle,
        between value middle →
        middle.rest.length ≤ spot.rest.length →
        (next value).Completes handle depth middle onMatch onFailure) :
    (rule >>= next).Completes handle depth spot onMatch onFailure :=
  completes_bind (completes.mono (Nat.le_refl _) then_ fun _ failed => failed)

theorem completes_attempt
    {onMatch : Option α → Spot → Prop}
    (completes :
      rule.Completes handle depth spot (fun value => onMatch (some value))
        (onMatch none)) :
    (Rule.attempt rule).Completes handle depth spot onMatch onFailure := by
  intro machine at_ room rounds
  exact run_completes_attempt.mpr (completes machine at_ room rounds)

theorem completes_scan
    {scanner : Scanner α}
    (holds :
      match scanner spot.rest with
      | some (value, length) => onMatch value (spot.drop length)
      | none => onFailure spot) :
    (Rule.scan scanner : Rule E α).Completes handle depth spot onMatch
      onFailure := by
  rintro machine rfl _ _
  simp only [Cursor.spot] at holds
  refine run_completes_scan.mpr ?_
  cases found : scanner machine.cursor.rest with
  | none =>
      rw [found] at holds
      exact ⟨.refl machine, holds⟩
  | some pair =>
      rw [found] at holds
      refine ⟨.advance machine pair.2, ?_⟩
      have moved := machine.cursor.spot_advance pair.2
      change onMatch pair.1 (machine.cursor.advance pair.2).spot
      rw [moved]
      exact holds

theorem completes_here
    {onMatch : Checkpoint → Spot → Prop}
    (holds :
      ∀ checkpoint : Checkpoint,
        checkpoint.cursor.spot = spot → onMatch checkpoint spot) :
    (Rule.here : Rule E Checkpoint).Completes handle depth spot onMatch
      onFailure := by
  rintro machine rfl _ _
  exact ⟨.refl machine, holds machine.top rfl⟩

theorem completes_literal
    {expected : String}
    {onMatch : Unit → Spot → Prop}
    (holds :
      if expected.toList <+: spot.rest then
        onMatch () (spot.drop expected.toList.length)
      else
        onFailure spot) :
    (Rule.literal expected : Rule E Unit).Completes handle depth spot onMatch
      onFailure := by
  refine completes_scan ?_
  unfold Scanner.exactly
  by_cases stands : expected.toList <+: spot.rest
  · simpa [stands] using holds
  · simpa [stands] using holds

theorem completes_atEnd
    {onMatch : Bool → Spot → Prop}
    (holds : onMatch spot.rest.isEmpty spot) :
    (Rule.atEnd : Rule E Bool).Completes handle depth spot onMatch
      onFailure := by
  refine completes_bind (completes_here ?_)
  rintro checkpoint rfl _
  exact completes_pure holds

/-- A scope that is kept ends where its rule does; one that is undone, where it began. -/
theorem completes_scope
    {fate : α → Fate}
    (completes :
      rule.Completes handle depth spot
        (fun value after =>
          match fate value with
          | .keep _ => onMatch value after
          | .undo => onMatch value spot)
        (fun _ => onFailure spot)) :
    (Rule.scope fate rule).Completes handle (depth + 1) spot onMatch
      onFailure := by
  rintro machine rfl room rounds
  have ran :=
    completes machine.opened rfl
      (by rw [Machine.height_opened]; change _ ≤ machine.stack.maxDepth; omega)
      rounds
  refine run_completes_scope (by omega) (ran.mono ?_ ?_)
  · rintro value after ⟨proceeds, matched⟩
    refine ⟨proceeds, ?_⟩
    cases fated : fate value with
    | keep nodes =>
        rw [fated] at matched
        intro closed keeps
        refine ⟨keeps.toProceeds, ?_⟩
        rw [keeps.closed_cursor]
        exact matched
    | undo =>
        rw [fated] at matched
        intro closed undoes
        refine ⟨undoes.toProceeds, ?_⟩
        rw [undoes.closed_cursor]
        exact matched
  · rintro after ⟨proceeds, failed⟩
    refine ⟨proceeds, fun closed undoes => ⟨undoes.toProceeds, ?_⟩⟩
    rw [undoes.closed_cursor]
    exact failed

theorem completes_parse
    [StandsFor α]
    (completes :
      rule.Completes handle depth spot onMatch fun _ => onFailure spot) :
    (Rule.parse rule).Completes handle (depth + 1) spot onMatch onFailure :=
  completes_scope completes

/-- Looking ahead tells whether a rule matches, and stays where it is. -/
theorem completes_peek
    {onMatch : Bool → Spot → Prop}
    (completes :
      rule.Completes handle depth spot (fun _ _ => onMatch true spot)
        fun _ => onMatch false spot) :
    (Rule.peek rule).Completes handle (depth + 1) spot onMatch onFailure := by
  refine completes_scope (completes_bind (completes_attempt ?_))
  refine completes.mono (Nat.le_refl _) ?_ ?_
  · intro value after holds _
    exact completes_pure holds
  · intro after holds _
    exact completes_pure holds

/-- A repetition whose rounds start further and further on comes to an end. -/
theorem completes_loop
    {state : σ}
    {round : σ → Rule E (σ ⊕ α)}
    (invariant : σ → Spot → Prop)
    (atStart : invariant state spot)
    (keeps :
      ∀ state spot,
        invariant state spot →
        (round state).Completes handle depth spot
          (fun result after =>
            match result with
            | .inl next =>
                invariant next after ∧ after.rest.length < spot.rest.length
            | .inr value => onMatch value after)
          onFailure) :
    (Rule.loop state round).Completes handle depth spot onMatch
      onFailure := by
  rintro machine rfl room rounds
  refine
    run_completes_loop
      (fun state middle => machine.Proceeds middle ∧ invariant state middle.cursor.spot)
      ⟨.refl machine, atStart⟩ rounds ?_
  rintro state middle ⟨proceeds, holds⟩
  have shorter := proceeds.cursor.length_le
  have ran :=
    keeps state middle.cursor.spot holds middle rfl
      (by rw [proceeds.height, proceeds.maxDepth]; exact room)
      (by rw [proceeds.rounds]; exact Nat.lt_of_le_of_lt shorter rounds)
  refine ran.mono ?_ ?_
  · rintro (next | value) after ⟨proceedsThen, matched⟩
    · exact ⟨⟨proceeds.trans proceedsThen, matched.1⟩, matched.2⟩
    · exact ⟨proceeds.trans proceedsThen, matched⟩
  · rintro after ⟨proceedsThen, failed⟩
    exact ⟨proceeds.trans proceedsThen, failed⟩

end Rule

end InkSyntax
