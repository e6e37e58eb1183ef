import InkSyntax.Machine.Repetition
import InkSyntax.Proofs.Machine.Allocation

namespace InkSyntax

/-!
# What an alternation collects

An alternation reads an outer piece and then, round after round, an inner and an
outer one.  Its pieces are written down here as they are run, with a rule for each way
in which a round may be the last.  An alternation collects the values of exactly these
pieces and ends in the place directly behind the last of them; without any value it
fails and ends where it started.
-/

namespace Rule

open Machine (SamePlace)

section Pieces

variable
    {E : Type → Type 1}
    {H : Type}
    [Host H]
    {α β : Type}

/-- Behind two neutral pieces, and at the end of the text, no further round is made. -/
def Exhausted
    (main next : Step α)
    (last : Machine H) : Prop :=
  main.isNeutral ∧ next.isNeutral ∨ last.cursor.rest = []

variable
    [StandsFor (Step α)]
    (handle : {γ : Type} → E γ → Action H γ)
    (outer inner : Rule E (Step α))
    (stop : Rule E β)

/-- The pieces that rounds collect from a machine on, and the machine behind the last one. -/
inductive Rounds : Machine H → List (Step α) → Machine H → Prop where
  /-- What stops the alternation would match. -/
  | stops
      {machine ahead : Machine H}
      (stops : (peek stop).run handle machine = .matched true ahead) :
      Rounds machine [] machine
  /-- The inner piece fails. -/
  | innerFails
      {machine ahead after : Machine H}
      (clear : (peek stop).run handle machine = .matched false ahead)
      (fails : (parse inner).run handle ahead = .failed after) :
      Rounds machine [] machine
  /-- The outer piece fails, and the inner piece in front of it stays. -/
  | outerFails
      {machine ahead middle after : Machine H}
      {main : Step α}
      (clear : (peek stop).run handle machine = .matched false ahead)
      (reads : (parse inner).run handle ahead = .matched main middle)
      (fails : (parse outer).run handle middle = .failed after) :
      Rounds machine [main] middle
  /-- Both pieces are neutral, or nothing is left behind them. -/
  | exhausted
      {machine ahead middle last : Machine H}
      {main next : Step α}
      (clear : (peek stop).run handle machine = .matched false ahead)
      (reads : (parse inner).run handle ahead = .matched main middle)
      (readsOn : (parse outer).run handle middle = .matched next last)
      (exhausted : Exhausted main next last) :
      Rounds machine [main, next] last
  | again
      {machine ahead middle last reached : Machine H}
      {main next : Step α}
      {others : List (Step α)}
      (clear : (peek stop).run handle machine = .matched false ahead)
      (reads : (parse inner).run handle ahead = .matched main middle)
      (readsOn : (parse outer).run handle middle = .matched next last)
      (goesOn : ¬ Exhausted main next last)
      (rounds : Rounds last others reached) :
      Rounds machine (main :: next :: others) reached

/-- All pieces of an alternation from a machine on, and the machine behind the last one. -/
inductive Pieces (machine : Machine H) : List (Step α) → Machine H → Prop where
  | intro
      {middle reached : Machine H}
      {first : Step α}
      {others : List (Step α)}
      (reads : (parse outer).run handle machine = .matched first middle)
      (rounds : Rounds handle outer inner stop middle others reached) :
      Pieces machine (first :: others) reached

variable {handle outer inner stop}

/-- A rule runs in one way only, so there is one way for the rounds to go. -/
theorem Rounds.unique
    {machine reached reached' : Machine H}
    {pieces pieces' : List (Step α)}
    (rounds : Rounds handle outer inner stop machine pieces reached)
    (others : Rounds handle outer inner stop machine pieces' reached') :
    pieces = pieces' ∧ reached = reached' := by
  induction rounds generalizing pieces' with
  | stops stops => cases others <;> grind
  | innerFails clear fails => cases others <;> grind
  | outerFails clear reads fails => cases others <;> grind
  | exhausted clear reads readsOn exhausted => cases others <;> grind
  | again clear reads readsOn goesOn rounds inductionHypothesis => cases others <;> grind

theorem Pieces.unique
    {machine reached reached' : Machine H}
    {pieces pieces' : List (Step α)}
    (collected : Pieces handle outer inner stop machine pieces reached)
    (others : Pieces handle outer inner stop machine pieces' reached') :
    pieces = pieces' ∧ reached = reached' := by
  obtain ⟨reads, rounds⟩ := collected
  obtain ⟨readsToo, roundsToo⟩ := others
  obtain ⟨rfl, rfl⟩ := Outcome.matched.inj (reads.symm.trans readsToo)
  obtain ⟨rfl, rfl⟩ := rounds.unique roundsToo
  exact ⟨rfl, rfl⟩

end Pieces

section Running

variable
    {E : Type → Type 1}
    {H δ : Type}
    [Host H]
    {α β : Type}
    [StandsFor (Step α)]
    {allocations : H → List δ}
    {handle : {γ : Type} → E γ → Action H γ}
    (allocates : Host.Allocates allocations)
    (extending : Extending allocations handle)

include allocates extending

/-- A round goes on behind two pieces, or it is the last one and tells what was found. -/
theorem ensures_alternateRound
    (outer inner : Rule E (Step α))
    (stop : Rule E β)
    (found : List α)
    (machine : Machine H) :
    ((alternateRound outer inner stop found).run handle machine).Ensures
      (fun result after =>
        match result with
        | .inl further =>
            ∃ main next,
              further = found ++ [main, next].flatMap Step.values ∧
                ∀ others reached,
                  Rounds handle outer inner stop after others reached →
                  Rounds handle outer inner stop machine (main :: next :: others) reached
        | .inr values =>
            ∃ pieces reached,
              Rounds handle outer inner stop machine pieces reached ∧
                values = found ++ pieces.flatMap Step.values ∧
                SamePlace allocations reached after)
      (fun _ => False) := by
  refine ensures_bind.mpr (Outcome.ensures_iff.mpr ⟨?_, ?_⟩)
  rotate_left
  · exact fun _ fails => peek_run_ne_failed allocates extending fails
  intro stops ahead peeked
  have atStart : SamePlace allocations machine ahead :=
    samePlace_of_peek allocates extending peeked
  cases stops with
  | true =>
      exact ⟨[], machine, .stops peeked, by simp, atStart⟩
  | false =>
      refine
        ensures_bind.mpr (ensures_attempt.mpr (Outcome.ensures_iff.mpr ⟨?_, ?_⟩))
      rotate_left
      · intro after fails
        have undone := samePlace_of_failed allocates extending fails
        exact
          ⟨[], machine, .innerFails peeked fails, by simp, atStart.trans undone⟩
      intro main middle reads
      refine
        ensures_bind.mpr (ensures_attempt.mpr (Outcome.ensures_iff.mpr ⟨?_, ?_⟩))
      rotate_left
      · intro after fails
        have undone := samePlace_of_failed allocates extending fails
        exact ⟨[main], middle, .outerFails peeked reads fails, by simp, undone⟩
      intro next last readsOn
      refine ensures_bind.mpr (ensures_bind.mpr ?_)
      have isExhausted :
          (main.isNeutral && next.isNeutral || last.cursor.atEnd) = true ↔
            Exhausted main next last := by
        simp [Exhausted, Cursor.atEnd]
      change
        (run handle
          (if (main.isNeutral && next.isNeutral || last.cursor.atEnd) = true then
            pure (Sum.inr (found ++ main.values ++ next.values))
          else
            pure (Sum.inl (found ++ main.values ++ next.values))) last).Ensures _ _
      split
      · next exhausted =>
          exact
            ⟨[main, next], last,
              .exhausted peeked reads readsOn (isExhausted.mp exhausted),
              by simp, .refl last⟩
      · next goesOn =>
          refine ⟨main, next, by simp, fun others reached rounds => ?_⟩
          exact .again peeked reads readsOn (mt isExhausted.mpr goesOn) rounds

/-- All rounds together find the values of their pieces. -/
theorem ensures_rounds
    (outer inner : Rule E (Step α))
    (stop : Rule E β)
    (found : List α)
    (machine : Machine H) :
    ((loop found (alternateRound outer inner stop)).run handle machine).Ensures
      (fun values after =>
        ∃ pieces reached,
          Rounds handle outer inner stop machine pieces reached ∧
            values = found ++ pieces.flatMap Step.values ∧
            SamePlace allocations reached after)
      (fun _ => False) := by
  -- Whatever the rounds from here on are, those from the start are some more in front.
  refine
    ensures_loop
      (fun further middle =>
        ∃ front,
          further = found ++ front.flatMap Step.values ∧
            ∀ others reached,
              Rounds handle outer inner stop middle others reached →
              Rounds handle outer inner stop machine (front ++ others) reached)
      ⟨[], by simp, fun _ _ rounds => rounds⟩ ?_
  rintro further middle ⟨front, rfl, extend⟩
  refine
    (ensures_alternateRound allocates extending outer inner stop _ middle).mono ?_
      fun _ => id
  rintro (further | values) after
  · rintro ⟨main, next, rfl, goesOn⟩
    refine ⟨front ++ [main, next], by simp, fun others reached rounds => ?_⟩
    rw [List.append_assoc]
    exact extend _ _ (goesOn others reached rounds)
  · rintro ⟨pieces, reached, rounds, rfl, place⟩
    exact ⟨front ++ pieces, reached, extend _ _ rounds, by simp, place⟩

/-- The values of all pieces are found, unless there are none or the first piece fails. -/
theorem ensures_pieces
    (outer inner : Rule E (Step α))
    (stop : Rule E β)
    (machine : Machine H) :
    ((do
        let first ← parse outer
        let found ← loop first.values (alternateRound outer inner stop)
        if found.isEmpty then fail else return found :
      Rule E (List α)).run handle machine).Ensures
      (fun values after =>
        ∃ pieces reached,
          Pieces handle outer inner stop machine pieces reached ∧
            values = pieces.flatMap Step.values ∧
            values ≠ [] ∧
            SamePlace allocations reached after)
      (fun _ =>
        (∃ behind, (parse outer).run handle machine = .failed behind) ∨
          ∃ pieces reached,
            Pieces handle outer inner stop machine pieces reached ∧
              pieces.flatMap Step.values = []) := by
  refine ensures_bind.mpr (Outcome.ensures_iff.mpr ⟨?_, ?_⟩)
  rotate_left
  · exact fun behind fails => .inl ⟨behind, fails⟩
  intro first middle reads
  refine
    ensures_bind.mpr
      ((ensures_rounds allocates extending outer inner stop _ middle).mono ?_
        fun _ => False.elim)
  rintro values after ⟨others, reached, rounds, rfl, place⟩
  have collected : Pieces handle outer inner stop machine (first :: others) reached :=
    .intro reads rounds
  split
  · next nothing =>
      exact .inr ⟨_, reached, collected, List.isEmpty_iff.mp nothing⟩
  · next something =>
      exact ⟨_, reached, collected, rfl, mt List.isEmpty_iff.mpr something, place⟩

/-- An alternation ends in the place behind its last piece, or else where it started. -/
theorem ensures_alternateUntil
    [StandsFor (List α)]
    (outer inner : Rule E (Step α))
    (stop : Rule E β)
    (machine : Machine H) :
    ((alternateUntil outer inner stop).run handle machine).Ensures
      (fun values after =>
        ∃ pieces reached,
          Pieces handle outer inner stop machine.opened pieces reached ∧
            values = pieces.flatMap Step.values ∧
            values ≠ [] ∧
            SamePlace allocations reached after)
      (fun after =>
        ((∃ behind, (parse outer).run handle machine.opened = .failed behind) ∨
            ∃ pieces reached,
              Pieces handle outer inner stop machine.opened pieces reached ∧
                pieces.flatMap Step.values = []) ∧
          SamePlace allocations machine after) := by
  have collects :=
    Outcome.ensures_iff.mp
      (ensures_pieces allocates extending outer inner stop machine.opened)
  refine (ensures_parse_place allocates extending _ machine).mono ?_ ?_
  · rintro values after ⟨inside, ran, kept⟩
    obtain ⟨pieces, reached, collected, same, some_, place⟩ :=
      collects.1 values inside ran
    exact ⟨pieces, reached, collected, same, some_, place.trans kept⟩
  · rintro after ⟨⟨inside, ran⟩, place⟩
    exact ⟨collects.2 inside ran, place⟩

/-- An alternation fails exactly if its first piece does or its pieces have no value. -/
theorem alternateUntil_run_failed_iff
    [StandsFor (List α)]
    {outer inner : Rule E (Step α)}
    {stop : Rule E β}
    {machine : Machine H}
    (ends :
      ∀ fault, (alternateUntil outer inner stop).run handle machine ≠ .faulted fault) :
    (∃ after, (alternateUntil outer inner stop).run handle machine = .failed after) ↔
      (∃ behind, (parse outer).run handle machine.opened = .failed behind) ∨
        ∃ pieces reached,
          Pieces handle outer inner stop machine.opened pieces reached ∧
            pieces.flatMap Step.values = [] := by
  have ensures := ensures_alternateUntil allocates extending outer inner stop machine
  constructor
  · rintro ⟨after, failed⟩
    exact ((Outcome.ensures_iff.mp ensures).2 after failed).1
  intro nothing
  cases ran : (alternateUntil outer inner stop).run handle machine with
  | faulted fault =>
      exact absurd ran (ends fault)
  | failed after =>
      exact ⟨after, rfl⟩
  | matched values after =>
      obtain ⟨pieces, reached, collected, same, some_, -⟩ :=
        (Outcome.ensures_iff.mp ensures).1 values after ran
      exfalso
      rcases nothing with ⟨behind, fails⟩ | ⟨others, reachedToo, collectedToo, none_⟩
      · obtain ⟨reads, -⟩ := collected
        cases fails.symm.trans reads
      · obtain ⟨rfl, -⟩ := collected.unique collectedToo
        exact some_ (same.trans none_)

end Running

end Rule

end InkSyntax
