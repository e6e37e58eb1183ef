import InkSyntax.Proofs.Machine.TextEnds

namespace InkSyntax

/-!
# Texts read in pieces

Reading text up to a stop passes over characters with no stop before any of them, and
ends at the first stop or at the end.  Where two kinds of pieces alternate and the text
is copied with each piece changed, what the pieces contribute is a copy of the text
that they cover, and reading ends where no piece begins.
-/

section Passing

variable
    {spot : Spot}
    {stopsAt : List Char → Prop}

/-- Some characters were read over, with no stop before any of them. -/
structure Passes
    (stopsAt : List Char → Prop)
    (spot : Spot)
    (count : Nat)
    (text : List Char)
    (after : Spot) : Prop where
  count_le : count ≤ spot.rest.length
  after_eq : after = spot.drop count
  text_eq : text = spot.rest.take count
  free : ∀ index < count, ¬ stopsAt (spot.rest.drop index)

theorem Passes.zero
    (spot : Spot) :
    Passes stopsAt spot 0 [] spot :=
  ⟨Nat.zero_le _, by simp [Spot.drop], by simp, by simp⟩

theorem Passes.length_eq
    {count : Nat}
    {text : List Char}
    {after : Spot}
    (passes : Passes stopsAt spot count text after) :
    text.length = count := by
  rw [passes.text_eq, List.length_take, Nat.min_eq_left passes.count_le]

/-- What copies each character before which there is no stop copies all that were read. -/
theorem Passes.copied
    {copy : List Char → List Char}
    {count : Nat}
    {text : List Char}
    {after : Spot}
    (passes : Passes stopsAt spot count text after)
    (copies :
      ∀ character rest, ¬ stopsAt (character :: rest) →
        copy (character :: rest) = character :: copy rest) :
    copy spot.rest = text ++ copy after.rest := by
  obtain ⟨count_le, rfl, rfl, free⟩ := passes
  rw [Spot.rest_drop]
  revert count_le free
  generalize spot.rest = unread
  intro count_le free
  induction count generalizing unread with
  | zero =>
      rfl
  | succ count inductionHypothesis =>
      cases unread with
      | nil =>
          cases count_le
      | cons character rest =>
          have notStop : ¬ stopsAt (character :: rest) :=
            free 0 (Nat.succ_pos count)
          have copiedRest :=
            inductionHypothesis rest (Nat.le_of_succ_le_succ count_le)
              fun index before => free (index + 1) (Nat.succ_lt_succ before)
          rw [copies character rest notStop, copiedRest, List.take_succ_cons,
            List.drop_succ_cons, List.cons_append]

end Passing

/-- How one piece of a text is copied. -/
structure Copies
    (copy : List Char → List Char)
    (starts : List Char → Prop)
    (spot : Spot)
    (text : String)
    (after : Spot) : Prop where
  present : starts spot.rest
  shorter : after.rest.length < spot.rest.length
  copied : copy spot.rest = text.toList ++ copy after.rest

/-- How a piece that may be absent is copied. -/
def Step.Copies
    (copy : List Char → List Char)
    (starts : List Char → Prop)
    (spot : Spot) : Step String → Spot → Prop
  | .one text, after => InkSyntax.Copies copy starts spot text after
  | .many _, _ => False
  | .neutral, after => after = spot ∧ ¬ starts spot.rest

/-- How some pieces are copied: none is there yet, or all up to a spot are. -/
def Gathers
    (copy : List Char → List Char)
    (starts : List Char → Prop)
    (spot : Spot)
    (texts : List String)
    (after : Spot) : Prop :=
  if texts = [] then
    after = spot
  else
    Copies copy starts spot (String.join texts) after

section Copying

variable
    {copy : List Char → List Char}
    {starts startsPiece : List Char → Prop}
    {spot middle after : Spot}
    {step : Step String}
    {texts : List String}

theorem Step.Copies.length_le
    (copies : step.Copies copy starts spot after) :
    after.rest.length ≤ spot.rest.length := by
  cases step with
  | one text =>
      exact Nat.le_of_lt copies.shorter
  | many texts =>
      exact copies.elim
  | neutral =>
      exact Nat.le_of_eq (congrArg (·.rest.length) copies.1)

theorem Step.Copies.length_lt
    (copies : step.Copies copy starts spot after)
    (notNeutral : step.isNeutral = false) :
    after.rest.length < spot.rest.length := by
  cases step with
  | one text =>
      exact copies.shorter
  | many texts =>
      exact copies.elim
  | neutral =>
      cases notNeutral

theorem Step.Copies.of_isNeutral
    (copies : step.Copies copy starts spot after)
    (neutral : step.isNeutral = true) :
    after = spot ∧ ¬ starts spot.rest := by
  cases step with
  | one text =>
      cases neutral
  | many texts =>
      cases neutral
  | neutral =>
      exact copies

theorem Gathers.none
    (spot : Spot) :
    Gathers copy starts spot [] spot :=
  rfl

theorem Gathers.add
    (gathers : Gathers copy starts spot texts middle)
    (copies : step.Copies copy startsPiece middle after)
    (isStart : ∀ text, startsPiece text → starts text) :
    Gathers copy starts spot (texts ++ step.values) after := by
  cases step with
  | neutral =>
      obtain ⟨rfl, _⟩ := copies
      simpa [Step.values] using gathers
  | many others =>
      exact copies.elim
  | one text =>
      obtain ⟨present, shorter, copied⟩ := copies
      simp only [Gathers, Step.values, List.append_eq_nil_iff, List.cons_ne_self,
        and_false, ↓reduceIte]
      by_cases nothing : texts = []
      · subst nothing
        obtain rfl : middle = spot := gathers
        exact ⟨isStart _ present, shorter, by simpa using copied⟩
      · obtain ⟨presentBefore, shorterBefore, copiedBefore⟩ :
            InkSyntax.Copies copy starts spot (String.join texts) middle := by
          simpa [Gathers, nothing] using gathers
        refine ⟨presentBefore, Nat.lt_trans shorter shorterBefore, ?_⟩
        simp [copiedBefore, copied, String.toList_join]

end Copying

namespace Rule

variable
    {E : Type → Type 1}
    {H : Type}
    [Host H]
    {α : Type}
    {handle : {γ : Type} → E γ → Action H γ}
    {rule : Rule E α}
    {depth : Nat}
    {spot : Spot}
    {onMatch : α → Spot → Prop}
    {onFailure : Spot → Prop}
    {stopsAt : List Char → Prop}

/-- The first of several rules, given what the others do if it fails. -/
theorem completes_firstOf
    [StandsFor α]
    {others : List (Rule E α)}
    (missing : Prop)
    (completes :
      rule.Completes handle depth spot onMatch fun _ => missing)
    (otherwise :
      missing →
        (oneOf.firstOf others).Completes handle (depth + 1) spot onMatch
          onFailure) :
    (oneOf.firstOf (rule :: others)).Completes handle (depth + 1) spot onMatch
      onFailure := by
  refine completes_bind (completes_attempt (completes_parse ?_))
  refine completes.mono (Nat.le_refl _) ?_ ?_
  · intro value after matched _
    exact completes_pure matched
  · intro after failed _
    exact otherwise failed

theorem completes_optionally
    [StandsFor α]
    {onMatch : Step α → Spot → Prop}
    (completes :
      rule.Completes handle depth spot
        (fun value => onMatch (.one value))
        (fun _ => onMatch .neutral spot)) :
    (Rule.optionally rule).Completes handle (depth + 1) spot onMatch
      onFailure := by
  refine completes_bind (completes_attempt (completes_parse ?_))
  refine completes.mono (Nat.le_refl _) ?_ ?_
  · intro value after matched _
    exact completes_pure matched
  · intro after failed _
    exact completes_pure failed

/-- As many accepted characters as there are. -/
theorem completes_taken
    {accept : Char → Bool} :
    (Rule.attempt (Rule.chars accept)).Completes handle depth spot
      (fun found after =>
        found.elim [] String.toList = spot.rest.takeWhile accept ∧
          after = spot.drop (spot.rest.takeWhile accept).length)
      onFailure := by
  refine completes_attempt (completes_scan ?_)
  unfold Scanner.chars
  cases taken : spot.rest.takeWhile accept with
  | nil =>
      exact ⟨rfl, (spot.drop_zero).symm⟩
  | cons character others =>
      exact ⟨String.toList_ofList, rfl⟩

/-- Reading text goes up to the first stop or to the end; it fails if that is at once. -/
theorem completes_textUntil
    {stop : Rule E α}
    {pauses stops : Char → Bool}
    (endless : ∀ character, stops character = false)
    (stopped :
      ∀ spot,
        stop.Completes handle depth spot (fun _ _ => stopsAt spot.rest)
          (fun _ => ¬ stopsAt spot.rest))
    (atPause :
      ∀ character rest, stopsAt (character :: rest) →
        pauses character = true) :
    (Rule.textUntil stop pauses stops).Completes handle (depth + 2) spot
      (fun text after =>
        (∃ count, 0 < count ∧ Passes stopsAt spot count text.toList after) ∧
          (after.rest = [] ∨ stopsAt after.rest))
      (fun after =>
        after = spot ∧ (spot.rest = [] ∨ stopsAt spot.rest)) := by
  rintro machine rfl room rounds
  have reads :=
    run_completes_textUntil pauses stops (fun cursor => stopsAt cursor.rest) (by omega)
      rounds fun middle proceeds =>
        run_completes_peek_inside proceeds room rounds
          (stopped middle.opened.cursor.spot middle.opened rfl)
  have ends_iff (cursor : Cursor) :
      cursor.EndsText pauses stops (fun cursor => stopsAt cursor.rest) ↔
        cursor.rest = [] ∨ stopsAt cursor.rest := by
    cases follows : cursor.rest with
    | nil =>
        exact iff_of_true (Cursor.endsText_of_atEnd follows) (.inl rfl)
    | cons character rest =>
        have isPause := atPause character rest
        rw [Cursor.endsText_iff follows, follows]
        simp only [endless, reduceCtorEq, or_false, false_or]
        grind
  refine reads.mono ?_ ?_
  · rintro text after ⟨count, some_, endsBehind, taken, moves⟩
    have reached : after.cursor.spot = machine.cursor.spot.drop count := by
      rw [moves.reached, Cursor.spot_advance]
    refine
      ⟨moves.toProceeds,
        ⟨count, some_, endsBehind.within, reached, taken, fun index before isStop => ?_⟩, ?_⟩
    · refine endsBehind.free index before ((ends_iff _).mpr (.inr ?_))
      rw [Cursor.rest_advance]
      exact isStop
    · have ended := (ends_iff _).mp endsBehind.ends
      rw [← moves.reached] at ended
      exact ended
  · rintro after ⟨endsBehind, moves⟩
    refine ⟨moves.toProceeds, ?_, (ends_iff _).mp endsBehind.ends⟩
    rw [moves.reached]
    rfl

theorem completes_piece
    [StandsFor (Step String)]
    {copy : List Char → List Char}
    {starts : List Char → Prop}
    {piece : Rule E (Step String)}
    (reads :
      piece.Completes handle depth spot (Step.Copies copy starts spot)
        fun _ => False) :
    (attempt (parse piece)).Completes handle (depth + 1) spot
      (fun found after =>
        ∃ step, found = some step ∧ step.Copies copy starts spot after)
      onFailure := by
  refine completes_attempt (completes_parse ?_)
  exact
    reads.mono (Nat.le_refl _) (fun step _ copies => ⟨step, rfl, copies⟩)
      fun _ => False.elim

section Alternation

variable
    {copy : List Char → List Char}
    {starts startsOuter startsInner : List Char → Prop}
    {outer inner : Rule E (Step String)}
    (readsOuter :
      ∀ spot,
        outer.Completes handle depth spot (Step.Copies copy startsOuter spot)
          fun _ => False)
    (readsInner :
      ∀ spot,
        inner.Completes handle depth spot (Step.Copies copy startsInner spot)
          fun _ => False)
    (starts_iff : ∀ text, starts text ↔ startsOuter text ∨ startsInner text)
    (notAtEnd : ¬ starts [])

include readsOuter readsInner starts_iff notAtEnd in
theorem completes_alternateRound
    {texts : List String}
    {middle : Spot}
    (gathers : Gathers copy starts spot texts middle) :
    (alternateRound outer inner (fail : Rule E Unit) texts).Completes handle
      (depth + 1) middle
      (fun result after =>
        match result with
        | .inl next =>
            Gathers copy starts spot next after ∧
              after.rest.length < middle.rest.length
        | .inr found =>
            Gathers copy starts spot found after ∧ ¬ starts after.rest)
      onFailure := by
  unfold alternateRound
  refine
    completes_then (fun stops after => stops = false ∧ middle = after)
      (completes_peek (completes_fail ⟨rfl, rfl⟩)) ?_
  rintro _ _ ⟨rfl, rfl⟩ _
  refine completes_then _ (completes_piece (readsInner middle)) ?_
  rintro _ between ⟨main, rfl, copiesMain⟩ _
  refine completes_then _ (completes_piece (readsOuter between)) ?_
  rintro _ after ⟨next, rfl, copiesNext⟩ _
  have gathersAll :
      Gathers copy starts spot (texts ++ main.values ++ next.values) after :=
    (gathers.add copiesMain fun text inner => (starts_iff text).mpr (.inr inner)).add
      copiesNext fun text outer => (starts_iff text).mpr (.inl outer)
  have notLonger := copiesMain.length_le
  have notLongerThen := copiesNext.length_le
  refine completes_bind (completes_atEnd fun _ => ?_)
  by_cases neutral : (main.isNeutral && next.isNeutral) = true
  · -- Neither piece was there, so neither begins here.
    obtain ⟨mainNeutral, nextNeutral⟩ := Bool.and_eq_true_iff.mp neutral
    obtain ⟨rfl, noInner⟩ := copiesMain.of_isNeutral mainNeutral
    obtain ⟨rfl, noOuter⟩ := copiesNext.of_isNeutral nextNeutral
    simp only [neutral, Bool.true_or, ↓reduceIte]
    refine completes_pure ⟨gathersAll, ?_⟩
    rw [starts_iff]
    exact not_or.mpr ⟨noOuter, noInner⟩
  · simp only [neutral, Bool.false_or]
    split
    · next ended =>
        refine completes_pure ⟨gathersAll, ?_⟩
        rw [List.isEmpty_iff.mp ended]
        exact notAtEnd
    · refine completes_pure ⟨gathersAll, ?_⟩
      cases mainNeutral : main.isNeutral with
      | false =>
          exact Nat.lt_of_le_of_lt notLongerThen (copiesMain.length_lt mainNeutral)
      | true =>
          have nextNotNeutral : next.isNeutral = false := by
            simpa [mainNeutral] using neutral
          exact Nat.lt_of_lt_of_le (copiesNext.length_lt nextNotNeutral) notLonger

include readsOuter readsInner starts_iff notAtEnd in
/-- Two kinds of pieces in turn copy all up to where neither begins. -/
theorem completes_alternate :
    (Rule.alternate outer inner).Completes handle (depth + 2) spot
      (fun texts after =>
        Copies copy starts spot (String.join texts) after ∧
          ¬ starts after.rest)
      (fun after => after = spot ∧ ¬ starts spot.rest) := by
  refine completes_parse (completes_bind (completes_parse ?_))
  refine (readsOuter spot).mono (Nat.le_refl _) ?_ fun _ => False.elim
  intro first between copiesFirst _
  have gathersFirst : Gathers copy starts spot first.values between :=
    (Gathers.none spot).add copiesFirst fun text outer =>
      (starts_iff text).mpr (.inl outer)
  refine
    completes_then
      (fun texts after =>
        Gathers copy starts spot texts after ∧ ¬ starts after.rest)
      (completes_loop (Gathers copy starts spot) gathersFirst
        fun texts middle gathers => ?_) ?_
  · refine
      (completes_alternateRound readsOuter readsInner starts_iff notAtEnd
        gathers).mono (Nat.le_refl _) ?_ fun _ => id
    rintro (next | found) after <;> exact id
  rintro texts after ⟨gathers, ended⟩ _
  cases texts with
  | nil =>
      obtain rfl : after = spot := gathers
      exact completes_fail ⟨rfl, ended⟩
  | cons text others =>
      exact completes_pure ⟨gathers, ended⟩

end Alternation

end Rule

end InkSyntax
