import InkSyntax.Machine.Repetition
import InkSyntax.Proofs.Machine.Guarantee
import InkSyntax.Proofs.Machine.ScannedTexts
import Mathlib.Logic.Basic
import Mathlib.Tactic.ByContra

namespace InkSyntax

/-!
# Rules that consume text

Where effects only move on, every rule does.  A rule consumes text under a test if
it has moved on, not just stood still, whenever it matches with a value that passes
the test.  Whether it does can be told from its parts: one part that consumes is
enough in a sequence, and what a repetition gathered tells whether one of its rounds
did.
-/

namespace Cursor

theorem offset_add_length_advance
    (cursor : Cursor)
    (count : Nat) :
    (cursor.advance count).offset + (cursor.advance count).rest.length =
      cursor.offset + cursor.rest.length := by
  induction count generalizing cursor with
  | zero =>
      rfl
  | succ count inductionHypothesis =>
      cases shape : cursor.rest with
      | nil =>
          simp [advance, shape]
      | cons character others =>
          simp only [advance, shape, inductionHypothesis]
          simp only [past]
          split <;> simp <;> omega

/-- What is gone from the text in front is what the offset grew by. -/
theorem Reaches.offset_add_length
    {start later : Cursor}
    (reaches : start.Reaches later) :
    later.offset + later.rest.length = start.offset + start.rest.length := by
  obtain ⟨count, rfl⟩ := reaches
  exact start.offset_add_length_advance count

theorem offset_lt_advance
    {cursor : Cursor}
    {count : Nat}
    (positive : 0 < count)
    (notAtEnd : cursor.rest ≠ []) :
    cursor.offset < (cursor.advance count).offset := by
  have total := cursor.offset_add_length_advance count
  have fewer : (cursor.advance count).rest.length < cursor.rest.length := by
    rw [rest_advance, List.length_drop]
    have := List.length_pos_iff.mpr notAtEnd
    omega
  omega

end Cursor

/-- Whatever a scanner finds is there, and not empty. -/
def Scanner.FindsText
    {α : Type}
    (scanner : Scanner α) : Prop :=
  ∀ rest value length,
    scanner rest = some (value, length) → 0 < length ∧ rest ≠ []

namespace Scanner

variable {α : Type}

theorem Finds.findsText
    {scanner : Scanner α}
    {standsFor : α → List Char → List Char → Prop}
    (finds : scanner.Finds standsFor)
    (nonempty :
      ∀ value matched rest, standsFor value matched rest → matched ≠ []) :
    scanner.FindsText := by
  intro text value length found
  obtain ⟨matched, rest, rfl, rfl, stands⟩ := (finds _ _ _).mp found
  have some_ := nonempty value matched rest stands
  exact ⟨List.length_pos_iff.mpr some_, List.append_ne_nil_of_left_ne_nil some_ rest⟩

theorem findsText_exactly
    {expected : List Char}
    (nonempty : expected ≠ []) :
    (exactly expected).FindsText :=
  (finds_exactly expected).findsText fun _ _ _ matches_ => matches_ ▸ nonempty

theorem findsText_anyChar :
    anyChar.FindsText :=
  finds_anyChar.findsText fun _ _ _ matches_ => matches_ ▸ List.cons_ne_nil _ _

theorem findsText_chars
    (accept : Char → Bool) :
    (chars accept).FindsText :=
  (finds_chars accept).findsText fun _ _ _ isRun => isRun.someCharacter

theorem findsText_lineBreak :
    lineBreak.FindsText := by
  refine finds_lineBreak.findsText ?_
  rintro _ _ _ (rfl | rfl)
  · exact List.cons_ne_nil _ _
  · exact List.cons_ne_nil _ _

end Scanner

namespace Rule

variable
    {E : Type → Type 1}
    {H ι : Type}
    [Host H]
    {α β σ : Type}

/-- Whatever effects do, they stay in their scope and move on. -/
def Forward (handle : ι → {γ : Type} → E γ → Action H γ) : Prop :=
  ∀ (room : ι) {γ : Type} (operation : E γ) (machine : Machine H),
    (handle room operation machine).Ends machine.Proceeds

/-- Matching with a value that passes a test means having consumed text. -/
def ConsumesIf
    (handle : ι → {γ : Type} → E γ → Action H γ)
    (test : α → Prop)
    (rule : Rule E α) : Prop :=
  ∀ (room : ι) (machine : Machine H),
    (rule.run (handle room) machine).Ensures
      (fun value after =>
        test value → machine.cursor.offset < after.cursor.offset)
      fun _ => True

/-- Matching means having consumed text. -/
abbrev Consumes
    (handle : ι → {γ : Type} → E γ → Action H γ)
    (rule : Rule E α) : Prop :=
  rule.ConsumesIf handle fun _ => True

variable {handle : ι → {γ : Type} → E γ → Action H γ}

/-- If effects move on, so does every rule. -/
theorem Forward.ends_proceeds
    (forward : Forward handle)
    (room : ι)
    (rule : Rule E α)
    (machine : Machine H) :
    (rule.run (handle room) machine).Ends machine.Proceeds := by
  induction rule generalizing machine with
  | pure value =>
      exact .refl machine
  | fail =>
      exact .refl machine
  | bind first next firstHypothesis nextHypothesis =>
      refine ensures_bind.mpr ((firstHypothesis machine).mono ?_ fun _ => id)
      intro value middle proceeds
      exact
        (nextHypothesis value middle).mono
          (fun _ _ further => proceeds.trans further)
          fun _ further => proceeds.trans further
  | attempt rule inductionHypothesis =>
      exact ensures_attempt.mpr (inductionHypothesis machine)
  | scope fate rule inductionHypothesis =>
      refine ensures_scope fun _ => ?_
      have undoes
          {after closed : Machine H}
          (proceeds : machine.opened.Proceeds after)
          (cancels : after.cancelScope machine.nextRule = .ok closed) :
          machine.Proceeds closed := by
        obtain ⟨_, cancels', undone⟩ := proceeds.exists_undoes
        cases cancels.symm.trans cancels'
        exact undone.toProceeds
      refine (inductionHypothesis machine.opened).mono ?_ ?_
      · intro value after proceeds closed closes
        cases fated : fate value with
        | keep nodes =>
            rw [fated] at closes
            obtain ⟨_, commits, kept⟩ := proceeds.exists_keeps nodes
            have same :=
              (show after.commitScope machine.nextRule nodes = .ok closed
                from closes).symm.trans commits
            cases same
            exact kept.toProceeds
        | undo =>
            rw [fated] at closes
            exact undoes proceeds closes
      · intro after proceeds closed cancels
        exact undoes proceeds cancels
  | loop state round inductionHypothesis =>
      refine ensures_loop (fun _ => machine.Proceeds) (.refl machine) ?_
      intro state middle proceeds
      refine (inductionHypothesis state middle).mono ?_ ?_
      · rintro (next | value) after further
        · exact proceeds.trans further
        · exact proceeds.trans further
      · intro after further
        exact proceeds.trans further
  | scan scanner =>
      refine ensures_scan.mpr ?_
      split
      · exact .advance machine _
      · exact .refl machine
  | here =>
      exact .refl machine
  | setFlag mask on =>
      exact .setFlag machine mask on
  | report severity line message =>
      exact .report machine severity line message
  | effect operation =>
      exact forward room operation machine

section Sequences

variable
    {test : α → Prop}
    {rule : Rule E α}

theorem ConsumesIf.mono
    {stronger : α → Prop}
    (consumes : rule.ConsumesIf handle test)
    (implies : ∀ value, stronger value → test value) :
    rule.ConsumesIf handle stronger :=
  fun room machine =>
    (consumes room machine).mono
      (fun value _ further passes => further (implies value passes))
      fun _ => id

theorem consumesIf_of_never
    (never : ∀ value, ¬ test value)
    (rule : Rule E α) :
    rule.ConsumesIf handle test :=
  fun _ _ =>
    Outcome.ensures_iff.mpr
      ⟨fun value _ _ passes => absurd passes (never value), fun _ _ => trivial⟩

theorem consumesIf_pure
    {value : α}
    (refuses : ¬ test value) :
    (Pure.pure value : Rule E α).ConsumesIf handle test :=
  fun _ _ passes => absurd passes refuses

theorem consumesIf_fail :
    (fail : Rule E α).ConsumesIf handle test :=
  fun _ _ => trivial

/-- A sequence consumes what its first rule does, or else what follows does. -/
theorem consumesIf_bind
    {test : β → Prop}
    {next : α → Rule E β}
    (forward : Forward handle)
    (decides : α → Prop)
    (first : rule.ConsumesIf handle decides)
    (others :
      ∀ value, ¬ decides value → (next value).ConsumesIf handle test) :
    (rule >>= next).ConsumesIf handle test := by
  intro room machine
  refine ensures_bind.mpr ?_
  have firstEnds := forward.ends_proceeds room rule machine
  refine Outcome.ensures_iff.mpr ⟨fun value middle ran => ?_, fun _ _ => trivial⟩
  rw [ran] at firstEnds
  have reaches := Machine.Proceeds.cursor firstEnds
  have consumed := first room machine
  rw [ran] at consumed
  by_cases decided : decides value
  · have nextEnds := forward.ends_proceeds room (next value) middle
    refine nextEnds.mono (fun _ after proceeds _ => ?_) fun _ _ => trivial
    exact Nat.lt_of_lt_of_le (consumed decided) proceeds.cursor.offset_le
  · refine (others value decided room middle).mono (fun _ after further passes => ?_)
      fun _ => id
    exact Nat.lt_of_le_of_lt reaches.offset_le (further passes)

theorem Consumes.bind
    {test : β → Prop}
    (forward : Forward handle)
    (consumes : rule.Consumes handle)
    (next : α → Rule E β) :
    (rule >>= next).ConsumesIf handle test :=
  consumesIf_bind forward _ consumes fun _ never => absurd trivial never

theorem consumesIf_bind_next
    {test : β → Prop}
    {next : α → Rule E β}
    (forward : Forward handle)
    (rule : Rule E α)
    (consumes : ∀ value, (next value).ConsumesIf handle test) :
    (rule >>= next).ConsumesIf handle test :=
  consumesIf_bind forward (fun _ => False)
    (consumesIf_of_never (fun _ => id) rule) fun value _ => consumes value

theorem ConsumesIf.attempt
    (consumes : rule.ConsumesIf handle test) :
    (Rule.attempt rule).ConsumesIf handle
      fun value => ∃ found, value = some found ∧ test found := by
  intro room machine
  refine ensures_attempt.mpr ((consumes room machine).mono ?_ ?_)
  · rintro value after further ⟨found, same, passes⟩
    cases same
    exact further passes
  · rintro after - ⟨found, same, -⟩
    cases same

/-- A scope that is kept keeps what was consumed in it. -/
theorem ConsumesIf.scope
    {fate : α → Fate}
    (consumes : rule.ConsumesIf handle test) :
    (Rule.scope fate rule).ConsumesIf handle
      fun value => test value ∧ fate value ≠ .undo := by
  intro room machine
  refine ensures_scope fun _ => ?_
  refine (consumes room machine.opened).mono ?_ fun _ _ _ _ => trivial
  rintro value after further closed closes ⟨passes, isKept⟩
  cases fated : fate value with
  | keep nodes =>
      rw [fated] at closes
      obtain ⟨parent, deeper, _, _, rfl⟩ :=
        Machine.commitScope_eq_ok_iff.mp closes
      exact further passes
  | undo =>
      exact absurd fated isKept

theorem ConsumesIf.parse
    [StandsFor α]
    (consumes : rule.ConsumesIf handle test) :
    (Rule.parse rule).ConsumesIf handle test :=
  consumes.scope.mono fun _ passes => ⟨passes, Fate.noConfusion⟩

theorem Consumes.attempt_parse
    [StandsFor α]
    (consumes : rule.Consumes handle) :
    (Rule.attempt (Rule.parse rule)).ConsumesIf handle (·.isSome) := by
  refine (ConsumesIf.attempt consumes.parse).mono fun value isSome => ?_
  obtain ⟨found, rfl⟩ := Option.isSome_iff_exists.mp isSome
  exact ⟨found, rfl, trivial⟩

theorem consumes_scan
    {scanner : Scanner α}
    (finds : scanner.FindsText) :
    (scan scanner : Rule E α).Consumes handle := by
  intro room machine
  refine ensures_scan.mpr ?_
  split
  · next value length found =>
      obtain ⟨positive, notAtEnd⟩ := finds _ _ _ found
      exact fun _ => Cursor.offset_lt_advance positive notAtEnd
  · trivial

theorem consumes_literal
    {expected : String}
    (nonempty : expected ≠ "") :
    (literal expected : Rule E Unit).Consumes handle :=
  consumes_scan
    (Scanner.findsText_exactly fun empty =>
      nonempty (String.toList_eq_nil_iff.mp empty))

theorem consumes_anyChar :
    (anyChar : Rule E Char).Consumes handle :=
  consumes_scan Scanner.findsText_anyChar

theorem consumes_chars
    (accept : Char → Bool) :
    (chars accept : Rule E String).Consumes handle :=
  consumes_scan (Scanner.findsText_chars accept)

theorem consumes_lineBreak :
    (lineBreak : Rule E Unit).Consumes handle :=
  consumes_scan Scanner.findsText_lineBreak

end Sequences

section Choices

variable
    (forward : Forward handle)
    {rule recovery : Rule E α}

include forward

theorem consumes_firstOf
    [StandsFor α]
    {rules : List (Rule E α)}
    (consume : ∀ rule ∈ rules, rule.Consumes handle) :
    (oneOf.firstOf rules).Consumes handle := by
  induction rules with
  | nil =>
      exact consumesIf_fail
  | cons rule others inductionHypothesis =>
      obtain ⟨first, rest⟩ := List.forall_mem_cons.mp consume
      refine consumesIf_bind forward _ first.attempt_parse ?_
      rintro (_ | value) isNone
      · exact inductionHypothesis rest
      · exact absurd rfl isNone

theorem consumes_oneOf
    [StandsFor α]
    {rules : List (Rule E α)}
    (consume : ∀ rule ∈ rules, rule.Consumes handle) :
    (oneOf rules).Consumes handle :=
  (consumes_firstOf forward consume).parse

end Choices

section Repetitions

/-- If a state tells that text was consumed, so does what a repetition ends with. -/
theorem consumesIf_loop
    {state : σ}
    {round : σ → Rule E (σ ⊕ α)}
    {test : α → Prop}
    (forward : Forward handle)
    (evidence : σ → Prop)
    (noneYet : ¬ evidence state)
    (rounds :
      ∀ state, ¬ evidence state →
        (round state).ConsumesIf handle (Sum.elim evidence test)) :
    (loop state round).ConsumesIf handle test := by
  intro room machine
  refine
    ensures_loop
      (fun state middle =>
        machine.Proceeds middle ∧
          (evidence state → machine.cursor.offset < middle.cursor.offset))
      ⟨.refl machine, fun given => absurd given noneYet⟩ ?_
  rintro state middle ⟨proceeds, consumed⟩
  have ends := forward.ends_proceeds room (round state) middle
  have moved := proceeds.cursor.offset_le
  refine Outcome.ensures_iff.mpr ⟨fun result after ran => ?_, fun _ _ => trivial⟩
  rw [ran] at ends
  have further := Machine.Proceeds.cursor ends
  have strictly
      (passes : Sum.elim evidence test result) :
      machine.cursor.offset < after.cursor.offset := by
    by_cases given : evidence state
    · exact Nat.lt_of_lt_of_le (consumed given) further.offset_le
    · have step := rounds state given room middle
      rw [ran] at step
      exact Nat.lt_of_le_of_lt moved (step passes)
  cases result with
  | inl next =>
      exact ⟨proceeds.trans ends, strictly⟩
  | inr value =>
      exact strictly

variable
    (forward : Forward handle)

include forward

theorem consumesIf_zeroOrMore
    [StandsFor α]
    {rule : Rule E α}
    (consumes : rule.Consumes handle) :
    (zeroOrMore rule).ConsumesIf handle (· ≠ []) := by
  refine consumesIf_loop forward (· ≠ []) (not_not_intro rfl) ?_
  intro found isEmpty
  refine consumesIf_bind forward _ consumes.attempt_parse ?_
  rintro (_ | value) isNone
  · refine consumesIf_pure fun nonempty => ?_
    exact nonempty (by simpa using isEmpty)
  · exact absurd rfl isNone

theorem consumes_oneOrMore
    [StandsFor α]
    {rule : Rule E α}
    (consumes : rule.Consumes handle) :
    (oneOrMore rule).Consumes handle := by
  refine consumesIf_bind forward _ (consumesIf_zeroOrMore forward consumes) ?_
  intro found isEmpty
  obtain rfl : found = [] := not_not.mp isEmpty
  exact consumesIf_fail

/-- Pieces in turn consume text if pieces that give values do. -/
theorem consumes_alternateUntil
    [StandsFor (Step α)]
    [StandsFor (List α)]
    {outer inner : Rule E (Step α)}
    (outerConsumes : outer.ConsumesIf handle (·.values ≠ []))
    (innerConsumes : inner.ConsumesIf handle (·.values ≠ []))
    (stop : Rule E β) :
    (alternateUntil outer inner stop).Consumes handle := by
  refine ConsumesIf.parse ?_
  refine consumesIf_bind forward _ outerConsumes.parse ?_
  intro first isEmpty
  refine consumesIf_bind forward (· ≠ []) ?_ ?_
  · refine consumesIf_loop forward (· ≠ []) isEmpty ?_
    intro found noneYet
    obtain rfl : found = [] := not_not.mp noneYet
    refine consumesIf_bind_next forward _ fun stops => ?_
    split
    · exact consumesIf_pure (not_not_intro rfl)
    · refine
        consumesIf_bind forward _ (ConsumesIf.attempt innerConsumes.parse) ?_
      rintro (_ | main) neutralMain
      · exact consumesIf_pure (not_not_intro rfl)
      · have mainEmpty : main.values = [] := by
          by_contra nonempty
          exact neutralMain ⟨main, rfl, nonempty⟩
        refine
          consumesIf_bind forward _ (ConsumesIf.attempt outerConsumes.parse) ?_
        rintro (_ | next) neutralNext
        · refine consumesIf_pure fun nonempty => ?_
          exact nonempty (by simp [mainEmpty])
        · have nextEmpty : next.values = [] := by
            by_contra nonempty
            exact neutralNext ⟨next, rfl, nonempty⟩
          refine consumesIf_bind_next forward _ fun isEnd => ?_
          split
          · refine consumesIf_pure fun nonempty => ?_
            exact nonempty (by simp [mainEmpty, nextEmpty])
          · refine consumesIf_pure fun nonempty => ?_
            exact nonempty (by simp [mainEmpty, nextEmpty])
  · intro found isEmpty
    obtain rfl : found = [] := not_not.mp isEmpty
    exact consumesIf_fail

theorem consumes_textUntil
    (stop : Rule E α)
    (pauses stops : Char → Bool) :
    (textUntil stop pauses stops).Consumes handle := by
  refine ConsumesIf.parse ?_
  refine consumesIf_bind forward (· ≠ []) ?_ ?_
  · refine consumesIf_loop forward (· ≠ []) (not_not_intro rfl) ?_
    intro parts noneYet
    obtain rfl : parts = [] := not_not.mp noneYet
    refine
      consumesIf_bind forward _ (ConsumesIf.attempt (consumes_chars _)) ?_
    rintro (_ | part) isNone
    · refine consumesIf_bind_next forward _ fun stopsHere => ?_
      split
      · exact consumesIf_pure (not_not_intro rfl)
      · refine consumesIf_bind_next forward _ fun checkpoint => ?_
        split
        · exact consumesIf_pure (not_not_intro rfl)
        · split
          · exact Consumes.bind forward consumes_anyChar _
          · exact consumesIf_pure (not_not_intro rfl)
    · exact absurd ⟨part, rfl, trivial⟩ isNone
  · intro text isEmpty
    obtain rfl : text = [] := not_not.mp isEmpty
    exact consumesIf_fail

end Repetitions

end Rule

end InkSyntax
