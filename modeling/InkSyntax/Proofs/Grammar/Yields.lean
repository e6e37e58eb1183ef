import InkSyntax.Grammar.Flow
import InkSyntax.Grammar.Inclusion
import InkSyntax.Grammar.Workshop
import InkSyntax.Proofs.Machine.Outcome
import InkSyntax.Proofs.Machine.ScannedTexts
import InkSyntax.Proofs.Text.Unbroken

namespace InkSyntax

/-!
# What rules yield

Some properties of the value of a rule hold wherever it is read, and whatever the
operations do that it performs.  Names, in particular, never reach into the next line.
-/

namespace Rule

variable
    {α β : Type}
    {rule : GrammarRule α}

/-- A rule only gives values of which something holds. -/
def Yields
    (rule : GrammarRule α)
    (holds : α → Prop) : Prop :=
  ∀ (handle : {γ : Type} → Craft γ → Action Workshop γ)
    (machine : Machine Workshop),
    (rule.run handle machine).Ensures (fun value _ => holds value)
      fun _ => True

theorem yields_true :
    rule.Yields fun _ => True := by
  intro handle machine
  cases rule.run handle machine <;> trivial

variable
    {first : GrammarRule α}
    {next : α → GrammarRule β}
    {mid holds : α → Prop}

theorem Yields.pure
    {value : α}
    (held : holds value) :
    (Pure.pure value : GrammarRule α).Yields holds :=
  fun _ _ => held

theorem Yields.fail :
    (Rule.fail : GrammarRule α).Yields holds :=
  fun _ _ => trivial

theorem Yields.bind
    {holds : β → Prop}
    (yields : first.Yields mid)
    (then_ : ∀ value, mid value → (next value).Yields holds) :
    (first >>= next).Yields holds := by
  intro handle machine
  refine ensures_bind.mpr ((yields handle machine).mono ?_ fun _ _ => trivial)
  exact fun value after held => then_ value held handle after

/-- Whatever is done before, what comes in the end has its value. -/
theorem Yields.behind
    {holds : β → Prop}
    (then_ : ∀ value, (next value).Yields holds) :
    (first >>= next).Yields holds :=
  .bind yields_true fun value _ => then_ value

theorem Yields.attempt
    (yields : rule.Yields holds) :
    (Rule.attempt rule).Yields fun found => ∀ value ∈ found, holds value := by
  intro handle machine
  refine ensures_attempt.mpr ((yields handle machine).mono ?_ ?_)
  · rintro value after held _ ⟨⟩
    exact held
  · rintro after - _ ⟨⟩

theorem Yields.scope
    (fate : α → Fate)
    (yields : rule.Yields holds) :
    (Rule.scope fate rule).Yields holds := by
  intro handle machine
  refine ensures_scope fun _ => ?_
  exact
    (yields handle machine.opened).mono (fun _ _ held _ _ => held)
      fun _ _ _ _ => trivial

theorem Yields.parse
    [StandsFor α]
    (yields : rule.Yields holds) :
    (Rule.parse rule).Yields holds :=
  yields.scope _

theorem Yields.expect
    [StandsFor α]
    (yields : rule.Yields holds)
    (description : String) :
    (Rule.expect rule description).Yields holds := by
  refine .bind yields.parse.attempt fun found held => ?_
  cases found with
  | none =>
      exact .behind fun _ => .fail
  | some value =>
      exact .pure (held value rfl)

theorem Yields.ite
    {condition : Prop}
    [Decidable condition]
    {first second : GrammarRule α}
    (yields : condition → first.Yields holds)
    (otherwise : ¬ condition → second.Yields holds) :
    (if condition then first else second).Yields holds := by
  split
  · next isTrue => exact yields isTrue
  · next isFalse => exact otherwise isFalse

/-- What every round keeps, and turns into what is wanted in the end. -/
theorem Yields.loop
    {round : α → GrammarRule (α ⊕ β)}
    {holds : β → Prop}
    {state : α}
    (kept : α → Prop)
    (atStart : kept state)
    (yields : ∀ state, kept state → (round state).Yields (Sum.elim kept holds)) :
    (Rule.loop state round).Yields holds := by
  intro handle machine
  refine ensures_loop (fun state _ => kept state) atStart ?_
  intro state before held
  refine (yields state held handle before).mono ?_ fun _ _ => trivial
  rintro (next | value) after result
  · exact result
  · exact result

/-- What is accepted of each character holds of all that are found. -/
theorem yields_chars
    (accept : Char → Bool) :
    (Rule.chars accept : GrammarRule String).Yields fun word =>
      ∀ character ∈ word.toList, accept character = true := by
  intro handle machine
  refine ensures_scan.mpr ?_
  split
  next value length found =>
    obtain ⟨matched, rest, -, -, isRun⟩ := (Scanner.finds_chars accept _ _ _).mp found
    rw [← isRun.text]
    exact List.all_eq_true.mp isRun.accepted
  next =>
    trivial

/-- A required test holds of what comes after it. -/
theorem yields_require
    (test : Bool) :
    (Rule.require test : GrammarRule Unit).Yields fun _ => test = true := by
  cases test with
  | false =>
      exact .fail
  | true =>
      exact .pure rfl

theorem yields_alternateUntil
    [StandsFor (Step α)]
    [StandsFor (List α)]
    (outer inner : GrammarRule (Step α))
    (stop : GrammarRule β) :
    (alternateUntil outer inner stop).Yields (· ≠ []) := by
  refine .parse (.behind fun first => .behind fun found => ?_)
  cases found with
  | nil =>
      exact .fail
  | cons value others =>
      exact .pure (by simp)

theorem yields_alternate
    [StandsFor (Step α)]
    [StandsFor (List α)]
    (outer inner : GrammarRule (Step α)) :
    (alternate outer inner).Yields (· ≠ []) :=
  yields_alternateUntil outer inner Rule.fail

/-- What holds of all that the pieces contribute holds of all that is found. -/
theorem Yields.alternate
    {outer inner : GrammarRule (Step α)}
    [StandsFor (Step α)]
    [StandsFor (List α)]
    (outerYields : outer.Yields fun step => ∀ value ∈ step.values, holds value)
    (innerYields : inner.Yields fun step => ∀ value ∈ step.values, holds value) :
    (Rule.alternate outer inner).Yields fun found => ∀ value ∈ found, holds value := by
  have rounds
      (first : List α)
      (areFirst : ∀ value ∈ first, holds value) :
      (Rule.loop first (alternateRound outer inner (Rule.fail : GrammarRule Unit))).Yields
        fun found => ∀ value ∈ found, holds value := by
    refine .loop (fun found => ∀ value ∈ found, holds value) areFirst ?_
    intro found areFound
    refine .behind fun stops => .ite (fun _ => .pure areFound) fun _ => ?_
    refine .bind innerYields.parse.attempt fun main areMain => ?_
    cases main with
    | none =>
        exact .pure areFound
    | some main =>
        have both := List.forall_mem_append.mpr ⟨areFound, areMain main rfl⟩
        refine .bind outerYields.parse.attempt fun next areNext => ?_
        cases next with
        | none =>
            exact .pure both
        | some next =>
            have all := List.forall_mem_append.mpr ⟨both, areNext next rfl⟩
            refine .behind fun isEnd => ?_
            split
            · exact .pure all
            · exact .pure all
  refine .parse (.bind outerYields.parse fun first areFirst => ?_)
  exact
    .bind (rounds first.values areFirst) fun found areFound =>
      .ite (fun _ => .fail) fun _ => .pure areFound

theorem yields_oneOrMore
    [StandsFor α]
    (rule : GrammarRule α) :
    (oneOrMore rule).Yields (· ≠ []) := by
  refine .behind fun found => ?_
  cases found with
  | nil =>
      exact .fail
  | cons value others =>
      exact .pure (by simp)

end Rule

namespace Grammar

theorem isIdentifierChar_ne_lineFeed
    {character : Char}
    (letter : isIdentifierChar character = true) :
    character ≠ '\n' := by
  rintro rfl
  exact absurd letter (by decide)

/-- Names end at the end of their line, if not before. -/
theorem yields_name :
    name.Yields Unbroken := by
  refine .parse (.bind (Rule.yields_chars _) fun word letters => .behind fun _ => .pure ?_)
  exact fun member => isIdentifierChar_ne_lineFeed (letters _ member) rfl

theorem yields_restOfLine :
    restOfLine.Yields Unbroken := by
  intro handle machine
  refine (Rule.yields_chars _ handle machine).mono ?_ fun _ _ => trivial
  intro line _ within member
  have accepted := within '\n' member
  simp at accepted

theorem unbroken_trimEnd
    {text : String}
    (unbroken : Unbroken text) :
    Unbroken (trimEnd text) := by
  rw [trimEnd, dropEndWhile, unbroken_ofList]
  intro member
  have kept := List.dropWhile_subset _ (List.mem_reverse.mp member)
  exact unbroken (List.mem_reverse.mp kept)

theorem unbroken_getD
    {found : Option String}
    (unbroken : ∀ word ∈ found, Unbroken word) :
    Unbroken (found.getD "") := by
  cases found with
  | none => exact unbroken_empty
  | some word => exact unbroken word rfl

/-- The name of a parameter is read like any other; one without its name has none. -/
theorem yields_parameter :
    parameter.Yields fun found => Unbroken found.name := by
  refine .bind yields_name.attempt fun first isFirst => .behind fun _ => ?_
  refine .behind fun isDivertTarget => .behind fun _ => ?_
  refine .bind yields_name.attempt fun second isSecond => ?_
  have unbroken : Unbroken ((chosenName first isDivertTarget second).getD "") := by
    unfold chosenName
    split
    · exact unbroken_getD isSecond
    · exact unbroken_getD isFirst
  have named :
      (Pure.pure ⟨(chosenName first isDivertTarget second).getD "",
          first == some "ref", isDivertTarget⟩ : GrammarRule Parameter).Yields
        fun found => Unbroken found.name :=
    .pure unbroken
  refine .ite (fun _ => .fail) fun _ => .ite (fun _ => ?_) fun _ => named
  exact .ite (fun _ => .behind fun _ => named) fun _ => .behind fun _ => named

theorem yields_parameters :
    parameters.Yields fun found => ∀ parameter ∈ found, Unbroken parameter.name := by
  have spaced :
      (Rule.single (spaced parameter)).Yields
        fun step => ∀ parameter ∈ step.values, Unbroken parameter.name := by
    have one :
        (spaced parameter).Yields fun found => Unbroken found.name :=
      .behind fun _ => .bind yields_parameter.parse fun found unbroken =>
        .behind fun _ => .pure unbroken
    exact .bind one.parse fun found unbroken => .pure (by simpa [Step.values] using unbroken)
  have comma :
      (Rule.dropped (Rule.literal ",") : GrammarRule (Step Parameter)).Yields
        fun step => ∀ parameter ∈ step.values, Unbroken parameter.name :=
    .behind fun _ => .pure (by simp [Step.values])
  refine .behind fun _ => .bind (Rule.Yields.alternate spaced comma).attempt ?_
  intro found areFound
  refine .behind fun _ => .pure ?_
  cases found with
  | none => simp
  | some found => exact areFound found rfl

/-- The parameters in a header have names without line feeds. -/
def FlowHeader.IsUnbroken (header : FlowHeader) : Prop :=
  ∀ parameter ∈ header.parameters, Unbroken parameter.name

theorem yields_optionalParameters :
    optionalParameters.Yields fun found => ∀ parameter ∈ found, Unbroken parameter.name := by
  refine .behind fun _ => .bind yields_parameters.parse.attempt fun found unbroken => ?_
  refine .behind fun _ => .pure ?_
  cases found with
  | none => exact nofun
  | some found => exact unbroken found rfl

theorem yields_knotHeader :
    knotHeader.Yields FlowHeader.IsUnbroken :=
  .behind fun _ => .behind fun _ => .behind fun _ => .behind fun _ => .behind fun _ =>
    .bind yields_optionalParameters fun _ unbroken => .behind fun _ => .pure unbroken

theorem yields_stitchHeader :
    stitchHeader.Yields FlowHeader.IsUnbroken :=
  .behind fun _ => .behind fun _ => .behind fun _ => .ite (fun _ => .fail) fun _ =>
    .behind fun _ => .behind fun _ => .behind fun _ =>
      .bind yields_optionalParameters fun _ unbroken => .pure unbroken

end Grammar

end InkSyntax
