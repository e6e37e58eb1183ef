import InkSyntax.Proofs.Grammar.Operations
import InkSyntax.Proofs.Machine.Consumption
import InkSyntax.Proofs.Reading.Site

namespace InkSyntax

/-!
# Rules of the grammar that consume text

What the grammar repeats begins with a character that has to be there: a mark, a
word or some text.  Such rules, and those that begin with them, consume text
whenever they match.  Prose does so too, although all its parts are optional,
because it fails where it has none.
-/

open Rule (Forward ConsumesIf Consumes consumesIf_bind consumesIf_bind_next
  consumesIf_pure consumesIf_fail consumes_literal consumes_chars)

namespace Reading

variable
    (library : Library)
    (maxDepth : Nat)

/-- What operations do in a reading, by how deep files and constructs may nest. -/
abbrev acts
    (room : Nat × Nat)
    {α : Type} : Craft α → Action Workshop α :=
  performs library maxDepth room.1 room.2

/-- Operations stay in their scope and move on. -/
theorem forward_acts :
    Forward (acts library maxDepth) := by
  rintro ⟨files, levels⟩
  change
    ∀ {γ : Type} (operation : Craft γ) (machine : Machine Workshop),
      (performs library maxDepth files levels operation machine).Ends
        machine.Proceeds
  have includes
      (name : String)
      (machine : Machine Workshop) :
      (inclusions library maxDepth files name machine).Ends
        machine.Proceeds := by
    simp only [inclusions, includeFile]
    split
    · exact .refl machine
    · split
      · exact .work machine _
      · split
        · trivial
        · exact .work machine _
  have ends
      {levels : Nat}
      (nested :
        ∀ {γ : Type} (construct : Construct γ) (machine : Machine Workshop),
          (Workshop.readWithin maxDepth (inclusions library maxDepth files)
            levels construct machine).Ends machine.Proceeds)
      {γ : Type}
      (operation : Craft γ)
      (machine : Machine Workshop) :
      (performs library maxDepth files levels operation machine).Ends
        machine.Proceeds := by
    refine
      Workshop.handle_cases
        (motive := fun outcome => outcome.Ends machine.Proceeds)
        ?_ (fun name => includes name machine)
        (fun construct => nested construct machine) operation
    intro β outcome works
    exact works.ensures fun _ host _ => .work machine host
  apply ends
  induction levels with
  | zero =>
      intro γ construct machine
      trivial
  | succ levels inductionHypothesis =>
      intro γ construct machine
      have forward :
          Forward fun (_ : Unit) =>
            @performs library maxDepth files levels :=
        fun _ => ends inductionHypothesis
      exact forward.ends_proceeds () (Grammar.rule construct) machine

/-- Running the rule of a site stays in its scope and moves on. -/
theorem Site.ends_proceeds
    (site : Site) :
    (site.outcome library maxDepth).Ends site.machine.Proceeds :=
  (forward_acts library maxDepth).ends_proceeds (site.files, site.levels)
    site.rule site.machine

variable {library maxDepth} in
theorem Site.proceeds_of_matched
    {files levels : Nat}
    {α : Type}
    {rule : GrammarRule α}
    {machine after : Machine Workshop}
    {value : α}
    (matched :
      Site.outcome library maxDepth ⟨files, levels, rule, machine⟩ =
        .matched value after) :
    machine.Proceeds after :=
  Outcome.ends_iff.mp (Site.ends_proceeds library maxDepth _) after
    (congrArg Outcome.after? matched)

end Reading

open Reading (acts forward_acts)

namespace Grammar

variable
    {library : Library}
    {maxDepth : Nat}
    {α β : Type}

section Pieces

theorem consumes_single
    [StandsFor α]
    {rule : GrammarRule α}
    (consumes : rule.Consumes (acts library maxDepth)) :
    (Rule.single rule).Consumes (acts library maxDepth) :=
  Consumes.bind (forward_acts library maxDepth) consumes.parse _

theorem consumes_dropped
    [StandsFor β]
    {rule : GrammarRule β}
    (consumes : rule.Consumes (acts library maxDepth)) :
    (Rule.dropped rule : GrammarRule (Step α)).Consumes
      (acts library maxDepth) :=
  Consumes.bind (forward_acts library maxDepth) consumes.parse _

/-- A piece that is dropped gives no values. -/
theorem consumesIf_values_dropped
    [StandsFor β]
    (rule : GrammarRule β) :
    (Rule.dropped rule : GrammarRule (Step α)).ConsumesIf
      (acts library maxDepth) (·.values ≠ []) :=
  consumesIf_bind_next (forward_acts library maxDepth) _ fun _ =>
    consumesIf_pure (not_not_intro rfl)

theorem consumesIf_values_optionallyDropped
    [StandsFor β]
    (rule : GrammarRule β) :
    (Rule.optionallyDropped rule : GrammarRule (Step α)).ConsumesIf
      (acts library maxDepth) (·.values ≠ []) :=
  consumesIf_bind_next (forward_acts library maxDepth) _ fun _ =>
    consumesIf_pure (not_not_intro rfl)

/-- A piece that need not be there is neutral unless it consumes. -/
theorem consumesIf_optionally
    [StandsFor α]
    {rule : GrammarRule α}
    (consumes : rule.Consumes (acts library maxDepth)) :
    (Rule.optionally rule).ConsumesIf (acts library maxDepth)
      (·.isNeutral = false) := by
  refine
    consumesIf_bind (forward_acts library maxDepth) _ consumes.attempt_parse ?_
  rintro (_ | value) isNone
  · exact consumesIf_pure Bool.noConfusion
  · exact absurd rfl isNone

theorem isNeutral_of_values
    {piece : Step α}
    (values : piece.values ≠ []) :
    piece.isNeutral = false := by
  cases piece with
  | neutral =>
      exact absurd rfl values
  | _ =>
      rfl

end Pieces

section Lexemes

theorem consumes_blanks :
    blanks.Consumes (acts library maxDepth) :=
  Consumes.bind (forward_acts _ _) (consumes_chars _) _

theorem consumesIf_optionalLiteral
    {expected : String}
    (nonempty : expected ≠ "") :
    (optionalLiteral expected).ConsumesIf (acts library maxDepth)
      (· = true) := by
  refine
    consumesIf_bind (forward_acts _ _) _
      (ConsumesIf.attempt (consumes_literal nonempty)) ?_
  rintro (_ | found) isNone
  · exact consumesIf_pure Bool.false_ne_true
  · exact absurd ⟨found, rfl, trivial⟩ isNone

theorem consumes_spaced
    [StandsFor α]
    {rule : GrammarRule α}
    (consumes : rule.Consumes (acts library maxDepth)) :
    (spaced rule).Consumes (acts library maxDepth) :=
  consumesIf_bind_next (forward_acts _ _) _ fun _ =>
    Consumes.bind (forward_acts _ _) consumes.parse _

theorem consumes_lineEnd :
    lineEnd.Consumes (acts library maxDepth) :=
  consumesIf_bind_next (forward_acts _ _) _ fun _ => Rule.consumes_lineBreak

theorem consumes_blankLines :
    blankLines.Consumes (acts library maxDepth) :=
  Consumes.bind (forward_acts _ _)
    (Rule.consumes_oneOrMore (forward_acts _ _) consumes_lineEnd) _

theorem consumes_wholeLine
    [StandsFor α]
    {rule : GrammarRule α}
    (consumes : rule.Consumes (acts library maxDepth)) :
    (wholeLine rule).Consumes (acts library maxDepth) :=
  Consumes.bind (forward_acts _ _) consumes.parse _

theorem consumes_name :
    name.Consumes (acts library maxDepth) :=
  ConsumesIf.parse (Consumes.bind (forward_acts _ _) (consumes_chars _) _)

theorem consumes_identifier :
    identifier.Consumes (acts library maxDepth) :=
  ConsumesIf.parse (Consumes.bind (forward_acts _ _) consumes_name _)

theorem consumes_keyword
    (word : String) :
    (keyword word).Consumes (acts library maxDepth) :=
  ConsumesIf.parse (Consumes.bind (forward_acts _ _) consumes_name _)

theorem consumes_dash :
    dash.Consumes (acts library maxDepth) := by
  refine ConsumesIf.parse ?_
  refine consumesIf_bind_next (forward_acts _ _) _ fun isArrow => ?_
  split
  · exact consumesIf_fail
  · exact Consumes.bind (forward_acts _ _) Rule.consumes_anyChar _

theorem consumes_dashes :
    dashes.Consumes (acts library maxDepth) := by
  refine consumesIf_bind_next (forward_acts _ _) _ fun _ => ?_
  refine consumesIf_bind (forward_acts _ _) (· ≠ 0) ?_ ?_
  · refine
      Rule.consumesIf_loop (forward_acts _ _) (· ≠ 0) (not_not_intro rfl) ?_
    intro count isZero
    refine
      consumesIf_bind (forward_acts _ _) _ (ConsumesIf.attempt consumes_dash) ?_
    rintro (_ | found) isNone
    · exact consumesIf_pure isZero
    · exact absurd ⟨found, rfl, trivial⟩ isNone
  · intro count isZero
    obtain rfl : count = 0 := not_not.mp isZero
    exact Consumes.bind (forward_acts _ _) consumesIf_fail _

end Lexemes

section Diverts

theorem consumes_arrow :
    arrow.Consumes (acts library maxDepth) := by
  refine consumesIf_bind (forward_acts _ _) (· ≠ 0) ?_ ?_
  · refine
      Rule.consumesIf_loop (forward_acts _ _) (· ≠ 0) (not_not_intro rfl) ?_
    intro count isZero
    refine
      consumesIf_bind (forward_acts _ _) _
        (consumesIf_optionalLiteral (by decide)) ?_
    intro found notFound
    rw [if_neg notFound]
    exact consumesIf_pure isZero
  · intro count isZero
    obtain rfl : count = 0 := not_not.mp isZero
    exact consumesIf_fail

theorem consumes_targetPath :
    targetPath.Consumes (acts library maxDepth) :=
  Rule.consumes_alternateUntil (forward_acts _ _)
    ((consumes_single (consumes_spaced consumes_identifier)).mono
      fun _ _ => trivial)
    (consumesIf_values_dropped _) _

theorem consumes_target :
    target.Consumes (acts library maxDepth) :=
  consumesIf_bind_next (forward_acts _ _) _ fun _ =>
    Consumes.bind (forward_acts _ _) consumes_targetPath.parse _

theorem consumes_thread :
    thread.Consumes (acts library maxDepth) :=
  consumesIf_bind_next (forward_acts _ _) _ fun _ =>
    Consumes.bind (forward_acts _ _) (consumes_literal (by decide)) _

theorem consumes_diverts :
    diverts.Consumes (acts library maxDepth) := by
  refine consumesIf_bind_next (forward_acts _ _) _ fun _ => ?_
  refine consumesIf_bind (forward_acts _ _) _ consumes_thread.attempt_parse ?_
  rintro (_ | divert) isNone
  · refine Consumes.bind (forward_acts _ _) ?_ _
    exact
      Rule.consumes_alternateUntil (forward_acts _ _)
        (Consumes.bind (forward_acts _ _) consumes_arrow _)
        (Consumes.bind (forward_acts _ _) consumes_target.parse _) _
  · exact absurd rfl isNone

end Diverts

section Expressions

theorem consumes_infixOperator :
    infixOperator.Consumes (acts library maxDepth) := by
  refine consumesIf_bind_next (forward_acts _ _) _ fun isArrow => ?_
  refine consumesIf_bind_next (forward_acts _ _) _ fun _ => ?_
  refine Rule.consumes_firstOf (forward_acts _ _) ?_
  intro rule member
  obtain ⟨candidate, listed, rfl⟩ := List.mem_map.mp member
  have spelled : ∀ candidate ∈ infixes, candidate.spelling ≠ "" := by
    decide
  exact
    Consumes.bind (forward_acts _ _)
      (consumes_literal (spelled candidate listed)) _

/-- An expression grows only by an operator. -/
theorem consumesIf_extend
    (weakerThan : Nat)
    (left : NodeId) :
    (extend weakerThan left).ConsumesIf (acts library maxDepth)
      fun extension => ∃ whole, extension = .grown whole := by
  refine ConsumesIf.mono (ConsumesIf.scope ?_) fun extension isGrown =>
    ⟨isGrown, ?_⟩
  · refine
      consumesIf_bind (forward_acts _ _) _
        (ConsumesIf.attempt consumes_infixOperator) ?_
    rintro (_ | operator) isNone
    · exact consumesIf_pure fun ⟨whole, isGrown⟩ => Extension.noConfusion isGrown
    · exact absurd ⟨operator, rfl, trivial⟩ isNone
  · obtain ⟨whole, rfl⟩ := isGrown
    exact Fate.noConfusion

end Expressions

section Prose

theorem consumes_plainText :
    plainText.Consumes (acts library maxDepth) :=
  consumesIf_bind_next (forward_acts _ _) _ fun _ =>
    consumesIf_bind_next (forward_acts _ _) _ fun _ =>
      Rule.consumes_textUntil (forward_acts _ _) _ _ _

theorem consumes_text :
    text.Consumes (acts library maxDepth) := by
  refine consumesIf_bind (forward_acts _ _) (·.isSome = true) ?_ ?_
  · refine
      Rule.consumesIf_loop (forward_acts _ _) (·.isSome = true)
        Bool.false_ne_true ?_
    intro found notFound
    refine
      consumesIf_bind (forward_acts _ _) _ consumes_plainText.attempt_parse ?_
    rintro (_ | chunk) isNone
    · refine
        consumesIf_bind (forward_acts _ _) _
          (consumesIf_optionalLiteral (by decide)) ?_
      rintro (_ | _) shields
      · exact consumesIf_pure notFound
      · exact absurd rfl shields
    · exact absurd rfl isNone
  · rintro (_ | written) notFound
    · exact consumesIf_fail
    · exact absurd rfl notFound

theorem consumes_glue :
    glue.Consumes (acts library maxDepth) :=
  Consumes.bind (forward_acts _ _) (consumes_literal (by decide)) _

theorem consumes_openTag :
    openTag.Consumes (acts library maxDepth) :=
  consumesIf_bind_next (forward_acts _ _) _ fun _ =>
    Consumes.bind (forward_acts _ _) (consumes_literal (by decide)) _

theorem consumes_braces :
    braces.Consumes (acts library maxDepth) :=
  Consumes.bind (forward_acts _ _) (consumes_literal (by decide)) _

/-- What stands between texts in prose. -/
theorem consumes_proseItem :
    (Rule.oneOf [braces, glue, openTag]).Consumes (acts library maxDepth) := by
  refine Rule.consumes_oneOf (forward_acts _ _) ?_
  simp [consumes_braces, consumes_glue, consumes_openTag]

theorem consumesIf_proseEnding :
    proseEnding.ConsumesIf (acts library maxDepth) (·.isSome = true) := by
  refine consumesIf_bind_next (forward_acts _ _) _ fun isInChoice => ?_
  split
  · exact consumesIf_pure Bool.false_ne_true
  · exact consumes_diverts.attempt_parse

theorem consumes_mixedProse :
    mixedProse.Consumes (acts library maxDepth) := by
  have pieces :
      (Rule.alternate (Rule.optionally text)
          (Rule.optionally (Rule.oneOf [braces, glue, openTag]))).Consumes
        (acts library maxDepth) :=
    Rule.consumes_alternateUntil (forward_acts _ _)
      ((consumesIf_optionally consumes_text).mono fun _ => isNeutral_of_values)
      ((consumesIf_optionally consumes_proseItem).mono
        fun _ => isNeutral_of_values)
      _
  refine consumesIf_bind (forward_acts _ _) _ (ConsumesIf.attempt pieces) ?_
  rintro (_ | items) isNone
  · refine consumesIf_bind (forward_acts _ _) _ consumesIf_proseEnding ?_
    rintro (_ | ending) noEnding
    · exact consumesIf_fail
    · exact absurd rfl noEnding
  · exact absurd ⟨items, rfl, trivial⟩ isNone

/-- The construct of prose is read by its rule. -/
theorem consumes_prose :
    prose.Consumes (acts library maxDepth) := by
  rintro ⟨files, _ | levels⟩ machine
  · trivial
  · exact consumes_mixedProse (files, levels) machine

theorem consumes_proseLine :
    proseLine.Consumes (acts library maxDepth) :=
  consumesIf_bind_next (forward_acts _ _) _ fun _ =>
    Consumes.bind (forward_acts _ _) consumes_prose.parse _

end Prose

section Braces

theorem consumes_dashedAlternative :
    dashedAlternative.Consumes (acts library maxDepth) := by
  refine consumesIf_bind_next (forward_acts _ _) _ fun _ => ?_
  refine consumesIf_bind_next (forward_acts _ _) _ fun isArrow => ?_
  split
  · exact consumesIf_fail
  · exact Consumes.bind (forward_acts _ _) (consumes_literal (by decide)) _

theorem consumes_dashedBranch :
    dashedBranch.Consumes (acts library maxDepth) := by
  refine consumesIf_bind_next (forward_acts _ _) _ fun _ => ?_
  refine consumesIf_bind_next (forward_acts _ _) _ fun isArrow => ?_
  split
  · exact consumesIf_fail
  · exact Consumes.bind (forward_acts _ _) (consumes_literal (by decide)) _

end Braces

section Choices

theorem consumes_bullets
    {bullet : String}
    (nonempty : bullet ≠ "") :
    (bullets bullet).Consumes (acts library maxDepth) :=
  Consumes.bind (forward_acts _ _)
    (Rule.consumes_alternateUntil (forward_acts _ _)
      (consumesIf_values_optionallyDropped _)
      ((consumes_single (consumes_literal nonempty)).mono fun _ _ => trivial) _)
    _

theorem consumes_choiceMark :
    choiceMark.Consumes (acts library maxDepth) := by
  refine
    consumesIf_bind (forward_acts _ _) _
      (ConsumesIf.attempt (consumes_bullets (by decide))) ?_
  rintro (_ | depth) isNone
  · exact Consumes.bind (forward_acts _ _) (consumes_bullets (by decide)) _
  · exact absurd ⟨depth, rfl, trivial⟩ isNone

theorem consumes_guardCondition :
    guardCondition.Consumes (acts library maxDepth) :=
  Consumes.bind (forward_acts _ _) (consumes_literal (by decide)) _

theorem consumes_choiceHead :
    choiceHead.Consumes (acts library maxDepth) :=
  Consumes.bind (forward_acts _ _) consumes_choiceMark _

theorem consumes_choice :
    choice.Consumes (acts library maxDepth) :=
  Consumes.bind (forward_acts _ _) consumes_choiceHead _

theorem consumes_gather :
    gather.Consumes (acts library maxDepth) :=
  Consumes.bind (forward_acts _ _) consumes_dashes.parse _

end Choices

section Lines

theorem consumes_declarationWord
    (word : String) :
    (declarationWord word).Consumes (acts library maxDepth) :=
  consumesIf_bind_next (forward_acts _ _) _ fun _ =>
    Consumes.bind (forward_acts _ _) (consumes_keyword word) _

theorem consumes_elementSeparator :
    elementSeparator.Consumes (acts library maxDepth) :=
  consumesIf_bind_next (forward_acts _ _) _ fun _ =>
    Consumes.bind (forward_acts _ _) (consumes_literal (by decide)) _

theorem consumes_declaration
    (word : String)
    (next : Unit → GrammarRule α) :
    (declarationWord word >>= next).Consumes (acts library maxDepth) :=
  Consumes.bind (forward_acts _ _) (consumes_declarationWord word) _

theorem consumes_inclusion :
    inclusion.Consumes (acts library maxDepth) :=
  consumesIf_bind_next (forward_acts _ _) _ fun _ =>
    Consumes.bind (forward_acts _ _) (consumes_literal (by decide)) _

theorem consumes_logicLine :
    logicLine.Consumes (acts library maxDepth) :=
  consumesIf_bind_next (forward_acts _ _) _ fun _ =>
    Consumes.bind (forward_acts _ _) (consumes_literal (by decide)) _

theorem consumes_knot :
    knot.Consumes (acts library maxDepth) := by
  refine Consumes.bind (forward_acts _ _) (ConsumesIf.parse ?_) _
  refine consumesIf_bind_next (forward_acts _ _) _ fun _ => ?_
  refine Consumes.bind (forward_acts _ _) ?_ _
  exact Consumes.bind (forward_acts _ _) (consumes_chars _) _

theorem consumes_stitch :
    stitch.Consumes (acts library maxDepth) := by
  refine Consumes.bind (forward_acts _ _) (ConsumesIf.parse ?_) _
  refine consumesIf_bind_next (forward_acts _ _) _ fun _ => ?_
  exact Consumes.bind (forward_acts _ _) (consumes_literal (by decide)) _

theorem consumes_lineOf
    {rule : GrammarRule NodeId}
    (consumes : rule.Consumes (acts library maxDepth)) :
    (single rule).Consumes (acts library maxDepth) :=
  Consumes.bind (forward_acts _ _) consumes _

theorem consumes_onlyIf
    {rule : GrammarRule α}
    (applies : Bool)
    (consumes : rule.Consumes (acts library maxDepth)) :
    ∀ other ∈ onlyIf applies rule, other.Consumes (acts library maxDepth) := by
  unfold onlyIf
  split
  · exact List.forall_mem_singleton.mpr consumes
  · exact fun _ member => absurd member List.not_mem_nil

theorem consumes_statementRules
    (place : Place) :
    ∀ rule ∈ statementRules place,
      rule.Consumes (acts library maxDepth) := by
  simp only [statementRules, List.forall_mem_append, List.forall_mem_cons,
    List.forall_mem_map, List.not_mem_nil, false_implies, implies_true,
    and_true]
  refine ⟨⟨⟨⟨⟨⟨?diverts, ?knot⟩, ?choice, ?reminder⟩, ?gather⟩, ?stitch⟩,
    ?list, ?global, ?constant, ?external, ?inclusion⟩, ?logic, ?prose⟩
  case diverts =>
    exact consumes_wholeLine consumes_diverts
  case knot =>
    exact consumes_onlyIf _ (consumes_lineOf consumes_knot)
  case choice =>
    exact consumes_lineOf (consumes_wholeLine consumes_choice)
  case reminder =>
    exact consumes_lineOf (consumes_wholeLine (consumes_declaration _ _))
  case gather =>
    exact consumes_onlyIf _ (consumes_lineOf consumes_gather)
  case stitch =>
    exact consumes_onlyIf _ (consumes_lineOf consumes_stitch)
  case list =>
    exact consumes_lineOf (consumes_wholeLine (consumes_declaration _ _))
  case global =>
    exact consumes_lineOf (consumes_wholeLine (consumes_declaration _ _))
  case constant =>
    exact consumes_lineOf (consumes_wholeLine (consumes_declaration _ _))
  case external =>
    exact consumes_lineOf (consumes_wholeLine (consumes_declaration _ _))
  case inclusion =>
    exact consumes_lineOf (consumes_wholeLine consumes_inclusion)
  case logic =>
    exact consumes_logicLine
  case prose =>
    exact consumes_proseLine

/-- No statement is empty. -/
theorem consumes_statement
    (place : Place) :
    (statement place).Consumes (acts library maxDepth) :=
  Consumes.bind (forward_acts _ _)
    (Rule.consumes_oneOf (forward_acts _ _) (consumes_statementRules place)) _

end Lines

end Grammar

end InkSyntax
