import InkSyntax.Grammar.Script
import InkSyntax.Proofs.Grammar.Ownership

namespace InkSyntax

/-!
# Rules that only ask

Most small rules of the grammar read text and ask what known nodes are, but make
no node and change none.  Whether a rule is like this can be told from its parts,
so there is one lemma for each way of building rules and one for each such rule.
-/

/-- An operation that asks, and if about a node then about a known one. -/
def Craft.Asks (known : List NodeId) : {α : Type} → Craft α → Prop
  | _, .kindOf id => id ∈ known
  | _, .survey id => id ∈ known
  | _, .spanOf id => id ∈ known
  | _, .isInChoice => True
  | _, _ => False

namespace Rule

/-- A rule all of whose operations ask, which sets no flag and gives no node a span. -/
def Asks (known : List NodeId) : {α : Type} → GrammarRule α → Prop
  | _, .bind first next =>
      Asks known first ∧ ∀ value, Asks known (next value)
  | _, .attempt rule => Asks known rule
  | _, .scope fate rule =>
      Asks known rule ∧
        ∀ value nodes, fate value = .keep nodes → nodes = []
  | _, .loop _ round => ∀ state, Asks known (round state)
  | _, .setFlag _ _ => False
  | _, .effect operation => operation.Asks known
  | _, _ => True

variable
    {α β σ : Type}
    {known : List NodeId}

theorem Asks.reads
    {rule : GrammarRule α}
    (asks : rule.Asks known) :
    rule.Reads known := by
  induction rule with
  | bind first next firstHypothesis nextHypothesis =>
      exact
        (firstHypothesis asks.1).bind fun value =>
          nextHypothesis value (asks.2 value)
  | attempt rule inductionHypothesis =>
      exact (inductionHypothesis asks).attempt
  | scope fate rule inductionHypothesis =>
      exact (inductionHypothesis asks.1).scope asks.2
  | loop state round inductionHypothesis =>
      exact .loop (fun state => inductionHypothesis state (asks state)) state
  | pure value =>
      intro _ _ _ _ _ machine _ _ _ _
      exact ⟨.refl machine, rfl⟩
  | fail =>
      intro _ _ _ _ _ machine _ _ _ _
      exact ⟨.refl machine, rfl⟩
  | scan scanner =>
      intro _ _ _ _ _ machine _ _ _ _
      refine guarantees_scan.mpr ?_
      split
      · exact ⟨.advance machine _, rfl⟩
      · exact ⟨.refl machine, rfl⟩
  | here =>
      intro _ _ _ _ _ machine _ _ _ _
      exact ⟨.refl machine, rfl⟩
  | setFlag mask on =>
      exact asks.elim
  | report severity line message =>
      intro _ _ _ _ _ machine _ _ _ _
      refine ⟨.report machine severity line message, ?_⟩
      rw [Machine.host_report]
      split <;> rfl
  | effect operation =>
      intro _ _ _ _ _ machine closed _ knows among
      cases operation with
      | kindOf id =>
          obtain ⟨slot, made, -⟩ := knows id (among asks)
          have found : machine.host.draft.kind? id = some slot.kind := by
            simp [Draft.kind?, made]
          simp only [run, Workshop.handle, found]
          exact ⟨.refl machine, rfl⟩
      | survey id =>
          have areThere :=
            knows.missingWithin?_eq_none machine.host.draft.size (among asks)
          simp only [run, Workshop.handle, Workshop.unlessMissing, areThere]
          exact ⟨.refl machine, rfl⟩
      | spanOf id =>
          exact ⟨.refl machine, rfl⟩
      | isInChoice =>
          exact ⟨.refl machine, rfl⟩
      | _ =>
          exact asks.elim

/-- Setting a flag touches no node. -/
theorem reads_setFlag
    (mask : UInt32)
    (on : Bool) :
    (setFlag mask on : GrammarRule Unit).Reads known :=
  fun _ _ _ _ _ machine _ _ _ _ => ⟨.setFlag machine mask on, rfl⟩

/-- Marking a choice reads like asking. -/
theorem reads_setInChoice
    (inChoice : Bool) :
    (effect (.setInChoice inChoice) : GrammarRule Unit).Reads known :=
  fun _ _ _ _ _ machine _ _ _ _ => ⟨.work machine _, rfl⟩

/-- A rule that asks, and what comes after it. -/
theorem Owns.ask
    {first : GrammarRule α}
    {next : α → GrammarRule β}
    {given : List NodeId}
    {gives : β → List NodeId}
    (asks : first.Asks given)
    (then_ : ∀ value, (next value).Owns given gives) :
    (first >>= next).Owns given gives :=
  .read asks.reads then_

theorem Owns.askKnowing
    {first : GrammarRule α}
    {next : α → GrammarRule β}
    {given : List NodeId}
    {holds : α → Prop}
    {gives : β → List NodeId}
    (yields : first.Yields holds)
    (asks : first.Asks given)
    (then_ : ∀ value, holds value → (next value).Owns given gives) :
    (first >>= next).Owns given gives :=
  asks.reads.owns.bindKnowing yields then_

/-- A remark that is made only at times, and what comes after it. -/
theorem Owns.remark
    {condition : Prop}
    [Decidable condition]
    {remark : GrammarRule Unit}
    {next : Unit → GrammarRule β}
    {given : List NodeId}
    {gives : β → List NodeId}
    (asks : remark.Asks given)
    (then_ : ∀ value, (next value).Owns given gives) :
    (if condition then remark >>= next else next ()).Owns given gives :=
  .perhaps asks.reads.owns then_

/-- A rule that asks gives on what it was given. -/
theorem Asks.owns
    {rule : GrammarRule α}
    {given : List NodeId}
    {gives : α → List NodeId}
    (asks : rule.Asks given)
    (covers : ∀ value, Covers given (gives value)) :
    rule.Owns given gives :=
  asks.reads.owns.weaken (fun _ => Nat.le_refl _) covers

section Constructors

@[simp] theorem asks_pure
    (value : α) :
    (Pure.pure value : GrammarRule α).Asks known :=
  trivial

@[simp] theorem asks_fail :
    (fail : GrammarRule α).Asks known :=
  trivial

@[simp] theorem asks_ite
    {condition : Prop}
    [Decidable condition]
    {first second : GrammarRule α} :
    (if condition then first else second).Asks known ↔
      (condition → first.Asks known) ∧
        (¬ condition → second.Asks known) := by
  by_cases holds : condition <;> simp [holds]

@[simp] theorem asks_bind
    {first : GrammarRule α}
    {next : α → GrammarRule β} :
    (first >>= next).Asks known ↔
      first.Asks known ∧ ∀ value, (next value).Asks known :=
  Iff.rfl

@[simp] theorem asks_attempt
    {rule : GrammarRule α} :
    (attempt rule).Asks known ↔ rule.Asks known :=
  Iff.rfl

@[simp] theorem asks_loop
    {state : σ}
    {round : σ → GrammarRule (σ ⊕ α)} :
    (loop state round).Asks known ↔
      ∀ state, (round state).Asks known :=
  Iff.rfl

@[simp] theorem asks_scan
    (scanner : Scanner α) :
    (scan scanner : GrammarRule α).Asks known :=
  trivial

@[simp] theorem asks_here :
    (here : GrammarRule Checkpoint).Asks known :=
  trivial

@[simp] theorem asks_report
    (severity : Severity)
    (line : Nat)
    (message : String) :
    (report severity line message : GrammarRule Unit).Asks known :=
  trivial

@[simp] theorem asks_isInChoice :
    (effect .isInChoice : GrammarRule Bool).Asks known :=
  trivial

/-- Values that stand for no node by themselves. -/
@[simp] theorem nodes_of_other
    (value : α) :
    @StandsFor.nodes α instStandsFor value = [] :=
  rfl

@[simp] theorem asks_parse
    [StandsFor α]
    {rule : GrammarRule α} :
    (parse rule).Asks known ↔
      rule.Asks known ∧ ∀ value : α, StandsFor.nodes value = [] := by
  simp [parse, Asks]

@[simp] theorem asks_peek
    {rule : GrammarRule α} :
    (peek rule).Asks known ↔ rule.Asks known := by
  constructor
  · intro asks
    exact asks.1.1
  · intro asks
    exact ⟨⟨asks, fun _ => trivial⟩, nofun⟩

end Constructors

section Combinators

@[simp] theorem asks_require
    (test : Bool) :
    (require test : GrammarRule Unit).Asks known := by
  cases test <;> trivial

@[simp] theorem asks_literal
    (expected : String) :
    (literal expected : GrammarRule Unit).Asks known :=
  trivial

@[simp] theorem asks_chars
    (accept : Char → Bool) :
    (chars accept : GrammarRule String).Asks known :=
  trivial

@[simp] theorem asks_anyChar :
    (anyChar : GrammarRule Char).Asks known :=
  trivial

@[simp] theorem asks_lineBreak :
    (lineBreak : GrammarRule Unit).Asks known :=
  trivial

@[simp] theorem asks_atEnd :
    (atEnd : GrammarRule Bool).Asks known := by
  simp [atEnd]

@[simp] theorem asks_line :
    (line : GrammarRule Nat).Asks known := by
  simp [line]

@[simp] theorem asks_hasFlag
    (mask : UInt32) :
    (hasFlag mask : GrammarRule Bool).Asks known := by
  simp [hasFlag]

@[simp] theorem asks_error
    (message : String) :
    (error message : GrammarRule Unit).Asks known := by
  simp [error]

@[simp] theorem asks_warning
    (message : String) :
    (warning message : GrammarRule Unit).Asks known := by
  simp [warning]

@[simp] theorem asks_reportExpected
    (description : String) :
    (reportExpected description : GrammarRule Unit).Asks known := by
  simp [reportExpected]

@[simp] theorem asks_integer :
    (integer : GrammarRule Int).Asks known := by
  simp [integer]

@[simp] theorem asks_ahead
    {rule : GrammarRule α} :
    (ahead rule).Asks known ↔ rule.Asks known := by
  simp [ahead]

@[simp] theorem asks_expect
    [StandsFor α]
    {rule : GrammarRule α}
    {description : String} :
    (expect rule description).Asks known ↔
      rule.Asks known ∧ ∀ value : α, StandsFor.nodes value = [] := by
  simp only [expect, asks_bind, asks_attempt, asks_parse, and_iff_left_iff_imp]
  rintro - (_ | value) <;> simp

@[simp] theorem asks_expectOr
    [StandsFor α]
    {rule recovery : GrammarRule α}
    {description : String} :
    (expectOr rule description recovery).Asks known ↔
      (rule.Asks known ∧ ∀ value : α, StandsFor.nodes value = []) ∧
        recovery.Asks known := by
  simp only [expectOr, asks_bind, asks_attempt, asks_parse, and_congr_right_iff]
  intro _
  constructor
  · intro asks
    exact (asks none).2 ()
  · rintro asks (_ | value) <;> simp [asks]

theorem asks_firstOf
    [StandsFor α]
    {rules : List (GrammarRule α)}
    (asks : ∀ rule ∈ rules, rule.Asks known)
    (standForNone : ∀ value : α, StandsFor.nodes value = []) :
    (oneOf.firstOf rules).Asks known := by
  induction rules with
  | nil =>
      trivial
  | cons rule others inductionHypothesis =>
      simp only [oneOf.firstOf, asks_bind, asks_attempt, asks_parse]
      refine ⟨⟨asks rule List.mem_cons_self, standForNone⟩, ?_⟩
      rintro (_ | value)
      · exact
          inductionHypothesis fun other member =>
            asks other (List.mem_cons_of_mem _ member)
      · trivial

theorem asks_oneOf
    [StandsFor α]
    {rules : List (GrammarRule α)}
    (asks : ∀ rule ∈ rules, rule.Asks known)
    (standForNone : ∀ value : α, StandsFor.nodes value = []) :
    (oneOf rules).Asks known :=
  asks_parse.mpr ⟨asks_firstOf asks standForNone, standForNone⟩

@[simp] theorem asks_oneOrMore
    [StandsFor α]
    {rule : GrammarRule α} :
    (oneOrMore rule).Asks known ↔
      rule.Asks known ∧ ∀ value : α, StandsFor.nodes value = [] := by
  simp only [oneOrMore, zeroOrMore, asks_bind, asks_loop, asks_attempt,
    asks_parse]
  constructor
  · intro asks
    exact (asks.1 []).1
  · intro asks
    refine ⟨fun _ => ⟨asks, ?_⟩, by simp⟩
    rintro (_ | value) <;> trivial

theorem asks_alternate
    [StandsFor (Step α)]
    [StandsFor (List α)]
    {outer inner : GrammarRule (Step α)}
    (outerAsks : outer.Asks known)
    (innerAsks : inner.Asks known)
    (stepsStandForNone : ∀ value : Step α, StandsFor.nodes value = [])
    (standForNone : ∀ value : List α, StandsFor.nodes value = []) :
    (alternate outer inner).Asks known := by
  simp only [alternate, alternateUntil, alternateRound, asks_parse, asks_bind,
    asks_loop, asks_attempt, asks_peek, asks_ite]
  refine
    ⟨⟨⟨outerAsks, stepsStandForNone⟩, fun first =>
      ⟨fun found => ⟨trivial, fun _ => ⟨by simp, fun _ =>
        ⟨⟨innerAsks, stepsStandForNone⟩, ?_⟩⟩⟩, by simp⟩⟩, standForNone⟩
  rintro (_ | main)
  · trivial
  · simp only [asks_bind, asks_attempt, asks_parse]
    refine ⟨⟨outerAsks, stepsStandForNone⟩, ?_⟩
    rintro (_ | next) <;> simp

theorem asks_textUntil
    {stop : GrammarRule α}
    {pauses stops : Char → Bool}
    (asks : stop.Asks known) :
    (textUntil stop pauses stops).Asks known := by
  simp only [textUntil, asks_parse, asks_bind, asks_loop, asks_attempt,
    asks_peek, asks_ite]
  refine
    ⟨⟨fun state => ⟨asks_chars _, fun found => ⟨asks, fun stops => ?_⟩⟩,
      by simp⟩, fun _ => rfl⟩
  refine ⟨fun _ => trivial, fun _ => ⟨trivial, fun checkpoint => ?_⟩⟩
  cases checkpoint.cursor.rest with
  | nil =>
      trivial
  | cons character rest =>
      simp

@[simp] theorem asks_dropped
    [StandsFor β]
    {rule : GrammarRule β} :
    (dropped rule : GrammarRule (Step α)).Asks known ↔
      rule.Asks known ∧ ∀ value : β, StandsFor.nodes value = [] := by
  simp [dropped]

@[simp] theorem asks_optionallyDropped
    [StandsFor β]
    {rule : GrammarRule β} :
    (optionallyDropped rule : GrammarRule (Step α)).Asks known ↔
      rule.Asks known ∧ ∀ value : β, StandsFor.nodes value = [] := by
  simp [optionallyDropped]

@[simp] theorem asks_single
    [StandsFor α]
    {rule : GrammarRule α} :
    (single rule).Asks known ↔
      rule.Asks known ∧ ∀ value : α, StandsFor.nodes value = [] := by
  simp [single]

end Combinators

end Rule

namespace Grammar

variable
    {α : Type}
    {known : List NodeId}

section Nodes

@[simp] theorem asks_kindOf
    {id : NodeId} :
    (kindOf id).Asks known ↔ id ∈ known :=
  Iff.rfl

@[simp] theorem asks_survey
    {id : NodeId} :
    (survey id).Asks known ↔ id ∈ known :=
  Iff.rfl

@[simp] theorem asks_spanOf
    {id : NodeId} :
    (spanOf id).Asks known ↔ id ∈ known :=
  Iff.rfl

theorem asks_identifierName
    {id : NodeId}
    (isKnown : id ∈ known) :
    (identifierName id).Asks known := by
  simp only [identifierName, Rule.asks_bind, asks_kindOf]
  refine ⟨isKnown, fun kind => ?_⟩
  split <;> simp

theorem asks_errorAt
    {id : NodeId}
    (isKnown : id ∈ known)
    (message : String) :
    (errorAt id message).Asks known := by
  simp only [errorAt, Rule.asks_bind, asks_spanOf]
  refine ⟨isKnown, fun span => ?_⟩
  split <;> simp

end Nodes

section Lexemes

@[simp] theorem asks_blanks :
    blanks.Asks known := by
  simp [blanks]

@[simp] theorem asks_skipBlanks :
    skipBlanks.Asks known := by
  simp [skipBlanks]

@[simp] theorem asks_optionalLiteral
    (expected : String) :
    (optionalLiteral expected).Asks known := by
  simp [optionalLiteral]

@[simp] theorem asks_spaced
    [StandsFor α]
    {rule : GrammarRule α} :
    (spaced rule).Asks known ↔
      rule.Asks known ∧ ∀ value : α, StandsFor.nodes value = [] := by
  simp [spaced]

@[simp] theorem asks_lineEnd :
    lineEnd.Asks known := by
  simp [lineEnd]

@[simp] theorem asks_textEnd :
    textEnd.Asks known := by
  simp [textEnd]

@[simp] theorem asks_endOfLine :
    endOfLine.Asks known :=
  Rule.asks_oneOf (by simp) fun _ => rfl

@[simp] theorem asks_blankLines :
    blankLines.Asks known := by
  simp [blankLines]

@[simp] theorem asks_skipBlankSpace :
    skipBlankSpace.Asks known := by
  simp only [skipBlankSpace, Rule.asks_bind, Rule.asks_loop,
    Rule.asks_attempt]
  refine ⟨fun _ => ⟨Rule.asks_oneOf (by simp) fun _ => rfl, ?_⟩, by simp⟩
  rintro (_ | value) <;> trivial

@[simp] theorem asks_restOfLine :
    restOfLine.Asks known := by
  simp [restOfLine]

@[simp] theorem asks_skipLine :
    skipLine.Asks known := by
  simp [skipLine]

@[simp] theorem asks_name :
    name.Asks known := by
  simp [name]

@[simp] theorem asks_keyword
    (word : String) :
    (keyword word).Asks known := by
  simp [keyword]

@[simp] theorem asks_dash :
    dash.Asks known := by
  simp [dash]

@[simp] theorem asks_dashes :
    dashes.Asks known := by
  simp only [dashes, Rule.asks_bind, Rule.asks_loop, Rule.asks_attempt]
  refine ⟨by simp, fun _ => ⟨fun count => ⟨by simp, ?_⟩, by simp⟩⟩
  rintro (_ | value) <;> simp

@[simp] theorem asks_declarationWord
    (word : String) :
    (declarationWord word).Asks known := by
  simp [declarationWord]

end Lexemes

section Parameters

@[simp] theorem asks_parameterOf
    (first : Option String)
    (isDivertTarget : Bool)
    (second : Option String) :
    (parameterOf first isDivertTarget second).Asks known := by
  unfold parameterOf
  split
  · simp
  · simp

@[simp] theorem asks_parameter :
    parameter.Asks known := by
  simp [parameter]

@[simp] theorem asks_parameters :
    parameters.Asks known := by
  simp [parameters, Rule.asks_alternate]

@[simp] theorem asks_optionalParameters :
    optionalParameters.Asks known := by
  simp [optionalParameters]

@[simp] theorem asks_knotMark :
    knotMark.Asks known := by
  simp [knotMark]

@[simp] theorem asks_stitchKeyword :
    stitchKeyword.Asks known := by
  simp [stitchKeyword]

end Parameters

end Grammar

end InkSyntax
