import InkSyntax.Proofs.Grammar.HeaderText
import InkSyntax.Proofs.Machine.Cursors
import InkSyntax.Proofs.Reading.Deliveries
import InkSyntax.Proofs.Story.Kinds

namespace InkSyntax

/-!
# Reading quietly

A machine reads quietly if it delivers nothing and leaves the scopes around
alone.  The rules for blanks, literals and names read quietly; what they leave of
the text is what `InkSyntax.Proofs.Grammar.HeaderText` says.
-/

namespace Machine

/-- Nothing was delivered, and the scopes around are as they were. -/
structure Quiet (before after : Machine Workshop) : Prop where
  delivered : after.delivered = before.delivered
  below : after.stack.below = before.stack.below
  unmarked :
    before.stack.top.reported = false → after.stack.top.reported = false

/-- Something was delivered. -/
def Complains (before after : Machine Workshop) : Prop :=
  before.delivered.length < after.delivered.length

/-- The text was read quietly up to where this rest of it follows. -/
structure Reads
    (before after : Machine Workshop)
    (rest : List Char) : Prop extends Quiet before after where
  rest : after.cursor.rest = rest

variable {before middle after : Machine Workshop}

theorem Quiet.refl
    (machine : Machine Workshop) :
    Quiet machine machine where
  delivered := rfl
  below := rfl
  unmarked := id

theorem Quiet.trans
    (first : Quiet before middle)
    (second : Quiet middle after) :
    Quiet before after where
  delivered := second.delivered.trans first.delivered
  below := second.below.trans first.below
  unmarked unmarked := second.unmarked (first.unmarked unmarked)

theorem Reads.refl
    (machine : Machine Workshop) :
    Reads machine machine machine.cursor.rest where
  toQuiet := .refl machine
  rest := rfl

theorem Quiet.reads
    {rest : List Char}
    (first : Quiet before middle)
    (second : Reads middle after rest) :
    Reads before after rest where
  toQuiet := first.trans second.toQuiet
  rest := second.rest

theorem Quiet.complains
    (first : Quiet before middle)
    (second : Complains middle after) :
    Complains before after := by
  unfold Complains at second ⊢
  rw [first.delivered] at second
  exact second

/-- What was complained about stays delivered. -/
theorem Complains.trans_le
    (first : Complains before middle)
    (grows : middle.delivered.length ≤ after.delivered.length) :
    Complains before after :=
  Nat.lt_of_lt_of_le first grows

/-- A scope in which nothing was delivered marks nothing outside. -/
theorem Quiet.closes
    {machine after closed : Machine Workshop}
    {fate : Fate}
    (inside : Quiet machine.opened after)
    (closes : Rule.Closes fate machine.nextRule after closed) :
    Quiet machine closed := by
  have delivered : after.delivered = machine.delivered :=
    inside.delivered
  have unmarked : after.stack.top.reported = false :=
    inside.unmarked rfl
  cases fate with
  | keep nodes =>
      obtain ⟨parent, deeper, below, _, rfl⟩ :=
        Machine.commitScope_eq_ok_iff.mp closes
      cases inside.below.symm.trans below
      exact ⟨delivered, rfl, fun _ => unmarked⟩
  | undo =>
      obtain ⟨parent, deeper, below, _, rfl⟩ :=
        Machine.cancelScope_eq_ok_iff.mp closes
      cases inside.below.symm.trans below
      exact ⟨delivered, rfl, id⟩

/-- A scope that is kept leaves the cursor where its rule left it. -/
theorem Reads.closes_keep
    {machine after closed : Machine Workshop}
    {rest : List Char}
    {nodes : List NodeId}
    (inside : Reads machine.opened after rest)
    (closes : Rule.Closes (.keep nodes) machine.nextRule after closed) :
    Reads machine closed rest := by
  refine ⟨inside.toQuiet.closes closes, ?_⟩
  obtain ⟨parent, deeper, _, _, rfl⟩ :=
    Machine.commitScope_eq_ok_iff.mp closes
  exact inside.rest

/-- A scope that is undone puts the cursor back. -/
theorem Quiet.closes_undo
    {machine after closed : Machine Workshop}
    (inside : Quiet machine.opened after)
    (closes : Rule.Closes .undo machine.nextRule after closed) :
    Reads machine closed machine.cursor.rest := by
  refine ⟨inside.closes closes, ?_⟩
  obtain ⟨parent, deeper, below, _, rfl⟩ :=
    Machine.cancelScope_eq_ok_iff.mp closes
  cases inside.below.symm.trans below
  rfl

theorem Complains.closes
    {machine after closed : Machine Workshop}
    {fate : Fate}
    {number : RuleId}
    (inside : Complains machine.opened after)
    (closes : Rule.Closes fate number after closed) :
    Complains machine closed := by
  unfold Complains
  rw [delivered_closes closes]
  exact inside

/-- A report in a scope that has not reported yet is delivered. -/
theorem complains_report
    {machine : Machine Workshop}
    (unmarked : machine.stack.top.reported = false)
    (severity : Severity)
    (line : Nat)
    (message : String) :
    Complains machine (machine.report severity line message) := by
  rw [Complains, delivered_report, unmarked]
  simp

end Machine

namespace Grammar

open Machine (Quiet Complains Reads)
open Reading (Site)

variable
    {library : Library}
    {maxDepth files levels : Nat}
    {machine : Machine Workshop}
    {α : Type}

/-- What holds after a rule has run somewhere in a reading. -/
def Ensures
    (library : Library)
    (maxDepth files levels : Nat)
    (rule : GrammarRule α)
    (machine : Machine Workshop)
    (onMatch : α → Machine Workshop → Prop)
    (onFailure : Machine Workshop → Prop) : Prop :=
  (Site.outcome library maxDepth ⟨files, levels, rule, machine⟩).Ensures
    onMatch onFailure

variable
    {β : Type}
    {onMatch : α → Machine Workshop → Prop}
    {onFailure : Machine Workshop → Prop}

section Combinators

variable {rule : GrammarRule α}

theorem Ensures.mono
    {onMatch' : α → Machine Workshop → Prop}
    {onFailure' : Machine Workshop → Prop}
    (ensures :
      Ensures library maxDepth files levels rule machine onMatch onFailure)
    (match_ : ∀ value after, onMatch value after → onMatch' value after)
    (failure : ∀ after, onFailure after → onFailure' after) :
    Ensures library maxDepth files levels rule machine onMatch' onFailure' :=
  Outcome.Ensures.mono ensures match_ failure

theorem ensures_pure
    {value : α}
    (holds : onMatch value machine) :
    Ensures library maxDepth files levels (pure value) machine
      onMatch onFailure :=
  holds

theorem ensures_bind
    {next : α → GrammarRule β}
    {onMatch : β → Machine Workshop → Prop}
    (first :
      Ensures library maxDepth files levels rule machine
        (fun value after =>
          Ensures library maxDepth files levels (next value) after
            onMatch onFailure)
        onFailure) :
    Ensures library maxDepth files levels (rule >>= next) machine
      onMatch onFailure :=
  Rule.ensures_bind.mpr first

theorem ensures_attempt
    {onMatch : Option α → Machine Workshop → Prop}
    (attempted :
      Ensures library maxDepth files levels rule machine
        (fun value => onMatch (some value)) (onMatch none)) :
    Ensures library maxDepth files levels (.attempt rule) machine
      onMatch onFailure :=
  Rule.ensures_attempt.mpr attempted

theorem ensures_parse
    [StandsFor α]
    (inside :
      Ensures library maxDepth files levels rule machine.opened
        (fun value after =>
          ∀ closed,
            Rule.Closes (.keep (StandsFor.nodes value)) machine.nextRule
              after closed →
            onMatch value closed)
        (fun after =>
          ∀ closed,
            Rule.Closes .undo machine.nextRule after closed →
            onFailure closed)) :
    Ensures library maxDepth files levels (Rule.parse rule) machine
      onMatch onFailure :=
  Rule.ensures_scope fun _ => inside

theorem ensures_loop
    {σ : Type}
    {state : σ}
    {round : σ → GrammarRule (σ ⊕ α)}
    (invariant : σ → Machine Workshop → Prop)
    (atStart : invariant state machine)
    (keeps :
      ∀ state machine,
        invariant state machine →
        Ensures library maxDepth files levels (round state) machine
          (fun result after =>
            match result with
            | .inl next => invariant next after
            | .inr value => onMatch value after)
          onFailure) :
    Ensures library maxDepth files levels (.loop state round) machine
      onMatch onFailure :=
  Rule.ensures_loop invariant atStart keeps

theorem ensures_require
    {test : Bool}
    {onMatch : Unit → Machine Workshop → Prop}
    (holds : test = true → onMatch () machine)
    (fails : test = false → onFailure machine) :
    Ensures library maxDepth files levels (Rule.require test) machine
      onMatch onFailure := by
  cases test with
  | true =>
      exact holds rfl
  | false =>
      exact fails rfl

theorem ensures_scan
    {scanner : Scanner α}
    (found :
      ∀ value length after,
        scanner machine.cursor.rest = some (value, length) →
        Reads machine after (machine.cursor.rest.drop length) →
        onMatch value after)
    (missing : scanner machine.cursor.rest = none → onFailure machine) :
    Ensures library maxDepth files levels (.scan scanner) machine
      onMatch onFailure := by
  refine Rule.ensures_scan.mpr ?_
  split
  · next value length scanned =>
      refine found value length _ scanned ⟨⟨rfl, rfl, id⟩, ?_⟩
      exact Cursor.rest_advance machine.cursor length
  · next scanned =>
      exact missing scanned

/-- An error in a scope that has not reported yet is delivered. -/
theorem ensures_error
    {message : String}
    {onMatch : Unit → Machine Workshop → Prop}
    (unmarked : machine.stack.top.reported = false)
    (complained : ∀ after, Complains machine after → onMatch () after) :
    Ensures library maxDepth files levels (Rule.error message) machine
      onMatch onFailure :=
  complained _ (Machine.complains_report unmarked _ _ _)

end Combinators

section Lexemes

theorem ensures_literal
    {expected : String}
    {onMatch : Unit → Machine Workshop → Prop}
    (found :
      ∀ rest after,
        following? expected machine.cursor.rest = some rest →
        Reads machine after rest →
        onMatch () after)
    (missing :
      following? expected machine.cursor.rest = none → onFailure machine) :
    Ensures library maxDepth files levels (Rule.literal expected) machine
      onMatch onFailure := by
  refine ensures_scan ?_ ?_
  · intro value length after scanned reads
    simp only [Scanner.exactly] at scanned
    split at scanned
    · next isPrefix =>
        cases scanned
        exact found _ after (if_pos isPrefix) reads
    · cases scanned
  · intro scanned
    simp only [Scanner.exactly] at scanned
    split at scanned
    · cases scanned
    · next notPrefix =>
        exact missing (if_neg notPrefix)

theorem ensures_optionalLiteral
    {expected : String}
    {onMatch : Bool → Machine Workshop → Prop}
    (reads :
      ∀ after,
        Reads machine after
          ((following? expected machine.cursor.rest).getD
            machine.cursor.rest) →
        onMatch (following? expected machine.cursor.rest).isSome after) :
    Ensures library maxDepth files levels (optionalLiteral expected) machine
      onMatch onFailure := by
  refine ensures_bind (ensures_attempt (ensures_literal ?_ ?_))
  · intro rest after follows read
    rw [follows] at reads
    exact ensures_pure (reads after read)
  · intro missing
    rw [missing] at reads
    exact ensures_pure (reads machine (.refl machine))

/-- What a run of characters leaves is the text without them. -/
theorem ensures_chars
    {accept : Char → Bool}
    {onMatch : String → Machine Workshop → Prop}
    (found :
      ∀ after,
        machine.cursor.rest.takeWhile accept ≠ [] →
        Reads machine after
          (machine.cursor.rest.drop
            (machine.cursor.rest.takeWhile accept).length) →
        onMatch (String.ofList (machine.cursor.rest.takeWhile accept)) after)
    (missing :
      machine.cursor.rest.takeWhile accept = [] → onFailure machine) :
    Ensures library maxDepth files levels (Rule.chars accept) machine
      onMatch onFailure := by
  refine ensures_scan ?_ ?_
  · intro value length after scanned reads
    simp only [Scanner.chars] at scanned
    split at scanned
    · cases scanned
    · next nonempty =>
        cases scanned
        exact found after nonempty reads
  · intro scanned
    simp only [Scanner.chars] at scanned
    split at scanned
    · next empty =>
        exact missing empty
    · cases scanned

/-- A run of characters is empty unless the first one is accepted. -/
private theorem any_head?_iff
    (accept : Char → Bool)
    (text : List Char) :
    text.head?.any accept = true ↔ text.takeWhile accept ≠ [] := by
  cases text with
  | nil =>
      simp
  | cons first others =>
      by_cases accepted : accept first = true <;> simp [accepted]

theorem ensures_blanks
    {onMatch : Unit → Machine Workshop → Prop}
    (found :
      ∀ after,
        machine.cursor.rest.head?.any isInlineBlank = true →
        Reads machine after (withoutBlanks machine.cursor.rest) →
        onMatch () after)
    (missing :
      machine.cursor.rest.head?.any isInlineBlank = false →
      withoutBlanks machine.cursor.rest = machine.cursor.rest →
      onFailure machine) :
    Ensures library maxDepth files levels blanks machine
      onMatch onFailure := by
  refine ensures_bind (ensures_chars ?_ ?_)
  · intro after nonempty reads
    rw [drop_length_takeWhile] at reads
    exact ensures_pure (found after ((any_head?_iff _ _).mpr nonempty) reads)
  · intro empty
    refine missing ?_ ?_
    · rw [← Bool.not_eq_true, any_head?_iff]
      exact not_not_intro empty
    · have whole :=
        drop_length_takeWhile isInlineBlank machine.cursor.rest
      rw [empty] at whole
      exact whole.symm

theorem ensures_skipBlanks
    {onMatch : Unit → Machine Workshop → Prop}
    (reads :
      ∀ after,
        Reads machine after (withoutBlanks machine.cursor.rest) →
        onMatch () after) :
    Ensures library maxDepth files levels skipBlanks machine
      onMatch onFailure := by
  refine ensures_bind (ensures_attempt (ensures_blanks ?_ ?_))
  · intro after _ read
    exact ensures_pure (reads after read)
  · intro _ same
    rw [same] at reads
    exact ensures_pure (reads machine (.refl machine))

theorem ensures_name
    {onMatch : String → Machine Workshop → Prop}
    (found :
      ∀ word rest after,
        nameAt? machine.cursor.rest = some (word, rest) →
        Reads machine after rest →
        onMatch word after)
    (missing :
      ∀ after,
        nameAt? machine.cursor.rest = none →
        Reads machine after machine.cursor.rest →
        onFailure after) :
    Ensures library maxDepth files levels name machine
      onMatch onFailure := by
  refine ensures_parse (ensures_bind (ensures_chars ?_ ?_))
  · intro after _ read
    rw [Machine.cursor_opened] at read ⊢
    refine ensures_bind (ensures_require ?_ ?_)
    · intro notDigits
      refine ensures_pure fun closed closes => ?_
      refine found _ _ closed ?_ (read.closes_keep closes)
      rw [String.toList_ofList, Bool.not_eq_true'] at notDigits
      simp [nameAt?, notDigits]
    · intro digits closed closes
      refine missing closed ?_ (read.toQuiet.closes_undo closes)
      rw [String.toList_ofList, Bool.not_eq_false'] at digits
      simp [nameAt?, digits]
  · intro empty closed closes
    rw [Machine.cursor_opened] at empty
    refine missing closed ?_ ((Quiet.refl _).closes_undo closes)
    simp [nameAt?, empty]

theorem ensures_make
    {kind : StoryKind}
    {onMatch : NodeId → Machine Workshop → Prop}
    (made :
      ∀ id after,
        Reads machine after machine.cursor.rest →
        after.host.draft.kind? id = some kind →
        onMatch id after) :
    Ensures library maxDepth files levels (make kind) machine
      onMatch onFailure := by
  refine made _ _ ⟨⟨rfl, rfl, id⟩, rfl⟩ ?_
  simp [Draft.kind?_eq_getElem?, Draft.kinds, Draft.size]

/-- Committing a scope gives spans and leaves the kinds of nodes alone. -/
theorem kind?_of_closes_keep
    {number : RuleId}
    {nodes : List NodeId}
    {after closed : Machine Workshop}
    (closes : Rule.Closes (.keep nodes) number after closed)
    (id : NodeId) :
    closed.host.draft.kind? id = after.host.draft.kind? id := by
  obtain ⟨parent, deeper, _, _, rfl⟩ :=
    Machine.commitScope_eq_ok_iff.mp closes
  simp [Draft.kind?_eq_getElem?, Host.commit]

/-- A name that is read as a node keeps its spelling. -/
theorem ensures_identifier
    {onMatch : NodeId → Machine Workshop → Prop}
    (found :
      ∀ word rest id after,
        nameAt? machine.cursor.rest = some (word, rest) →
        Reads machine after rest →
        after.host.draft.kind? id = some (.identifier word) →
        onMatch id after)
    (missing :
      ∀ after,
        nameAt? machine.cursor.rest = none →
        Reads machine after machine.cursor.rest →
        onFailure after) :
    Ensures library maxDepth files levels identifier machine
      onMatch onFailure := by
  refine ensures_parse (ensures_bind (ensures_name ?_ ?_))
  · intro word rest named nameIs read
    refine ensures_make fun id made readMade kind closed closes => ?_
    rw [read.rest] at readMade
    refine
      found word rest id closed nameIs
        ((read.toQuiet.reads readMade).closes_keep closes) ?_
    rw [kind?_of_closes_keep closes, kind]
  · intro after noName read closed closes
    exact missing closed noName (read.toQuiet.closes_undo closes)

theorem ensures_parse_identifier
    {onMatch : NodeId → Machine Workshop → Prop}
    (found :
      ∀ word rest id after,
        nameAt? machine.cursor.rest = some (word, rest) →
        Reads machine after rest →
        after.host.draft.kind? id = some (.identifier word) →
        onMatch id after)
    (missing :
      ∀ after,
        nameAt? machine.cursor.rest = none →
        Reads machine after machine.cursor.rest →
        onFailure after) :
    Ensures library maxDepth files levels (Rule.parse identifier) machine
      onMatch onFailure := by
  refine ensures_parse (ensures_identifier ?_ ?_)
  · intro word rest id after nameIs read kind closed closes
    refine found word rest id closed nameIs (read.closes_keep closes) ?_
    rw [kind?_of_closes_keep closes, kind]
  · intro after noName read closed closes
    exact missing closed noName (read.toQuiet.closes_undo closes)

theorem ensures_kindOf
    {id : NodeId}
    {kind : StoryKind}
    (known : machine.host.draft.kind? id = some kind)
    {onMatch : StoryKind → Machine Workshop → Prop}
    (holds : onMatch kind machine) :
    Ensures library maxDepth files levels (kindOf id) machine
      onMatch onFailure := by
  simp only [Ensures, Site.outcome, kindOf, Rule.run, Reading.performs,
    Workshop.handle, known]
  exact holds

theorem ensures_identifierName
    {id : NodeId}
    {word : String}
    (known : machine.host.draft.kind? id = some (.identifier word))
    {onMatch : String → Machine Workshop → Prop}
    (holds : onMatch word machine) :
    Ensures library maxDepth files levels (identifierName id) machine
      onMatch onFailure :=
  ensures_bind (ensures_kindOf known (ensures_pure holds))

end Lexemes

end Grammar

end InkSyntax
