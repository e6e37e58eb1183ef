import InkSyntax.Proofs.Grammar.StatementLookahead
import InkSyntax.Proofs.Reading.Headers

namespace InkSyntax

/-!
# Lookahead that speaks

Of the things that the grammar looks ahead for, only headers are complained
about.  A lookahead therefore delivers something exactly if it comes to a header
that is malformed, and the text in front of it tells whether it does.
-/

namespace Grammar

open Machine (Quiet Complains Reads Tells)
open Reading (Site)

theorem malformedKnot_withoutBlanks
    (text : List Char) :
    malformedKnot (withoutBlanks text) = malformedKnot text := by
  have signs : knotSigns (withoutBlanks text) = knotSigns text := by
    simp only [knotSigns, withoutBlanks_withoutBlanks]
  simp only [malformedKnot, startsKnot]
  rw [signs, withoutBlanks_withoutBlanks]

theorem malformedStitch_withoutBlanks
    (text : List Char) :
    malformedStitch (withoutBlanks text) = malformedStitch text := by
  simp only [malformedStitch, withoutBlanks_withoutBlanks]

/-- Whether the end of the statements at a place is a malformed header. -/
def malformedEnd (place : Place) (text : List Char) : Bool :=
  (place != .top && malformedKnot text) ||
    ((place == .block || place == .stitch) && malformedStitch text)

/-- Whether a lookahead at a text comes to a malformed header. -/
def Lookahead.misread : {β : Type} → Lookahead β → List Char → Bool
  | _, .statementsEnd place, text => malformedEnd place text
  | _, .knotHeader, text => malformedKnot text
  | _, _, _ => false

variable
    {library : Library}
    {maxDepth files levels : Nat}
    {machine : Machine Workshop}
    {α β : Type}

/-- Whether it matches or not, a rule reads quietly from every machine. -/
def ReadsQuietly
    (library : Library)
    (maxDepth : Nat)
    (rule : GrammarRule α) : Prop :=
  ∀ files levels machine,
    Ensures library maxDepth files levels rule machine
      (fun _ after => Quiet machine after) (Quiet machine)

namespace ReadsQuietly

theorem pure
    (value : α) :
    ReadsQuietly library maxDepth (Pure.pure value) :=
  fun _ _ machine => ensures_pure (Quiet.refl machine)

theorem bind
    {first : GrammarRule α}
    {next : α → GrammarRule β}
    (firstQuiet : ReadsQuietly library maxDepth first)
    (nextQuiet : ∀ value, ReadsQuietly library maxDepth (next value)) :
    ReadsQuietly library maxDepth (first >>= next) := by
  intro files levels machine
  refine ensures_bind ((firstQuiet files levels machine).mono ?_ fun _ => id)
  intro value middle quiet
  exact
    (nextQuiet value files levels middle).mono
      (fun _ _ => quiet.trans) (fun _ => quiet.trans)

theorem attempt
    {rule : GrammarRule α}
    (quiet : ReadsQuietly library maxDepth rule) :
    ReadsQuietly library maxDepth (.attempt rule) :=
  fun files levels machine => ensures_attempt (quiet files levels machine)

theorem scan
    (scanner : Scanner α) :
    ReadsQuietly library maxDepth (.scan scanner) :=
  fun _ _ machine =>
    ensures_scan (fun _ _ _ _ reads => reads.toQuiet)
      (fun _ => .refl machine)

theorem atEnd :
    ReadsQuietly library maxDepth Rule.atEnd :=
  fun _ _ machine => ensures_atEnd (.refl machine)

theorem require
    (test : Bool) :
    ReadsQuietly library maxDepth (Rule.require test) :=
  fun _ _ machine =>
    ensures_require (fun _ => .refl machine) (fun _ => .refl machine)

theorem scope
    {fate : α → Fate}
    {rule : GrammarRule α}
    (quiet : ReadsQuietly library maxDepth rule) :
    ReadsQuietly library maxDepth (.scope fate rule) := by
  intro files levels machine
  refine Rule.ensures_scope fun _ => ?_
  exact
    (quiet files levels machine.opened).mono
      (fun _ _ inside _ => inside.closes)
      (fun _ inside closed (closes : Rule.Closes .undo _ _ closed) =>
        inside.closes closes)

theorem peek
    {rule : GrammarRule α}
    (quiet : ReadsQuietly library maxDepth rule) :
    ReadsQuietly library maxDepth (Rule.peek rule) :=
  scope (bind (attempt quiet) fun _ => pure _)

theorem firstOf
    [StandsFor α]
    {rules : List (GrammarRule α)}
    (quiet : ∀ rule ∈ rules, ReadsQuietly library maxDepth rule) :
    ReadsQuietly library maxDepth (Rule.oneOf.firstOf rules) := by
  induction rules with
  | nil =>
      exact fun _ _ machine => Quiet.refl machine
  | cons rule others inductionHypothesis =>
      refine bind (attempt (scope (quiet rule List.mem_cons_self))) ?_
      rintro (_ | value)
      · exact
          inductionHypothesis fun other member =>
            quiet other (List.mem_cons_of_mem _ member)
      · exact pure value

theorem oneOf
    [StandsFor α]
    {rules : List (GrammarRule α)}
    (quiet : ∀ rule ∈ rules, ReadsQuietly library maxDepth rule) :
    ReadsQuietly library maxDepth (Rule.oneOf rules) :=
  scope (firstOf quiet)

theorem literal
    (expected : String) :
    ReadsQuietly library maxDepth (Rule.literal expected) :=
  scan _

theorem skipBlanks :
    ReadsQuietly library maxDepth skipBlanks :=
  bind (attempt (bind (scan _) fun _ => pure ())) fun _ => pure ()

theorem endOfLine :
    ReadsQuietly library maxDepth endOfLine := by
  refine oneOf ?_
  simp only [List.forall_mem_cons, List.not_mem_nil, false_imp_iff,
    implies_true, and_true]
  constructor
  · exact bind skipBlanks fun _ => scan _
  · exact
      bind skipBlanks fun _ => bind atEnd require

theorem textStop :
    ReadsQuietly library maxDepth textStop := by
  refine oneOf ?_
  simp only [List.forall_mem_cons, List.not_mem_nil, false_imp_iff,
    implies_true, and_true]
  exact ⟨literal _, literal _, endOfLine, literal _⟩

theorem dash :
    ReadsQuietly library maxDepth dash := by
  refine scope (bind (peek (literal _)) fun isArrow => ?_)
  cases isArrow with
  | true =>
      exact fun _ _ machine => Quiet.refl machine
  | false =>
      exact bind (scan _) fun _ => require _

theorem closingBrace :
    ReadsQuietly library maxDepth (spaced (Rule.literal "\x7d")) :=
  bind skipBlanks fun _ =>
    bind (scope (literal _)) fun _ => bind skipBlanks fun _ => pure _

end ReadsQuietly

/-- Rules that are tried only under a condition decide, or else those after them. -/
theorem ensures_firstOf_onlyIf
    [StandsFor α]
    {applies : Bool}
    {rule : GrammarRule α}
    {others : List (GrammarRule α)}
    {onMatch : α → Machine Workshop → Prop}
    {onFailure : Machine Workshop → Prop}
    (tried :
      applies = true →
      Ensures library maxDepth files levels (Rule.parse rule) machine
        onMatch
        (fun after =>
          Ensures library maxDepth files levels (Rule.oneOf.firstOf others)
            after onMatch onFailure))
    (skipped :
      applies = false →
      Ensures library maxDepth files levels (Rule.oneOf.firstOf others)
        machine onMatch onFailure) :
    Ensures library maxDepth files levels
      (Rule.oneOf.firstOf (onlyIf applies rule ++ others)) machine
      onMatch onFailure := by
  cases applies with
  | true =>
      exact
        ensures_bind (ensures_attempt ((tried rfl).mono
          (fun _ _ held => ensures_pure held) (fun _ => id)))
  | false =>
      exact skipped rfl

/-- The header of a knot, on its own in a scope, leaves what it fails at unread. -/
theorem ensures_parse_knotHeader
    {onMatch : Unit → Machine Workshop → Prop}
    {onFailure : Machine Workshop → Prop}
    (found :
      ∀ after,
        startsKnot machine.cursor.rest = true →
        Tells machine after (malformedKnot machine.cursor.rest) →
        onMatch () after)
    (missing :
      ∀ after,
        malformedKnot machine.cursor.rest = false →
        Reads machine after machine.cursor.rest →
        onFailure after) :
    Ensures library maxDepth files levels
      (Rule.parse (ignored knotHeader)) machine onMatch onFailure := by
  refine ensures_parse (ensures_bind (ensures_knotHeader rfl ?_ ?_))
  · intro header after starts tells
    exact
      ensures_pure fun closed closes =>
        found closed starts (tells.closes closes)
  · intro after noKnot quiet closed closes
    rw [Machine.cursor_opened] at noKnot
    refine missing closed ?_ (quiet.closes_undo closes)
    rw [malformedKnot, noKnot, Bool.false_and]

theorem ensures_parse_stitchHeader
    {onMatch : Unit → Machine Workshop → Prop}
    {onFailure : Machine Workshop → Prop}
    (found :
      ∀ after,
        Tells machine after (malformedStitch machine.cursor.rest) →
        onMatch () after)
    (missing :
      ∀ after,
        malformedStitch machine.cursor.rest = false →
        Quiet machine after →
        onFailure after) :
    Ensures library maxDepth files levels
      (Rule.parse (ignored stitchHeader)) machine onMatch onFailure := by
  refine ensures_parse (ensures_bind (ensures_stitchHeader ?_ ?_))
  · intro header after tells
    exact ensures_pure fun closed closes => found closed (tells.closes closes)
  · intro after noStitch quiet closed closes
    exact missing closed noStitch (quiet.closes closes)

/-- What ends a block besides headers is read quietly. -/
theorem ReadsQuietly.blockEnd
    (inBlock : Bool) :
    ReadsQuietly library maxDepth
      (Rule.oneOf.firstOf
        (if inBlock then [Grammar.dash, Rule.literal "\x7d"] else [])) := by
  refine firstOf ?_
  cases inBlock with
  | true =>
      simp only [if_true, List.forall_mem_cons, List.not_mem_nil,
        false_imp_iff, implies_true, and_true]
      exact ⟨dash, literal _⟩
  | false =>
      exact fun rule member => absurd member List.not_mem_nil

/-- The header of a stitch is tried only where no header of a knot stands. -/
theorem ensures_firstOf_stitchHeader
    (applies inBlock : Bool) :
    Ensures library maxDepth files levels
      (Rule.oneOf.firstOf
        (onlyIf applies (ignored stitchHeader) ++
          if inBlock then [dash, Rule.literal "\x7d"] else []))
      machine
      (fun _ after =>
        Tells machine after
          (applies && malformedStitch machine.cursor.rest))
      (fun after =>
        Tells machine after
          (applies && malformedStitch machine.cursor.rest)) := by
  refine ensures_firstOf_onlyIf ?_ ?_
  · rintro rfl
    rw [Bool.true_and]
    refine ensures_parse_stitchHeader (fun after tells => tells) ?_
    intro after notMalformed quiet
    rw [notMalformed]
    exact
      (ReadsQuietly.blockEnd inBlock files levels after).mono
        (fun _ _ => quiet.trans) (fun _ => quiet.trans)
  · rintro rfl
    exact ReadsQuietly.blockEnd inBlock files levels machine

/-- The end of the statements at a place is complained about if malformed. -/
theorem ensures_firstOf_breakRules
    (place : Place) :
    Ensures library maxDepth files levels
      (Rule.oneOf.firstOf (breakRules place)) machine
      (fun _ after =>
        Tells machine after (malformedEnd place machine.cursor.rest))
      (fun after =>
        Tells machine after (malformedEnd place machine.cursor.rest)) := by
  unfold breakRules malformedEnd
  rw [List.append_assoc]
  refine ensures_firstOf_onlyIf ?_ ?_
  · intro applies
    rw [applies, Bool.true_and]
    refine ensures_parse_knotHeader ?_ ?_
    · intro after starts tells
      rw [malformedStitch_of_startsKnot starts, Bool.and_false,
        Bool.or_false]
      exact tells
    · intro after notMalformed read
      rw [notMalformed, Bool.false_or]
      refine (ensures_firstOf_stitchHeader _ _).mono ?_ ?_
      · intro value ended tells
        rw [read.rest] at tells
        exact read.toQuiet.tells tells
      · intro ended tells
        rw [read.rest] at tells
        exact read.toQuiet.tells tells
  · intro skipped
    rw [skipped, Bool.false_and, Bool.false_or]
    exact ensures_firstOf_stitchHeader _ _

/-- Blanks in front of the end of statements decide nothing. -/
theorem malformedEnd_withoutBlanks
    (place : Place)
    (text : List Char) :
    malformedEnd place (withoutBlanks text) = malformedEnd place text := by
  simp only [malformedEnd, malformedKnot_withoutBlanks,
    malformedStitch_withoutBlanks]

theorem ensures_statementsEnd
    (place : Place) :
    Ensures library maxDepth files levels (statementsEnd place) machine
      (fun _ after =>
        Tells machine after (malformedEnd place machine.cursor.rest))
      (fun after =>
        Tells machine after (malformedEnd place machine.cursor.rest)) := by
  refine ensures_bind (ensures_skipBlanks fun start read => ?_)
  refine ensures_parse ((ensures_firstOf_breakRules place).mono ?_ ?_)
  · intro value after tells closed closes
    rw [Machine.cursor_opened, read.rest, malformedEnd_withoutBlanks] at tells
    exact read.toQuiet.tells (tells.closes closes)
  · intro after tells closed closes
    rw [Machine.cursor_opened, read.rest, malformedEnd_withoutBlanks] at tells
    exact read.toQuiet.tells (tells.closes closes)

/-- A lookahead is complained about exactly where it comes to a malformed header. -/
theorem Lookahead.ensures_tells
    (lookahead : Lookahead β)
    (unmarked : machine.stack.top.reported = false) :
    Ensures library maxDepth files levels lookahead.rule machine
      (fun _ after =>
        Tells machine after (lookahead.misread machine.cursor.rest))
      (fun after =>
        Tells machine after (lookahead.misread machine.cursor.rest)) := by
  cases lookahead with
  | arrow =>
      exact ReadsQuietly.literal _ files levels machine
  | closingBrace =>
      exact ReadsQuietly.closingBrace files levels machine
  | nothing =>
      exact Quiet.refl machine
  | textStop =>
      exact ReadsQuietly.textStop files levels machine
  | statementsEnd place =>
      exact ensures_statementsEnd place
  | knotHeader =>
      refine ensures_knotHeader unmarked (fun _ after _ tells => tells) ?_
      intro after noKnot quiet
      simp only [misread, malformedKnot, noKnot, Bool.false_and]
      exact quiet

theorem Lookahead.ensures_peek
    (lookahead : Lookahead β) :
    Ensures library maxDepth files levels (Rule.peek lookahead.rule) machine
      (fun _ after =>
        Tells machine after (lookahead.misread machine.cursor.rest))
      (fun after =>
        Tells machine after (lookahead.misread machine.cursor.rest)) := by
  refine Rule.ensures_scope fun _ => ?_
  refine Rule.ensures_bind.mpr (ensures_attempt ?_)
  refine (lookahead.ensures_tells rfl).mono ?_ ?_
  · intro value after tells closed closes
    exact tells.closes closes
  · intro after tells closed closes
    exact tells.closes closes

end Grammar

namespace Reading

open Grammar

variable
    {library : Library}
    {options : Options}
    {text : String}
    {file : Option String}

/-- What a rule looks ahead for, the rules that it runs look ahead for too. -/
theorem Site.Enters.looks
    {maxDepth : Nat}
    {site inner : Site}
    (enters : Enters library maxDepth site inner)
    (looks : site.rule.LooksFor RunsAhead) :
    inner.rule.LooksFor RunsAhead := by
  cases enters with
  | first =>
      exact looks.1
  | next matched =>
      exact looks.2 _
  | attempted =>
      exact looks
  | inScope opens =>
      exact looks.1
  | round =>
      exact looks _
  | again matched =>
      exact looks
  | construct =>
      exact looks_rule _
  | inclusion notOpen found stripped =>
      exact looks_script

theorem Visits.looks
    {site : Site}
    (visits : Visits library options text file site) :
    site.rule.LooksFor RunsAhead := by
  obtain ⟨script, _, reaches⟩ := visits
  induction reaches with
  | refl =>
      exact looks_script
  | tail _ enters inductionHypothesis =>
      exact enters.looks inductionHypothesis

/-- A lookahead delivers nothing unless it comes to a malformed header. -/
theorem peek_is_silent_iff
    {files levels : Nat}
    {γ : Type}
    {ahead : GrammarRule γ}
    {machine after : Machine Workshop}
    (visits :
      Visits library options text file
        ⟨files, levels, Rule.peek ahead, machine⟩)
    (ends :
      (Site.outcome library options.maxStackDepth
          ⟨files, levels, Rule.peek ahead, machine⟩).after? =
        some after) :
    ∃ (β : Type) (lookahead : Lookahead β),
      (Rule.peek ahead : GrammarRule Bool) = Rule.peek lookahead.rule ∧
        (after.delivered = machine.delivered ↔
          lookahead.misread machine.cursor.rest = false) := by
  obtain ⟨β, _, ⟨lookahead, rfl⟩, same⟩ := visits.looks.exists_allowed
  refine ⟨β, lookahead, same, ?_⟩
  rw [same] at ends
  exact
    (Outcome.ends_iff.mp lookahead.ensures_peek after ends).delivered_eq_iff

/-- The site at which the blank lines in front of statements are read. -/
def Site.ofBlankLines
    (files levels : Nat)
    (machine : Machine Workshop) :
    Site where
  files := files
  levels := levels
  rule :=
    Rule.parse
      (Rule.optionallyDropped blankLines : GrammarRule (Step NodeId))
  machine := machine.opened

/-- Behind blank lines, statements are read in rounds. -/
theorem Site.Reaches.rounds
    {maxDepth files levels : Nat}
    {site : Site}
    {machine : Machine Workshop}
    {place : Place}
    (notBlock : place ≠ .block)
    (reaches :
      Reaches library maxDepth site
        ⟨files, levels + 1, statements place, machine⟩)
    (room : machine.stack.height < machine.stack.maxDepth)
    (yields :
      (Site.ofBlankLines files levels machine).yields library maxDepth
          (·.isNeutral) =
        true) :
    Reaches library maxDepth site
      ⟨files, levels,
        .loop []
          (Rule.alternateRound (Rule.optionallyDropped blankLines)
            (do return .many (← statement place)) (statementsEnd place)),
        (Site.ofBlankLines files levels machine).after library maxDepth⟩ := by
  have run :
      Reaches library maxDepth site
        ⟨files, levels,
          Rule.alternateUntil (Rule.optionallyDropped blankLines)
            (do return .many (← statement place))
            (statementsEnd place),
          machine⟩ := by
    have entered := reaches.tail .construct
    simpa [Grammar.rule, statementRun, notBlock] using entered
  obtain ⟨first, isNeutral, behind⟩ :=
    Reaches.yielded Step.isNeutral (Reaches.parsed run room) yields
  cases first with
  | neutral =>
      exact behind.tail .first
  | one id =>
      cases isNeutral
  | many ids =>
      cases isNeutral

/-- In front of the first knot, the end of the statements is looked for in silence. -/
theorem peek_is_silent_before_first_knot :
    ∃ files levels machine after,
      Visits (.ofFiles []) {} "== a\nx\n==\ny\n" none
        ⟨files, levels, Rule.peek (statementsEnd .top), machine⟩ ∧
      (Site.outcome (.ofFiles []) ({} : Options).maxStackDepth
          ⟨files, levels, Rule.peek (statementsEnd .top), machine⟩).after? =
        some after ∧
      ∃ (β : Type) (lookahead : Lookahead β),
        (Rule.peek (statementsEnd .top) : GrammarRule Bool) =
            Rule.peek lookahead.rule ∧
          (after.delivered = machine.delivered ↔
            lookahead.misread machine.cursor.rest = false) := by
  have rounds :=
    Site.Reaches.rounds (by decide)
      (firstSite_reaches_statements (.ofFiles []) {} none
        "== a\nx\n==\ny\n")
      (by decide +kernel) (by decide +kernel)
  have visits :
      Visits (.ofFiles []) {} "== a\nx\n==\ny\n" none _ :=
    .of_reaches (by decide +kernel) ((rounds.tail .round).tail .first)
  refine ⟨_, _, _, _, visits, Site.after?_eq_some_after ?_,
    peek_is_silent_iff visits (Site.after?_eq_some_after ?_)⟩
  · decide +kernel
  · decide +kernel

/-- A lookahead that comes to a knot without a name delivers a diagnostic. -/
theorem peek_delivers_at_nameless_knot :
    ∃ files levels machine after,
      Visits (.ofFiles []) {} "== a\nx\n==\ny\n" none
        ⟨files, levels, Rule.peek (statementsEnd .knot), machine⟩ ∧
      (Site.outcome (.ofFiles []) ({} : Options).maxStackDepth
          ⟨files, levels, Rule.peek (statementsEnd .knot), machine⟩).after? =
        some after ∧
      after.delivered ≠ machine.delivered := by
  have rounds :=
    Site.Reaches.rounds (by decide)
      (firstSite_reaches_statements (.ofFiles []) {} none
        "== a\nx\n==\ny\n")
      (by decide +kernel) (by decide +kernel)
  obtain ⟨stops, goesOn, piece⟩ :=
    Site.Reaches.yielded (!·) (rounds.tail .round) (by decide +kernel)
  obtain rfl : stops = false := by
    simpa using goesOn
  have statements :=
    (Site.Reaches.parsed ((piece.tail .first).tail .attempted)
      (by decide +kernel)).tail .first
  -- No line of diverts stands here, so the next rule is the one for knots.
  obtain ⟨diverts, isNone, others⟩ :=
    Site.Reaches.yielded (fun diverts => diverts.isNone)
      (Site.Reaches.parsed (statements.tail .first) (by decide +kernel))
      (by decide +kernel)
  obtain rfl : diverts = none := by
    simpa using isNone
  have knot :=
    (Site.Reaches.parsed ((others.tail .first).tail .attempted)
      (by decide +kernel)).tail .first
  obtain ⟨header, _, behindHeader⟩ :=
    Site.Reaches.yielded (fun _ => true) knot (by decide +kernel)
  obtain ⟨_, _, behindLine⟩ :=
    Site.Reaches.yielded (fun _ => true) behindHeader (by decide +kernel)
  have content :=
    Site.Reaches.parsed
      (((behindLine.tail .first).tail .first).tail .attempted)
      (by decide +kernel)
  have contentRounds :=
    Site.Reaches.rounds (by decide) content (by decide +kernel)
      (by decide +kernel)
  -- Behind the line of text, the next header is looked for.
  obtain ⟨line, secondRound⟩ :=
    Site.Reaches.again contentRounds (by decide +kernel)
  refine ⟨_, _, _, _,
    .of_reaches ?_ ((secondRound.tail .round).tail .first),
    Site.after?_eq_some_after ?_, ?_⟩
  · decide +kernel
  · decide +kernel
  · decide +kernel

end Reading

end InkSyntax
