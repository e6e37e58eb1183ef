import InkSyntax.Proofs.Reading.Quiet

namespace InkSyntax

/-!
# Headers are reported where they are malformed

The rules for the headers of knots and stitches deliver a diagnostic exactly if
the text that they read is malformed.  Up to the first complaint a header is read
quietly, so the text alone decides; after it nothing can be undelivered.
-/

namespace Machine

/-- A malformed text was complained about; another one was read quietly. -/
def Heeds
    (before after : Machine Workshop)
    (malformed : Bool)
    (rest : List Char) : Prop :=
  if malformed then Complains before after else Reads before after rest

/-- A malformed text was complained about; nothing was said about another one. -/
def Tells
    (before after : Machine Workshop)
    (malformed : Bool) : Prop :=
  if malformed then Complains before after else Quiet before after

/-- What is malformed was complained about, or what is still to be read decides. -/
def Pending
    (before after : Machine Workshop)
    (malformed : Bool)
    (verdict : List Char → Bool) : Prop :=
  Complains before after ∧ malformed = true ∨
    Quiet before after ∧ malformed = verdict after.cursor.rest

variable
    {before middle after : Machine Workshop}
    {malformed : Bool}
    {rest : List Char}

theorem Quiet.heeds
    (first : Quiet before middle)
    (second : Heeds middle after malformed rest) :
    Heeds before after malformed rest := by
  cases malformed with
  | true =>
      exact first.complains second
  | false =>
      exact first.reads second

theorem Quiet.tells
    (first : Quiet before middle)
    (second : Tells middle after malformed) :
    Tells before after malformed := by
  cases malformed with
  | true =>
      exact first.complains second
  | false =>
      exact first.trans second

theorem Heeds.closes_keep
    {machine closed : Machine Workshop}
    {nodes : List NodeId}
    (inside : Heeds machine.opened after malformed rest)
    (closes : Rule.Closes (.keep nodes) machine.nextRule after closed) :
    Heeds machine closed malformed rest := by
  cases malformed with
  | true =>
      exact Complains.closes inside closes
  | false =>
      exact Reads.closes_keep inside closes

theorem Tells.closes
    {machine closed : Machine Workshop}
    {fate : Fate}
    (inside : Tells machine.opened after malformed)
    (closes : Rule.Closes fate machine.nextRule after closed) :
    Tells machine closed malformed := by
  cases malformed with
  | true =>
      exact Complains.closes inside closes
  | false =>
      exact Quiet.closes inside closes

theorem Quiet.not_complains
    (quiet : Quiet before after) :
    ¬ Complains before after := by
  rw [Complains, quiet.delivered]
  exact Nat.lt_irrefl _

theorem Quiet.pending
    {verdict : List Char → Bool}
    (first : Quiet before middle)
    (second : Pending middle after malformed verdict) :
    Pending before after malformed verdict := by
  rcases second with ⟨complains, isMalformed⟩ | ⟨quiet, decides⟩
  · exact .inl ⟨first.complains complains, isMalformed⟩
  · exact .inr ⟨first.trans quiet, decides⟩

theorem Pending.closes
    {machine closed : Machine Workshop}
    {nodes : List NodeId}
    {verdict : List Char → Bool}
    (inside : Pending machine.opened after malformed verdict)
    (closes : Rule.Closes (.keep nodes) machine.nextRule after closed) :
    Pending machine closed malformed verdict := by
  rcases inside with ⟨complains, isMalformed⟩ | ⟨quiet, decides⟩
  · exact .inl ⟨complains.closes closes, isMalformed⟩
  · have read : Reads machine closed after.cursor.rest :=
      Reads.closes_keep ⟨quiet, rfl⟩ closes
    refine .inr ⟨read.toQuiet, ?_⟩
    rw [decides, read.rest]

theorem Complains.tells
    (complains : Complains before after)
    (isMalformed : malformed = true) :
    Tells before after malformed := by
  subst isMalformed
  exact complains

theorem Complains.quiet
    (first : Complains before middle)
    (second : Quiet middle after) :
    Complains before after :=
  first.trans_le (second.delivered ▸ Nat.le_refl _)

theorem Tells.quiet
    (first : Tells before middle malformed)
    (second : Quiet middle after) :
    Tells before after malformed := by
  cases malformed with
  | true =>
      exact Complains.quiet first second
  | false =>
      exact Quiet.trans first second

theorem Tells.length_le
    (tells : Tells before after malformed) :
    before.delivered.length ≤ after.delivered.length := by
  cases malformed with
  | true =>
      exact Nat.le_of_lt tells
  | false =>
      exact Nat.le_of_eq (congrArg List.length (Quiet.delivered tells)).symm

theorem Heeds.quiet
    (first : Heeds before middle malformed rest)
    {further : List Char}
    (second : middle.cursor.rest = rest → Reads middle after further)
    (quiet : Quiet middle after) :
    Heeds before after malformed further := by
  cases malformed with
  | true =>
      exact Complains.quiet first quiet
  | false =>
      exact first.toQuiet.reads (second first.rest)

/-- What was delivered tells whether the text was malformed. -/
theorem Tells.delivered_eq_iff
    (tells : Tells before after malformed) :
    after.delivered = before.delivered ↔ malformed = false := by
  cases malformed with
  | true =>
      constructor
      · intro same
        have more : before.delivered.length < after.delivered.length :=
          tells
        rw [same] at more
        exact absurd more (Nat.lt_irrefl _)
      · intro never
        exact Bool.noConfusion never
  | false =>
      exact ⟨fun _ => rfl, fun _ => Quiet.delivered tells⟩

end Machine

namespace Grammar

open Machine (Quiet Complains Reads Heeds Tells)

variable
    {library : Library}
    {maxDepth files levels : Nat}
    {machine : Machine Workshop}
    {α : Type}
    {onMatch : α → Machine Workshop → Prop}
    {onFailure : Machine Workshop → Prop}

theorem ensures_attempt_name
    {onMatch : Option String → Machine Workshop → Prop}
    (reads :
      ∀ after,
        Reads machine after (afterName machine.cursor.rest) →
        onMatch ((nameAt? machine.cursor.rest).map (·.1)) after) :
    Ensures library maxDepth files levels (.attempt name) machine
      onMatch onFailure := by
  refine ensures_attempt (ensures_name ?_ ?_)
  · intro word rest after nameIs read
    simp only [afterName, nameIs, Option.map_some] at reads
    exact reads after read
  · intro after noName read
    simp only [afterName, noName, Option.map_none] at reads
    exact reads after read

theorem ensures_parameterOf
    (unmarked : machine.stack.top.reported = false)
    {first second : Option String}
    {isDivertTarget : Bool}
    {onMatch : Parameter → Machine Workshop → Prop}
    (found :
      ∀ parameter after,
        (first.isNone && second.isNone) = false →
        Heeds machine after (chosenName first isDivertTarget second).isNone
          machine.cursor.rest →
        onMatch parameter after)
    (missing :
      (first.isNone && second.isNone) = true → onFailure machine) :
    Ensures library maxDepth files levels
      (parameterOf first isDivertTarget second) machine
      onMatch onFailure := by
  unfold parameterOf
  cases neither : first.isNone && second.isNone with
  | true =>
      exact missing neither
  | false =>
      rw [if_neg Bool.false_ne_true]
      cases chosen : chosenName first isDivertTarget second with
      | some word =>
          rw [chosen] at found
          exact ensures_pure (found _ machine neither (Reads.refl machine))
      | none =>
          rw [chosen] at found
          simp only [Option.isNone_none, if_true]
          split
          · exact
              ensures_bind (ensures_error unmarked fun after complains =>
                ensures_pure (found _ after neither complains))
          · exact
              ensures_bind (ensures_error unmarked fun after complains =>
                ensures_pure (found _ after neither complains))

/-- A parameter is complained about exactly if its name is missing. -/
theorem ensures_parameter
    (unmarked : machine.stack.top.reported = false)
    {onMatch : Parameter → Machine Workshop → Prop}
    (found :
      ∀ malformed rest parameter after,
        parameterAt? machine.cursor.rest = some (malformed, rest) →
        Heeds machine after malformed rest →
        onMatch parameter after)
    (missing :
      ∀ after,
        parameterAt? machine.cursor.rest = none →
        Quiet machine after →
        onFailure after) :
    Ensures library maxDepth files levels parameter machine
      onMatch onFailure := by
  unfold parameter
  refine ensures_bind (ensures_attempt_name fun afterFirst readFirst => ?_)
  refine ensures_bind (ensures_skipBlanks fun beforeArrow readBlanks => ?_)
  refine ensures_bind (ensures_optionalLiteral fun afterArrow readArrow => ?_)
  refine ensures_bind (ensures_skipBlanks fun beforeSecond readMore => ?_)
  refine ensures_bind (ensures_attempt_name fun afterSecond readSecond => ?_)
  rw [readFirst.rest, ← arrowText] at readBlanks
  rw [readBlanks.rest] at readArrow ⊢
  rw [readArrow.rest, ← secondText] at readMore
  rw [readMore.rest] at readSecond ⊢
  have read :
      Reads machine afterSecond (afterName (secondText machine.cursor.rest)) :=
    (((readFirst.toQuiet.trans readBlanks.toQuiet).trans
      readArrow.toQuiet).trans readMore.toQuiet).reads readSecond
  refine ensures_parameterOf (read.unmarked unmarked) ?_ ?_
  · intro parameter after present heeds
    rw [read.rest] at heeds
    refine found _ _ parameter after ?_ (read.toQuiet.heeds heeds)
    simp only [parameterAt?, present, Bool.false_eq_true, if_false]
  · intro neither
    refine missing afterSecond ?_ read.toQuiet
    simp only [parameterAt?, neither, if_true]

theorem ensures_spaced_parameter
    {onMatch : Parameter → Machine Workshop → Prop}
    (found :
      ∀ malformed rest parameter after,
        spacedParameterAt? machine.cursor.rest = some (malformed, rest) →
        Heeds machine after malformed rest →
        onMatch parameter after)
    (missing :
      ∀ after,
        spacedParameterAt? machine.cursor.rest = none →
        Quiet machine after →
        onFailure after) :
    Ensures library maxDepth files levels (spaced parameter) machine
      onMatch onFailure := by
  refine ensures_bind (ensures_skipBlanks fun start readBlanks => ?_)
  refine ensures_bind (ensures_parse (ensures_parameter rfl ?_ ?_))
  · intro malformed rest parameter inside parameterIs heeds closed closes
    rw [Machine.cursor_opened, readBlanks.rest] at parameterIs
    have heedsClosed := readBlanks.toQuiet.heeds (heeds.closes_keep closes)
    refine ensures_bind (ensures_skipBlanks fun after readMore => ?_)
    refine
      ensures_pure (found malformed (withoutBlanks rest) parameter after ?_ ?_)
    · simp [spacedParameterAt?, parameterIs]
    · exact
        heedsClosed.quiet (fun same => same ▸ readMore) readMore.toQuiet
  · intro inside noParameter quiet closed closes
    rw [Machine.cursor_opened, readBlanks.rest] at noParameter
    refine missing closed ?_ (readBlanks.toQuiet.trans (quiet.closes closes))
    simp [spacedParameterAt?, noParameter]

/-- Whatever runs after a complaint, it stays delivered. -/
theorem ensures_complains
    {before : Machine Workshop}
    (complains : Complains before machine)
    (rule : GrammarRule α) :
    Ensures library maxDepth files levels rule machine
      (fun _ after => Complains before after)
      (fun after => Complains before after) :=
  Outcome.ends_iff.mpr fun _ ends =>
    complains.trans_le
      (Reading.Site.delivered_prefix
        ⟨files, levels, rule, machine⟩ ends).length_le

theorem ensures_error_again
    {before : Machine Workshop}
    (complains : Complains before machine)
    {message : String}
    {onMatch : Unit → Machine Workshop → Prop}
    (complained : ∀ after, Complains before after → onMatch () after) :
    Ensures library maxDepth files levels (Rule.error message) machine
      onMatch onFailure :=
  complained _ (complains.trans_le (Reading.Extends.report _ _ _ _).1.length_le)

theorem ensures_atEnd
    {onMatch : Bool → Machine Workshop → Prop}
    (holds : onMatch machine.cursor.rest.isEmpty machine) :
    Ensures library maxDepth files levels Rule.atEnd machine
      onMatch onFailure :=
  holds

/-- Looking for nothing finds nothing. -/
theorem ensures_peek_fail
    {onMatch : Bool → Machine Workshop → Prop}
    (reads :
      ∀ after, Reads machine after machine.cursor.rest → onMatch false after) :
    Ensures library maxDepth files levels
      (Rule.peek (.fail : GrammarRule Unit)) machine
      onMatch onFailure := by
  refine Rule.ensures_scope fun _ => ?_
  intro closed closes
  exact reads closed ((Quiet.refl _).closes_undo closes)

theorem ensures_parameterPiece
    {onMatch : Step Parameter → Machine Workshop → Prop}
    (found :
      ∀ malformed rest parameter after,
        spacedParameterAt? machine.cursor.rest = some (malformed, rest) →
        Heeds machine after malformed rest →
        onMatch (.one parameter) after)
    (missing :
      ∀ after,
        spacedParameterAt? machine.cursor.rest = none →
        Reads machine after machine.cursor.rest →
        onFailure after) :
    Ensures library maxDepth files levels
      (Rule.parse (Rule.single (spaced parameter))) machine
      onMatch onFailure := by
  refine ensures_parse (ensures_bind (ensures_parse ?_))
  refine ensures_spaced_parameter ?_ ?_
  · intro malformed rest parameter inner parameterIs heeds inside closesInner
    refine ensures_pure fun closed closes => ?_
    exact
      found malformed rest parameter closed parameterIs
        ((heeds.closes_keep closesInner).closes_keep closes)
  · intro inner noParameter quiet inside closesInner closed closes
    exact
      missing closed noParameter
        ((quiet.closes closesInner).closes_undo closes)

theorem ensures_commaPiece
    {onMatch : Step Parameter → Machine Workshop → Prop}
    (found :
      ∀ more after,
        following? "," machine.cursor.rest = some more →
        Reads machine after more →
        onMatch .neutral after)
    (missing :
      ∀ after,
        following? "," machine.cursor.rest = none →
        Reads machine after machine.cursor.rest →
        onFailure after) :
    Ensures library maxDepth files levels
      (Rule.parse (Rule.dropped (Rule.literal ","))) machine
      onMatch onFailure := by
  refine ensures_parse (ensures_bind (ensures_parse ?_))
  refine ensures_literal ?_ ?_
  · intro more inner comma read inside closesInner
    refine ensures_pure fun closed closes => ?_
    exact
      found more closed comma
        ((read.closes_keep closesInner).closes_keep closes)
  · intro noComma inside closesInner closed closes
    exact
      missing closed noComma
        (((Quiet.refl _).closes closesInner).closes_undo closes)

/-- One round of a list of parameters goes from behind one to behind the next. -/
theorem ensures_parameterRound
    {before : Machine Workshop}
    {malformed : Bool}
    (quiet : Quiet before machine)
    (undecided : malformed = malformedMore machine.cursor.rest)
    (known : List Parameter) :
    Ensures library maxDepth files levels
      (Rule.alternateRound (Rule.single (spaced parameter))
        (Rule.dropped (Rule.literal ",")) (.fail : GrammarRule Unit) known)
      machine
      (fun result after =>
        match result with
        | .inl next =>
            known.length ≤ next.length ∧
              before.Pending after malformed malformedMore
        | .inr last =>
            known.length ≤ last.length ∧
              before.Pending after malformed (!closes ·))
      (fun _ => False) := by
  refine ensures_bind (ensures_peek_fail fun start readStart => ?_)
  simp only [Bool.false_eq_true, if_false]
  refine ensures_bind (ensures_attempt (ensures_commaPiece ?_ ?_))
  · intro more afterComma comma readComma
    rw [readStart.rest] at comma
    have quietComma :=
      (quiet.trans readStart.toQuiet).trans readComma.toQuiet
    have inList : malformed = malformedList afterComma.cursor.rest := by
      rw [undecided, malformedMore_of_comma comma, readComma.rest]
    refine ensures_bind (ensures_attempt (ensures_parameterPiece ?_ ?_))
    · intro badly rest parameter after parameterIs heeds
      have pending : before.Pending after malformed malformedMore := by
        cases badly with
        | true =>
            refine .inl ⟨quietComma.complains heeds, ?_⟩
            rw [inList, malformedList, parameterIs]
        | false =>
            have read : Reads afterComma after rest := heeds
            refine .inr ⟨quietComma.trans read.toQuiet, ?_⟩
            rw [inList, malformedList, parameterIs, read.rest]
      refine ensures_bind (ensures_atEnd ?_)
      cases ended : after.cursor.rest with
      | nil =>
          refine ensures_pure ⟨by simp, pending.imp_right ?_⟩
          rintro ⟨quietAfter, decides⟩
          refine ⟨quietAfter, ?_⟩
          rw [decides, ended]
          exact malformedMore_of_not_comma rfl
      | cons first others =>
          exact ensures_pure ⟨by simp, pending⟩
    · intro after noParameter read
      refine ensures_pure ⟨by simp, .inr ⟨?_, ?_⟩⟩
      · exact quietComma.trans read.toQuiet
      · rw [inList, malformedList, noParameter, read.rest]
  · intro after noComma read
    rw [readStart.rest] at noComma read
    refine ensures_pure ⟨Nat.le_refl _, .inr ⟨?_, ?_⟩⟩
    · exact (quiet.trans readStart.toQuiet).trans read.toQuiet
    · rw [undecided, malformedMore_of_not_comma noComma, read.rest]

/-- Rounds go on until what must be the end of the list, or to a complaint. -/
theorem ensures_parameterRounds
    {before : Machine Workshop}
    {malformed : Bool}
    {known : List Parameter}
    (nonempty : known ≠ [])
    (pending : before.Pending machine malformed malformedMore) :
    Ensures library maxDepth files levels
      (.loop known
        (Rule.alternateRound (Rule.single (spaced parameter))
          (Rule.dropped (Rule.literal ",")) (.fail : GrammarRule Unit)))
      machine
      (fun last after =>
        (last = [] → Complains before after) ∧
          before.Pending after malformed (!closes ·))
      (fun after => Complains before after ∧ malformed = true) := by
  refine
    ensures_loop
      (fun known machine =>
        (known = [] → Complains before machine) ∧
          before.Pending machine malformed malformedMore)
      ⟨fun empty => absurd empty nonempty, pending⟩ ?_
  rintro known machine ⟨unlessEmpty, pending⟩
  -- After a complaint nothing more has to be known about the rounds.
  by_cases complains : Complains before machine
  · obtain ⟨_, isMalformed⟩ | ⟨quiet, _⟩ := pending
    · refine
        (ensures_complains complains _).mono
          (fun result after complains => ?_)
          (fun after complains => ⟨complains, isMalformed⟩)
      cases result with
      | inl next =>
          exact ⟨fun _ => complains, .inl ⟨complains, isMalformed⟩⟩
      | inr last =>
          exact ⟨fun _ => complains, .inl ⟨complains, isMalformed⟩⟩
    · exact absurd complains quiet.not_complains
  · obtain ⟨complained, _⟩ | ⟨quiet, undecided⟩ := pending
    · exact absurd complained complains
    · refine
        (ensures_parameterRound quiet undecided known).mono
          (fun result after held => ?_) (fun after never => never.elim)
      have positive : 0 < known.length := by
        refine List.length_pos_iff.mpr fun empty => ?_
        exact complains (unlessEmpty empty)
      cases result with
      | inl next =>
          refine ⟨fun empty => ?_, held.2⟩
          subst empty
          exact absurd held.1 (Nat.not_le_of_lt positive)
      | inr last =>
          refine ⟨fun empty => ?_, held.2⟩
          subst empty
          exact absurd held.1 (Nat.not_le_of_lt positive)

/-- A list of parameters is read up to what must be its end. -/
theorem ensures_parameterList :
    Ensures library maxDepth files levels
      (Rule.alternate (Rule.single (spaced parameter))
        (Rule.dropped (Rule.literal ",")))
      machine
      (fun _ after =>
        machine.Pending after (malformedList machine.cursor.rest)
          (!closes ·))
      (fun after =>
        machine.Pending after (malformedList machine.cursor.rest)
          (!closes ·)) := by
  refine ensures_parse (ensures_bind (ensures_parameterPiece ?_ ?_))
  · intro badly rest parameter first parameterIs heeds
    rw [Machine.cursor_opened] at parameterIs
    have pending :
        machine.opened.Pending first
          (malformedList machine.cursor.rest) malformedMore := by
      cases badly with
      | true =>
          refine .inl ⟨heeds, ?_⟩
          rw [malformedList, parameterIs]
      | false =>
          have read : Reads machine.opened first rest := heeds
          refine .inr ⟨read.toQuiet, ?_⟩
          rw [malformedList, parameterIs, read.rest]
    refine ensures_bind ((ensures_parameterRounds ?_ pending).mono ?_ ?_)
    · exact List.cons_ne_nil _ _
    · rintro last after ⟨unlessEmpty, pendingAfter⟩
      cases last with
      | nil =>
          intro closed closes
          have complains := unlessEmpty rfl
          rcases pendingAfter with ⟨_, isMalformed⟩ | ⟨quiet, _⟩
          · exact .inl ⟨complains.closes closes, isMalformed⟩
          · exact absurd complains quiet.not_complains
      | cons known others =>
          exact ensures_pure fun closed closes => pendingAfter.closes closes
    · rintro after ⟨complains, isMalformed⟩ closed closes
      exact .inl ⟨complains.closes closes, isMalformed⟩
  · intro after noParameter read closed closes
    rw [Machine.cursor_opened] at noParameter
    have readClosed := read.toQuiet.closes_undo closes
    refine .inr ⟨readClosed.toQuiet, ?_⟩
    rw [malformedList, noParameter, readClosed.rest]

theorem ensures_reportExpected
    (unmarked : machine.stack.top.reported = false)
    {description : String}
    {onMatch : Unit → Machine Workshop → Prop}
    (complained : ∀ after, Complains machine after → onMatch () after) :
    Ensures library maxDepth files levels (Rule.reportExpected description)
      machine onMatch onFailure :=
  ensures_error unmarked complained

/-- Something expected that fails quietly is complained about. -/
theorem ensures_attempt_expect
    [StandsFor α]
    {rule : GrammarRule α}
    (unmarked : machine.stack.top.reported = false)
    {description : String}
    {onMatch : Option α → Machine Workshop → Prop}
    (parsed :
      Ensures library maxDepth files levels (Rule.parse rule) machine
        (fun value after => onMatch (some value) after)
        (fun after =>
          Quiet machine after ∧
            ∀ told, Complains machine told → onMatch none told)) :
    Ensures library maxDepth files levels
      (.attempt (Rule.expect rule description)) machine
      onMatch onFailure := by
  refine ensures_attempt (ensures_bind (ensures_attempt (parsed.mono ?_ ?_)))
  · intro value after held
    exact ensures_pure held
  · rintro after ⟨quiet, complained⟩
    refine
      ensures_bind (ensures_reportExpected (quiet.unmarked unmarked) ?_)
    intro told complains
    exact complained told (quiet.complains complains)

/-- A closing parenthesis that is not there is complained about. -/
theorem ensures_expect_close
    (unmarked : machine.stack.top.reported = false)
    {description : String}
    {onMatch : Option Unit → Machine Workshop → Prop}
    (tells :
      ∀ found after,
        Tells machine after (!closes machine.cursor.rest) →
        onMatch found after) :
    Ensures library maxDepth files levels
      (.attempt (Rule.expect (Rule.literal ")") description)) machine
      onMatch onFailure := by
  refine ensures_attempt_expect unmarked (ensures_parse
    (ensures_literal ?_ ?_))
  · intro rest inside follows read after ends
    have closed : closes machine.cursor.rest = true := by
      rw [← isSome_following?_close, ← Machine.cursor_opened, follows]
      rfl
    rw [closed] at tells
    exact tells (some ()) after (read.closes_keep ends).toQuiet
  · intro follows after ends
    have missing : closes machine.cursor.rest = false := by
      rw [← isSome_following?_close, ← Machine.cursor_opened, follows]
      rfl
    rw [missing] at tells
    exact ⟨(Quiet.refl _).closes ends, tells none⟩

/-- Blanks that are not there are complained about. -/
theorem ensures_expect_blanks
    (unmarked : machine.stack.top.reported = false)
    {description : String}
    {onMatch : Option Unit → Machine Workshop → Prop}
    (heeds :
      ∀ found after,
        Heeds machine after
          (!machine.cursor.rest.head?.any isInlineBlank)
          (withoutBlanks machine.cursor.rest) →
        onMatch found after) :
    Ensures library maxDepth files levels
      (.attempt (Rule.expect blanks description)) machine
      onMatch onFailure := by
  refine ensures_attempt_expect unmarked (ensures_parse
    (ensures_blanks ?_ ?_))
  · intro inside blank read after ends
    rw [Machine.cursor_opened] at blank
    rw [blank] at heeds
    exact heeds (some ()) after (read.closes_keep ends)
  · intro noBlank _ after ends
    rw [Machine.cursor_opened] at noBlank
    rw [noBlank] at heeds
    exact ⟨(Quiet.refl _).closes ends, heeds none⟩

theorem ensures_parameters
    (unmarked : machine.stack.top.reported = false)
    {onMatch : List Parameter → Machine Workshop → Prop}
    (found :
      ∀ inside list after,
        following? "(" machine.cursor.rest = some inside →
        Tells machine after (malformedList inside) →
        onMatch list after)
    (missing :
      following? "(" machine.cursor.rest = none → onFailure machine) :
    Ensures library maxDepth files levels parameters machine
      onMatch onFailure := by
  refine ensures_bind (ensures_literal ?_ missing)
  intro inside start follows readStart
  have listed :
      Ensures library maxDepth files levels
        (.attempt
          (Rule.alternate (Rule.single (spaced parameter))
            (Rule.dropped (Rule.literal ","))))
        start
        (fun _ middle =>
          start.Pending middle (malformedList start.cursor.rest) (!closes ·))
        (fun _ => False) :=
    ensures_attempt ensures_parameterList
  refine
    ensures_bind (listed.mono (fun list middle pending => ?_)
      (fun _ never => never.elim))
  rw [readStart.rest] at pending
  rcases pending with ⟨complains, isMalformed⟩ | ⟨quiet, decides⟩
  · refine ensures_bind (ensures_attempt ((ensures_complains complains _).mono
      (fun _ after complains => ?_) (fun after complains => ?_)))
    · exact
        ensures_pure (found inside _ after follows
          ((readStart.complains complains).tells isMalformed))
    · exact
        ensures_pure (found inside _ after follows
          ((readStart.complains complains).tells isMalformed))
  · have quietMiddle := readStart.toQuiet.trans quiet
    refine
      ensures_bind (ensures_expect_close (quietMiddle.unmarked unmarked) ?_)
    have decided : malformedList inside = !closes middle.cursor.rest :=
      decides
    intro closed after tells
    rw [← decided] at tells
    exact
      ensures_pure (found inside _ after follows (quietMiddle.tells tells))

/-- Parameters that need not be there are complained about if malformed. -/
theorem ensures_optionalParameters
    {onMatch : List Parameter → Machine Workshop → Prop}
    (tells :
      ∀ list after,
        Tells machine after (malformedParameters machine.cursor.rest) →
        onMatch list after) :
    Ensures library maxDepth files levels optionalParameters machine
      onMatch onFailure := by
  refine ensures_bind (ensures_skipBlanks fun start readStart => ?_)
  refine ensures_bind (ensures_attempt (ensures_parse
    (ensures_parameters rfl ?_ ?_)))
  · intro inside list inner follows told closed ends
    rw [Machine.cursor_opened, readStart.rest] at follows
    refine ensures_bind (ensures_skipBlanks fun after readAfter => ?_)
    refine ensures_pure (tells _ after ?_)
    simp only [malformedParameters, follows]
    exact
      (readStart.toQuiet.tells (told.closes ends)).quiet readAfter.toQuiet
  · intro follows closed ends
    rw [Machine.cursor_opened, readStart.rest] at follows
    refine ensures_bind (ensures_skipBlanks fun after readAfter => ?_)
    refine ensures_pure (tells _ after ?_)
    simp only [malformedParameters, follows]
    exact
      (readStart.toQuiet.trans ((Quiet.refl _).closes ends)).trans
        readAfter.toQuiet

theorem ensures_knotMark
    {onMatch : Unit → Machine Workshop → Prop}
    (found :
      ∀ after,
        1 < (machine.cursor.rest.takeWhile isEqualsSign).length →
        Reads machine after
          (machine.cursor.rest.drop
            (machine.cursor.rest.takeWhile isEqualsSign).length) →
        onMatch () after)
    (missing :
      ∀ after,
        ¬ 1 < (machine.cursor.rest.takeWhile isEqualsSign).length →
        Quiet machine after →
        onFailure after) :
    Ensures library maxDepth files levels knotMark machine
      onMatch onFailure := by
  refine ensures_bind (ensures_chars ?_ ?_)
  · intro after _ read
    refine ensures_require ?_ ?_
    · intro enough
      exact found after (by simpa using enough) read
    · intro few
      exact missing after (by simpa using few) read.toQuiet
  · intro empty
    refine missing machine ?_ (.refl machine)
    simp [empty]

/-- The name of a function is complained about if no blank is before it. -/
theorem ensures_functionName
    (unmarked : machine.stack.top.reported = false)
    {onMatch : Option NodeId → Machine Workshop → Prop}
    (pending :
      ∀ found after,
        machine.Pending after (malformedFunction machine.cursor.rest)
          (fun rest => found.isNone || malformedParameters rest) →
        onMatch found after) :
    Ensures library maxDepth files levels functionName machine
      onMatch onFailure := by
  refine ensures_bind (ensures_expect_blanks unmarked fun _ start heeds => ?_)
  cases blank : machine.cursor.rest.head?.any isInlineBlank with
  | false =>
      rw [blank] at heeds
      have isMalformed : malformedFunction machine.cursor.rest = true := by
        simp [malformedFunction, blank]
      refine (ensures_attempt ((ensures_complains heeds _).mono ?_ ?_))
      · intro id after complains
        exact pending (some id) after (.inl ⟨complains, isMalformed⟩)
      · intro after complains
        exact pending none after (.inl ⟨complains, isMalformed⟩)
  | true =>
      rw [blank] at heeds
      have read :
          Reads machine start (withoutBlanks machine.cursor.rest) :=
        heeds
      refine ensures_attempt (ensures_parse_identifier ?_ ?_)
      · intro word rest id after nameIs readName _
        rw [read.rest] at nameIs
        refine pending (some id) after (.inr ⟨?_, ?_⟩)
        · exact read.toQuiet.trans readName.toQuiet
        · simp [malformedFunction, blank, nameIs, readName.rest]
      · intro after noName readName
        rw [read.rest] at noName
        refine pending none after (.inr ⟨?_, ?_⟩)
        · exact read.toQuiet.trans readName.toQuiet
        · simp [malformedFunction, blank, noName]

/-- Up to its name a header is read quietly, or a missing blank is complained about. -/
theorem ensures_knotName
    (unmarked : machine.stack.top.reported = false)
    {onMatch : Bool × Option NodeId → Machine Workshop → Prop}
    (pending :
      ∀ isFunction found after,
        machine.Pending after (malformedName machine.cursor.rest)
          (fun rest => found.isNone || malformedParameters rest) →
        onMatch (isFunction, found) after) :
    Ensures library maxDepth files levels knotName machine
      onMatch onFailure := by
  refine ensures_bind (ensures_attempt (ensures_parse_identifier ?_ ?_))
  · intro word rest id start nameIs read known
    refine ensures_bind (ensures_identifierName known ?_)
    cases isFunction : word == "function" with
    | true =>
        refine ensures_bind
          (ensures_functionName (read.unmarked unmarked) ?_)
        intro found after undecided
        refine ensures_pure (pending true found after ?_)
        have same :
            malformedName machine.cursor.rest =
              malformedFunction start.cursor.rest := by
          simp [malformedName, nameIs, isFunction, read.rest]
        rw [same]
        exact read.toQuiet.pending undecided
    | false =>
        refine ensures_pure (pending false (some id) start (.inr ⟨?_, ?_⟩))
        · exact read.toQuiet
        · simp [malformedName, nameIs, isFunction, read.rest]
  · intro after noName read
    refine ensures_pure (pending false none after (.inr ⟨?_, ?_⟩))
    · exact read.toQuiet
    · simp [malformedName, noName]

/-- A name that is missing is complained about. -/
theorem ensures_requiredName
    {before : Machine Workshop}
    (unmarked : before.stack.top.reported = false)
    {malformed isFunction : Bool}
    {found : Option NodeId}
    (undecided :
      before.Pending machine malformed
        (fun rest => found.isNone || malformedParameters rest))
    {onMatch : NodeId → Machine Workshop → Prop}
    (pending :
      ∀ name after,
        before.Pending after malformed malformedParameters →
        onMatch name after) :
    Ensures library maxDepth files levels (requiredName isFunction found)
      machine onMatch onFailure := by
  cases found with
  | some name =>
      exact ensures_pure (pending name machine undecided)
  | none =>
      rcases undecided with ⟨complains, isMalformed⟩ | ⟨quiet, decides⟩
      · refine ensures_bind (ensures_error_again complains ?_)
        intro told complains
        refine ensures_make fun id after read _ => ?_
        exact
          pending id after (.inl ⟨complains.quiet read.toQuiet, isMalformed⟩)
      · refine ensures_bind (ensures_error (quiet.unmarked unmarked) ?_)
        intro told complains
        refine ensures_make fun id after read _ => ?_
        have complainsAfter :=
          (quiet.complains complains).quiet read.toQuiet
        exact pending id after (.inl ⟨complainsAfter, by simpa using decides⟩)

/-- Parameters decide what is still undecided about a header. -/
theorem ensures_undecidedParameters
    {before : Machine Workshop}
    {malformed : Bool}
    (undecided : before.Pending machine malformed malformedParameters)
    {onMatch : List Parameter → Machine Workshop → Prop}
    (tells :
      ∀ list after, Tells before after malformed → onMatch list after) :
    Ensures library maxDepth files levels optionalParameters machine
      onMatch onFailure := by
  refine ensures_optionalParameters fun list after told => ?_
  refine tells list after ?_
  rcases undecided with ⟨complains, isMalformed⟩ | ⟨quiet, decides⟩
  · exact (complains.trans_le told.length_le).tells isMalformed
  · rw [decides]
    exact quiet.tells told

theorem ensures_knotHeader
    (unmarked : machine.stack.top.reported = false)
    {onMatch : FlowHeader → Machine Workshop → Prop}
    (found :
      ∀ header after,
        startsKnot machine.cursor.rest = true →
        Tells machine after (malformedKnot machine.cursor.rest) →
        onMatch header after)
    (missing :
      ∀ after,
        startsKnot machine.cursor.rest = false →
        Quiet machine after →
        onFailure after) :
    Ensures library maxDepth files levels knotHeader machine
      onMatch onFailure := by
  refine ensures_bind (ensures_skipBlanks fun start readStart => ?_)
  refine ensures_bind (ensures_knotMark ?_ ?_)
  · intro signed enough readSigns
    rw [readStart.rest] at enough readSigns
    have starts : startsKnot machine.cursor.rest = true :=
      decide_eq_true enough
    refine ensures_bind (ensures_skipBlanks fun named readBlanks => ?_)
    rw [readSigns.rest] at readBlanks
    have read :=
      (readStart.toQuiet.trans readSigns.toQuiet).reads readBlanks
    refine ensures_bind (ensures_knotName (read.unmarked unmarked) ?_)
    intro isFunction name afterName undecided
    have same :
        malformedName named.cursor.rest =
          malformedKnot machine.cursor.rest := by
      simp only [malformedKnot, starts, Bool.true_and, read.rest]
      rfl
    rw [same] at undecided
    refine ensures_bind (ensures_requiredName unmarked
      (read.toQuiet.pending undecided) ?_)
    intro id afterId undecidedId
    refine ensures_bind (ensures_undecidedParameters undecidedId ?_)
    intro parameters afterParameters tells
    refine ensures_bind (ensures_attempt (ensures_parse
      (ensures_knotMark ?_ ?_)))
    · intro inside _ readMark closed ends
      exact
        ensures_pure (found _ closed starts
          (tells.quiet (readMark.toQuiet.closes ends)))
    · intro inside _ quiet closed ends
      exact
        ensures_pure (found _ closed starts (tells.quiet (quiet.closes ends)))
  · intro after few quiet
    rw [readStart.rest] at few
    exact
      missing after (decide_eq_false few) (readStart.toQuiet.trans quiet)

theorem ensures_stitchKeyword
    {onMatch : Bool → Machine Workshop → Prop}
    (reads :
      ∀ isFunction after,
        Reads machine after (stitchText machine.cursor.rest) →
        onMatch isFunction after) :
    Ensures library maxDepth files levels stitchKeyword machine
      onMatch onFailure := by
  refine ensures_bind (ensures_optionalLiteral fun start readStart => ?_)
  cases follows : following? "function" machine.cursor.rest with
  | none =>
      rw [follows] at readStart
      refine ensures_pure (reads false start ?_)
      simp only [stitchText, follows]
      exact readStart
  | some rest =>
      rw [follows] at readStart
      refine ensures_bind (ensures_skipBlanks fun after readBlanks => ?_)
      rw [readStart.rest] at readBlanks
      refine ensures_pure (reads true after ?_)
      simp only [stitchText, follows]
      exact readStart.toQuiet.reads readBlanks

theorem ensures_stitchHeader
    {onMatch : FlowHeader → Machine Workshop → Prop}
    (found :
      ∀ header after,
        Tells machine after (malformedStitch machine.cursor.rest) →
        onMatch header after)
    (missing :
      ∀ after,
        malformedStitch machine.cursor.rest = false →
        Quiet machine after →
        onFailure after) :
    Ensures library maxDepth files levels stitchHeader machine
      onMatch onFailure := by
  refine ensures_bind (ensures_skipBlanks fun start readStart => ?_)
  refine ensures_bind (ensures_literal ?_ ?_)
  · intro rest signed follows readSign
    rw [readStart.rest] at follows
    have read := readStart.toQuiet.reads readSign
    refine ensures_bind (ensures_optionalLiteral fun second readSecond => ?_)
    rw [readSign.rest] at readSecond ⊢
    cases again : following? "=" rest with
    | some more =>
        refine missing second ?_ (read.toQuiet.trans readSecond.toQuiet)
        simp [malformedStitch, follows, again]
    | none =>
        rw [again] at readSecond
        have readOne := read.toQuiet.reads readSecond
        refine ensures_bind (ensures_skipBlanks fun third readBlanks => ?_)
        refine ensures_bind (ensures_stitchKeyword fun _ fourth readWord => ?_)
        rw [readSecond.rest, Option.getD_none] at readBlanks
        rw [readBlanks.rest] at readWord
        have readAll :=
          (readOne.toQuiet.trans readBlanks.toQuiet).reads readWord
        refine ensures_bind (ensures_parse_identifier ?_ ?_)
        · intro word further id named nameIs readName _
          rw [readAll.rest] at nameIs
          refine ensures_bind (ensures_optionalParameters ?_)
          intro list after tells
          refine ensures_pure (found _ after ?_)
          rw [readName.rest] at tells
          have same :
              malformedStitch machine.cursor.rest =
                malformedParameters further := by
            simp [malformedStitch, follows, again, nameIs]
          rw [same]
          exact (readAll.toQuiet.trans readName.toQuiet).tells tells
        · intro after noName readName
          rw [readAll.rest] at noName
          refine missing after ?_ (readAll.toQuiet.trans readName.toQuiet)
          simp [malformedStitch, follows, again, noName]
  · intro follows
    rw [readStart.rest] at follows
    refine missing start ?_ readStart.toQuiet
    simp [malformedStitch, follows]

end Grammar

end InkSyntax
