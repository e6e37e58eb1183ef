import InkSyntax.Proofs.Grammar.CastBuilding
import InkSyntax.Proofs.Reading.Alternations
import InkSyntax.Proofs.Reading.DivertChains

namespace InkSyntax.Grammar

/-!
# Content with bars in it

Prose gives some node wherever it is read, so a stretch between two bars is empty only
where there is no prose.  Each stretch is read up to the next bar of its own level, and
the pieces that come of it tell where a stretch was empty.
-/

open Machine (SamePlace)
open Reading (Site acts performs)

variable
    {library : Library}
    {maxDepth files levels : Nat}
    {machine : Machine Workshop}

section Prose

/-- Only single arrows give no nodes. -/
theorem yields_chain
    (isFirst : Bool)
    (links : List Link) :
    (chain isFirst links).Yields fun nodes =>
      nodes = [] → ∀ link ∈ links, link = .arrow .plain := by
  induction links generalizing isFirst with
  | nil =>
      exact .pure fun _ => List.forall_mem_nil _
  | cons link rest inductionHypothesis =>
      rcases link with (_ | _) | divert
      · intro handle machine
        refine (inductionHypothesis false handle machine).mono ?_ fun _ _ => trivial
        intro nodes _ allPlain isEmpty
        exact List.forall_mem_cons.mpr ⟨rfl, allPlain isEmpty⟩
      · have single (after : Option NodeId) :
            (do return [← make (.tunnelOnwards after)] :
              GrammarRule (List NodeId)).Yields fun nodes =>
              nodes = [] →
                ∀ link ∈ Link.arrow .onwards :: rest, link = .arrow .plain :=
          .behind fun _ => .pure fun isEmpty => absurd isEmpty (List.cons_ne_nil _ _)
        simp only [chain]
        exact .ite (fun _ => .behind fun _ => single _) fun _ => single _
      · have goesOn :
            (do return divert :: (← chain false rest) :
              GrammarRule (List NodeId)).Yields fun nodes =>
              nodes = [] →
                ∀ link ∈ Link.target divert :: rest, link = .arrow .plain :=
          .behind fun _ => .pure fun isEmpty => absurd isEmpty (List.cons_ne_nil _ _)
        simp only [chain]
        exact .ite (fun _ => .behind fun _ => goesOn) fun _ => goesOn

/-- Two single arrows never follow each other, as the links of a chain are in turn. -/
theorem AreLinks.length_eq_one
    {links : List Link}
    (areLinks : AreLinks links machine)
    (allPlain : ∀ link ∈ links, link = .arrow .plain) :
    links.length = 1 := by
  obtain ⟨nonempty, inTurn, -⟩ := areLinks
  match links, inTurn with
  | [], _ =>
      exact absurd rfl nonempty
  | [.arrow _], _ =>
      rfl
  | .arrow _ :: .target divert :: _, _ =>
      cases allPlain (.target divert) (by simp)

theorem ensures_diverts :
    Ensures library maxDepth files levels diverts machine
      (fun nodes _ => nodes ≠ []) (fun _ => True) := by
  apply ensures_behind
  intro _ _
  apply ensures_behind
  intro found _
  cases found with
  | some divert =>
      exact ensures_pure (List.cons_ne_nil _ _)
  | none =>
      apply ensures_bind
      apply ensures_chainLinks.mono _ fun _ _ => trivial
      intro links _ areLinks
      apply ensures_behind
      intro markers chained
      apply ensures_bind
      apply Outcome.Ensures.mono (yields_chain true links _ chained) _
        fun _ _ => trivial
      intro nodes _ allPlain
      split
      next =>
        apply ensures_behind
        intro empty _
        apply ensures_behind
        intro _ _
        split
        · apply ensures_behind
          intro _ _
          exact ensures_pure (by simp)
        · exact ensures_pure (by simp)
      next notAlone =>
        apply ensures_pure
        intro isEmpty
        have noNodes := (List.append_eq_nil_iff.mp isEmpty).2
        have alone := areLinks.length_eq_one (allPlain noNodes)
        simp [noNodes, alone] at notAlone

theorem ensures_proseEnding :
    Ensures library maxDepth files levels proseEnding machine
      (fun ending _ => ∀ nodes ∈ ending, nodes ≠ []) (fun _ => True) := by
  apply ensures_behind
  intro isInChoice _
  split
  · exact ensures_pure nofun
  · apply ensures_attempt
    apply ensures_parse
    apply ensures_diverts.mono
    · rintro ending _ notEmpty _ - _ ⟨⟩
      exact notEmpty
    · rintro _ - _ - _ ⟨⟩

/-- Prose gives some node, as it fails where it has neither items nor diverts. -/
theorem ensures_mixedProse :
    Ensures library maxDepth files levels mixedProse machine
      (fun nodes _ => nodes ≠ []) (fun _ => True) := by
  apply ensures_bind
  apply Outcome.Ensures.mono
    ((Rule.yields_alternate (Rule.optionally text)
      (Rule.optionally (Rule.oneOf [braces, glue, openTag]))).attempt _ machine) _
    fun _ _ => trivial
  intro items _ someItems
  apply ensures_bind
  apply ensures_proseEnding.mono _ fun _ _ => trivial
  intro ending _ someEnding
  match ending, items with
  | none, none =>
      trivial
  | none, some items =>
      exact ensures_pure (someItems items rfl)
  | some ending, items =>
      apply ensures_behind
      intro markers _
      apply ensures_behind
      intro _ _
      apply ensures_pure
      simp [someEnding ending rfl]

theorem ensures_prose :
    Ensures library maxDepth files levels prose machine
      (fun nodes _ => nodes ≠ []) (fun _ => True) := by
  cases levels with
  | zero =>
      trivial
  | succ levels =>
      exact ensures_mixedProse

end Prose

section Stretches

variable
    (library : Library)
    (maxDepth files levels : Nat)

/-- From one machine to another, content is read as prose, or there is none.

Prose is tried in two scopes, and without it the stretch stops where it starts. -/
inductive ReadsStretch :
    Machine Workshop → List NodeId → Machine Workshop → Prop where
  | ofProse
      {start inside stop : Machine Workshop}
      {content : List NodeId}
      (reads :
        Site.outcome library maxDepth
            ⟨files, levels, prose, start.opened.opened⟩ =
          .matched content inside)
      (stops : SamePlace Workshop.made inside stop) :
      ReadsStretch start content stop
  | nothing
      {start inside stop : Machine Workshop}
      (fails :
        Site.outcome library maxDepth
            ⟨files, levels, prose, start.opened.opened⟩ =
          .failed inside)
      (stops : SamePlace Workshop.made start stop) :
      ReadsStretch start [] stop

/-- Stretches of content with so many bars between them, up to where no bar follows.

Each stretch starts directly behind the bar in front of it. -/
inductive PartedByBars :
    Machine Workshop → Nat → List (List NodeId) → Machine Workshop → Prop where
  | last
      {start stop : Machine Workshop}
      {content : List NodeId}
      (reads : ReadsStretch library maxDepth files levels start content stop)
      (noBar : stop.cursor.rest.head? ≠ some '|') :
      PartedByBars start 0 [content] stop
  | bar
      {start stop behind reached : Machine Workshop}
      {content : List NodeId}
      {bars : Nat}
      {others : List (List NodeId)}
      (reads : ReadsStretch library maxDepth files levels start content stop)
      (isBar : stop.cursor.rest.head? = some '|')
      (passes :
        SamePlace Workshop.made (stop.moveTo (stop.cursor.advance 1)) behind)
      (parted : PartedByBars behind bars others reached) :
      PartedByBars start (bars + 1) (content :: others) reached

variable
    {library maxDepth files levels}
    {start stop reached : Machine Workshop}
    {content : List NodeId}
    {bars : Nat}
    {alternatives : List (List NodeId)}

/-- A stretch has no content exactly where nothing was read. -/
theorem ReadsStretch.content_eq_nil_iff
    (reads : ReadsStretch library maxDepth files levels start content stop) :
    content = [] ↔ stop.cursor = start.cursor := by
  cases reads with
  | ofProse reads stops =>
      have nonempty := (Outcome.ensures_iff.mp ensures_prose).1 _ _ reads
      have consumes : prose.Consumes (acts library maxDepth) := consumes_prose
      have moved :=
        (Outcome.ensures_iff.mp (consumes (files, levels) _)).1 _ _ reads trivial
      refine iff_of_false nonempty fun same => ?_
      rw [stops.cursor] at same
      exact Nat.lt_irrefl _ (same ▸ moved)
  | nothing fails stops =>
      exact iff_of_true rfl stops.cursor

theorem ReadsStretch.stops_same
    {after : Machine Workshop}
    (reads : ReadsStretch library maxDepth files levels start content stop)
    (place : SamePlace Workshop.made stop after) :
    ReadsStretch library maxDepth files levels start content after := by
  cases reads with
  | ofProse reads stops =>
      exact .ofProse reads (stops.trans place)
  | nothing fails stops =>
      exact .nothing fails (stops.trans place)

theorem PartedByBars.length_eq
    (parted : PartedByBars library maxDepth files levels start bars alternatives reached) :
    alternatives.length = bars + 1 := by
  induction parted with
  | last =>
      rfl
  | bar _ _ _ _ inductionHypothesis =>
      rw [List.length_cons, inductionHypothesis]

/-- A scope of its own changes nothing that depends on the place only. -/
theorem ensures_parse_samePlace
    {α : Type}
    [StandsFor α]
    {rule : GrammarRule α}
    {onMatch : α → Machine Workshop → Prop}
    (failed : Prop)
    (inside :
      Ensures library maxDepth files levels rule machine.opened onMatch
        fun _ => failed)
    (stays :
      ∀ {value : α} {first second : Machine Workshop},
        onMatch value first →
        SamePlace Workshop.made first second →
        onMatch value second) :
    Ensures library maxDepth files levels (Rule.parse rule) machine onMatch
      (fun after => failed ∧ SamePlace Workshop.made machine after) := by
  have ran := Outcome.ensures_iff.mp inside
  refine
    (Rule.ensures_parse_place Workshop.allocates_made
      (Reading.extending_performs library maxDepth files levels) rule
      machine).mono ?_ ?_
  · rintro value after ⟨middle, matched, place⟩
    exact stays (ran.1 value middle matched) place
  · rintro after ⟨⟨middle, fails⟩, place⟩
    exact ⟨ran.2 middle fails, place⟩

/-- Content or nothing, as a piece of an alternation. -/
abbrev contentPiece : GrammarRule (Step BarPiece) :=
  Rule.optionally do return .content (← prose)

/-- A bar as a piece of an alternation. -/
abbrev barPiece : GrammarRule (Step BarPiece) :=
  Rule.single do
    Rule.literal "|"
    return .bar

/-- The piece for the content of a stretch. -/
def pieceOf (content : List NodeId) : Step BarPiece :=
  if content = [] then .neutral else .one (.content content)

/-- Content, or nothing, is read as a stretch. -/
theorem ensures_contentPiece :
    Ensures library maxDepth files levels
      (Rule.parse contentPiece) machine
      (fun piece after =>
        ∃ content,
          piece = pieceOf content ∧
            ReadsStretch library maxDepth files levels machine content after)
      (fun _ => False) := by
  have reads :
      Ensures library maxDepth files levels
        (do return BarPiece.content (← prose)) machine.opened.opened
        (fun piece after =>
          ∃ content,
            piece = .content content ∧
              content ≠ [] ∧
              ReadsStretch library maxDepth files levels machine content after)
        (fun _ =>
          ∃ inside,
            Site.outcome library maxDepth
                ⟨files, levels, prose, machine.opened.opened⟩ =
              .failed inside) := by
    apply ensures_bind
    refine Outcome.ensures_iff.mpr ⟨fun content after reads => ?_, fun after fails => ?_⟩
    · have nonempty :=
        (Outcome.ensures_iff.mp ensures_prose).1 content after reads
      exact ensures_pure ⟨content, rfl, nonempty, .ofProse reads (.refl _)⟩
    · exact ⟨after, fails⟩
  have opens : SamePlace Workshop.made machine machine.opened := ⟨rfl, rfl, rfl⟩
  refine
    (ensures_parse_samePlace False ?_ ?_).mono (fun _ _ => id)
      fun _ => And.left
  · apply ensures_bind
    apply ensures_attempt
    refine (ensures_parse_samePlace _ reads ?_).mono ?_ ?_
    · rintro piece first second ⟨content, isPiece, nonempty, reads⟩ place
      exact ⟨content, isPiece, nonempty, reads.stops_same place⟩
    · rintro _ after ⟨content, rfl, nonempty, reads⟩
      exact ensures_pure ⟨content, (if_neg nonempty).symm, reads⟩
    · rintro after ⟨⟨inside, fails⟩, place⟩
      exact ensures_pure ⟨[], rfl, .nothing fails (opens.trans place)⟩
  · rintro piece first second ⟨content, isPiece, reads⟩ place
    exact ⟨content, isPiece, reads.stops_same place⟩

/-- A bar is read where one stands, and it is passed. -/
theorem ensures_bar :
    Ensures library maxDepth files levels
      (do
        Rule.literal "|"
        return BarPiece.bar) machine
      (fun piece after =>
        piece = .bar ∧
          machine.cursor.rest.head? = some '|' ∧
          SamePlace Workshop.made (machine.moveTo (machine.cursor.advance 1)) after)
      (fun _ => machine.cursor.rest.head? ≠ some '|') := by
  apply ensures_bind
  refine Rule.ensures_scan.mpr ?_
  match machine.cursor.rest with
  | [] =>
      exact nofun
  | first :: rest =>
      by_cases isBar : first = '|'
      · subst isBar
        exact ⟨rfl, rfl, .refl _⟩
      · have scans : Scanner.exactly "|".toList (first :: rest) = none := by
          simp [Scanner.exactly, Ne.symm isBar]
        rw [scans]
        simpa using isBar

theorem ensures_barPiece :
    Ensures library maxDepth files levels
      (Rule.parse barPiece) machine
      (fun piece after =>
        piece = .one .bar ∧
          machine.cursor.rest.head? = some '|' ∧
          SamePlace Workshop.made (machine.moveTo (machine.cursor.advance 1)) after)
      (fun _ => machine.cursor.rest.head? ≠ some '|') := by
  refine
    (ensures_parse_samePlace (machine.cursor.rest.head? ≠ some '|') ?_ ?_).mono
      (fun _ _ => id) fun _ => And.left
  · apply ensures_bind
    refine (ensures_parse_samePlace _ ensures_bar ?_).mono ?_ fun _ => And.left
    · rintro piece first second ⟨isPiece, isBar, passes⟩ place
      exact ⟨isPiece, isBar, passes.trans place⟩
    · rintro _ after ⟨rfl, isBar, passes⟩
      have opens :
          SamePlace Workshop.made (machine.moveTo (machine.cursor.advance 1))
            (machine.opened.opened.moveTo
              (machine.opened.opened.cursor.advance 1)) :=
        ⟨rfl, rfl, rfl⟩
      exact ensures_pure ⟨rfl, isBar, opens.trans passes⟩
  · rintro piece first second ⟨isPiece, isBar, passes⟩ place
    exact ⟨isPiece, isBar, passes.trans place⟩

/-- A bar ends what stands in front of it, content or nothing. -/
theorem alternativesOf_pieceOf_bar
    (content : List NodeId)
    (others : List (Step BarPiece)) :
    alternativesOf false
        ((pieceOf content).values ++ (.one .bar :: others).flatMap Step.values) =
      content :: alternativesOf false (others.flatMap Step.values) := by
  unfold pieceOf
  split
  · next isEmpty =>
      rw [isEmpty]
      rfl
  · rfl

theorem alternativesOf_pieceOf
    (content : List NodeId) :
    alternativesOf false (pieceOf content).values = [content] := by
  unfold pieceOf
  split
  · next isEmpty =>
      rw [isEmpty]
      rfl
  · rfl

theorem samePlace_step
    {first second : Machine Workshop}
    (place : SamePlace Workshop.made first second) :
    SamePlace Workshop.made (first.moveTo (first.cursor.advance 1))
      (second.moveTo (second.cursor.advance 1)) :=
  ⟨congrArg (Cursor.advance · 1) place.cursor, place.flags, place.allocated⟩

/-- Looking ahead for what never comes finds nothing and changes nothing. -/
theorem ensures_peek_never :
    Ensures library maxDepth files levels
      (Rule.peek (Rule.fail : GrammarRule Unit)) machine
      (fun found ahead => found = false ∧ SamePlace Workshop.made machine ahead)
      (fun _ => False) := by
  refine
    (Rule.ensures_peek_place Workshop.allocates_made
      (Reading.extending_performs library maxDepth files levels) Rule.fail
      machine).mono ?_ fun _ => id
  rintro found ahead ⟨found_iff, place⟩
  refine ⟨Bool.eq_false_iff.mpr fun isFound => ?_, place⟩
  obtain ⟨value, inside, matched⟩ := found_iff.mp isFound
  cases matched

/-- Behind a stretch, rounds read a bar and a stretch each, up to where no bar follows. -/
theorem exists_partedByBars_of_rounds
    {others : List (Step BarPiece)}
    (rounds :
      Rule.Rounds (performs library maxDepth files levels) contentPiece barPiece
        (Rule.fail : GrammarRule Unit) stop others reached)
    (reads : ReadsStretch library maxDepth files levels start content stop) :
    ∃ bars,
      PartedByBars library maxDepth files levels start bars
        (alternativesOf false
          ((pieceOf content).values ++ others.flatMap Step.values))
        reached := by
  have peeks {machine ahead : Machine Workshop} {found : Bool}
      (peeked :
        (Rule.peek (Rule.fail : GrammarRule Unit)).run
            (performs library maxDepth files levels) machine =
          .matched found ahead) :=
    (Outcome.ensures_iff.mp ensures_peek_never).1 found ahead peeked
  have bars {ahead behind : Machine Workshop} {piece : Step BarPiece}
      (ran :
        (Rule.parse barPiece).run (performs library maxDepth files levels) ahead =
          .matched piece behind) :=
    (Outcome.ensures_iff.mp ensures_barPiece).1 piece behind ran
  have contents {start stop : Machine Workshop} {piece : Step BarPiece}
      (ran :
        (Rule.parse contentPiece).run (performs library maxDepth files levels)
            start =
          .matched piece stop) :=
    (Outcome.ensures_iff.mp ensures_contentPiece).1 piece stop ran
  induction rounds generalizing start content with
  | stops stops =>
      cases (peeks stops).1
  | innerFails clear fails =>
      have noBar := (Outcome.ensures_iff.mp ensures_barPiece).2 _ fails
      rw [(peeks clear).2.cursor] at noBar
      rw [List.flatMap_nil, List.append_nil, alternativesOf_pieceOf]
      exact ⟨0, .last reads noBar⟩
  | outerFails clear ran fails =>
      exact ((Outcome.ensures_iff.mp ensures_contentPiece).2 _ fails).elim
  | @exhausted machine ahead middle last main next clear ran ranOn exhausted =>
      have place := (peeks clear).2
      obtain ⟨rfl, isBar, passes⟩ := bars ran
      obtain ⟨next, rfl, readsNext⟩ := contents ranOn
      rw [place.cursor] at isBar
      -- A bar is not neutral, so nothing is left here.
      have atEnd : last.cursor.rest = [] :=
        exhausted.resolve_left fun ⟨neutral, _⟩ => nomatch neutral
      have noBar : last.cursor.rest.head? ≠ some '|' := by
        rw [atEnd]
        exact nofun
      have parted :=
        PartedByBars.bar reads isBar ((samePlace_step place).trans passes)
          (.last readsNext noBar)
      refine ⟨1, ?_⟩
      rw [alternativesOf_pieceOf_bar, List.flatMap_singleton,
        alternativesOf_pieceOf]
      exact parted
  | again clear ran ranOn goesOn rounds inductionHypothesis =>
      have place := (peeks clear).2
      obtain ⟨rfl, isBar, passes⟩ := bars ran
      obtain ⟨next, rfl, readsNext⟩ := contents ranOn
      rw [place.cursor] at isBar
      obtain ⟨bars, parted⟩ := inductionHypothesis readsNext
      have more :=
        PartedByBars.bar reads isBar ((samePlace_step place).trans passes) parted
      refine ⟨bars + 1, ?_⟩
      rw [alternativesOf_pieceOf_bar, List.flatMap_cons]
      exact more

/-- Content is parted at its bars: with so many of them it has one alternative more.

Each alternative is what is read between one bar and the next, and it is empty exactly
where nothing was read there. -/
theorem barSeparated_parts_at_bars
    {after : Machine Workshop}
    (matched :
      Site.outcome library maxDepth ⟨files, levels, barSeparated, machine⟩ =
        .matched alternatives after) :
    (∃ bars reached,
        PartedByBars library maxDepth files levels machine.opened bars alternatives
            reached ∧
          SamePlace Workshop.made reached after ∧
          alternatives.length = bars + 1) ∧
      ∀ {start stop : Machine Workshop} {content : List NodeId},
        ReadsStretch library maxDepth files levels start content stop →
        (content = [] ↔ stop.cursor = start.cursor) := by
  refine ⟨?_, ReadsStretch.content_eq_nil_iff⟩
  obtain ⟨pieces, ended, collects, gives⟩ := Outcome.andThen_eq_matched_iff.mp matched
  obtain ⟨rfl, rfl⟩ := Outcome.matched.inj gives
  obtain ⟨steps, reached, collected, rfl, -, place⟩ :=
    (Outcome.ensures_iff.mp
      (Rule.ensures_alternateUntil Workshop.allocates_made
        (Reading.extending_performs library maxDepth files levels) contentPiece
        barPiece (Rule.fail : GrammarRule Unit) machine)).1 pieces ended collects
  obtain ⟨ran, rounds⟩ := collected
  obtain ⟨content, rfl, reads⟩ :=
    (Outcome.ensures_iff.mp ensures_contentPiece).1 _ _ ran
  obtain ⟨bars, parted⟩ := exists_partedByBars_of_rounds rounds reads
  rw [List.flatMap_cons]
  exact ⟨bars, reached, parted, place, parted.length_eq⟩

/-- Bars around a word and braces with a bar of their own: the outer two part three. -/
theorem barSeparated_parts_at_bars_around_braces :
    let start : Machine Workshop :=
      .start "|a\x7bb|c\x7d|".toList 200 { file := none, session := {} }
    ∃ after reached,
      Site.outcome (.ofFiles []) 200 ⟨0, 9, barSeparated, start⟩ =
          .matched [[], [⟨0⟩, ⟨6⟩], []] after ∧
        after.cursor.rest = [] ∧
        PartedByBars (.ofFiles []) 200 0 9 start.opened 2 [[], [⟨0⟩, ⟨6⟩], []]
          reached ∧
        SamePlace Workshop.made reached after := by
  intro start
  let site : Site := ⟨0, 9, barSeparated, start⟩
  have evaluated :
      site.yields (.ofFiles []) 200 (· == [[], [⟨0⟩, ⟨6⟩], []]) = true ∧
        (site.after (.ofFiles []) 200).cursor.rest = [] := by
    decide +kernel
  obtain ⟨yields, rest⟩ := evaluated
  obtain ⟨alternatives, asExpected, matched⟩ := Site.exists_matched_of_yields yields
  obtain rfl : alternatives = [[], [⟨0⟩, ⟨6⟩], []] := eq_of_beq asExpected
  obtain ⟨⟨bars, reached, parted, place, length⟩, -⟩ :=
    barSeparated_parts_at_bars matched
  obtain rfl : bars = 2 := (Nat.succ.inj length).symm
  exact ⟨_, reached, matched, rest, parted, place⟩

end Stretches

end InkSyntax.Grammar
