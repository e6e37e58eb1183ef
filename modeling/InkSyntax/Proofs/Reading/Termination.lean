import InkSyntax.Proofs.Comments
import InkSyntax.Proofs.Grammar.AdvancingRules
import InkSyntax.Proofs.Reading.OpenFiles

namespace InkSyntax

/-!
# Readings come to an end

Wherever a reading comes by a repetition, a round that asks for another one has
consumed text, as long as carriage returns have line feeds behind them.  So a
reading never uses up the rounds that a repetition may make, and there are levels
for as many inclusions as there are files.  What is left is that constructs nest
too deep for the stack.

## Going on behind a line that is no statement

A script skips a line that is no statement and goes on behind it, again and again.
Skipping consumes text if the line has any, or if a line break follows at once.  A
carriage return without a line feed belongs to neither, so a script advances only
through a text in which every carriage return has a line feed behind it.
-/

open Rule (Advances)
open Reading (acts forward_acts)

/-- Every carriage return in the text has a line feed behind it. -/
def PairsReturns (text : List Char) : Prop :=
  ∀ index < text.length,
    text[index]? = some '\r' → text[index + 1]? = some '\n'

instance : DecidablePred PairsReturns := fun text =>
  inferInstanceAs
    (Decidable
      (∀ index < text.length,
        text[index]? = some '\r' → text[index + 1]? = some '\n'))

namespace PairsReturns

theorem drop
    {text : List Char}
    (pairs : PairsReturns text)
    (count : Nat) :
    PairsReturns (text.drop count) := by
  intro index inside isReturn
  rw [List.length_drop] at inside
  rw [List.getElem?_drop] at isReturn ⊢
  exact pairs (count + index) (by omega) isReturn

theorem of_reaches
    {start later : Cursor}
    (pairs : PairsReturns start.rest)
    (reaches : start.Reaches later) :
    PairsReturns later.rest := by
  obtain ⟨count, rfl⟩ := reaches
  rw [Cursor.rest_advance]
  exact pairs.drop count

/-- A line without any text in it ends in a line break that can be skipped. -/
theorem exists_lineBreak
    {text : List Char}
    (pairs : PairsReturns text)
    (notAtEnd : text ≠ [])
    (noText :
      Scanner.chars (fun c => c != '\n' && c != '\r') text = none) :
    ∃ length, Scanner.lineBreak text = some ((), length) := by
  obtain _ | ⟨first, rest⟩ := text
  · exact absurd rfl notAtEnd
  have ends : first = '\n' ∨ first = '\r' := by
    by_contra isText
    simp [Scanner.chars, not_or.mp isText] at noText
  rcases ends with rfl | rfl
  · exact ⟨1, rfl⟩
  · obtain _ | ⟨second, others⟩ := rest
    · exact absurd (pairs 0 Nat.one_pos rfl) (by simp)
    · obtain rfl : second = '\n' := by
        simpa using pairs 0 (Nat.succ_pos _) rfl
      exact ⟨2, rfl⟩

end PairsReturns

namespace Grammar

variable
    {library : Library}
    {maxDepth : Nat}
    {room : Nat × Nat}
    {machine : Machine Workshop}

/-- Whatever follows is skipped up to the next line, at least one character of it. -/
theorem skipLine_consumes
    (pairs : PairsReturns machine.cursor.rest)
    (notAtEnd : machine.cursor.rest ≠ []) :
    (skipLine.run (acts library maxDepth room) machine).Ensures
      (fun _ after => machine.cursor.offset < after.cursor.offset)
      fun _ => False := by
  refine Rule.ensures_bind.mpr (Rule.ensures_attempt.mpr (Rule.ensures_scan.mpr ?_))
  split
  · next text length found =>
      have moved :
          machine.cursor.offset < (machine.cursor.advance length).offset :=
        Cursor.offset_lt_advance
          (Scanner.findsText_chars _ _ _ _ found).1 notAtEnd
      refine Rule.ensures_bind.mpr (Rule.ensures_attempt.mpr (Rule.ensures_scan.mpr ?_))
      split
      · exact Nat.lt_of_lt_of_le moved (Cursor.offset_le_advance _ _)
      · exact moved
  · next noText =>
      obtain ⟨length, found⟩ := pairs.exists_lineBreak notAtEnd noText
      refine Rule.ensures_bind.mpr (Rule.ensures_attempt.mpr (Rule.ensures_scan.mpr ?_))
      rw [found]
      exact
        Cursor.offset_lt_advance (Scanner.findsText_lineBreak _ _ _ found).1
          notAtEnd

/-- Reporting a line and skipping it consumes text, unless there is none. -/
theorem skipUnexpected_consumes
    (pairs : PairsReturns machine.cursor.rest)
    (notAtEnd : machine.cursor.rest ≠ []) :
    ((Rule.attempt (Rule.parse skipUnexpected)).run (acts library maxDepth room)
        machine).Ensures
      (fun _ after => machine.cursor.offset < after.cursor.offset)
      fun _ => True := by
  refine Rule.ensures_attempt.mpr (Rule.ensures_scope fun _ => ?_)
  have skips
      (severity : Severity)
      (line : Nat)
      (message : String) :
      (skipLine.run (acts library maxDepth room)
          (machine.opened.report severity line message)).Ensures
        (fun _ after => machine.cursor.offset < after.cursor.offset)
        fun _ => False := by
    rw [← machine.cursor_opened,
      ← machine.opened.cursor_report severity line message]
    exact skipLine_consumes (by simpa using pairs) (by simpa using notAtEnd)
  refine (skips _ _ _).mono ?_ fun _ never => never.elim
  intro value after moved closed closes
  obtain ⟨parent, deeper, -, -, rfl⟩ := Machine.commitScope_eq_ok_iff.mp closes
  exact moved

/-- Each round of a script that does not reach the end of the text consumes some. -/
theorem advances_scriptContent :
    scriptContent.Advances (acts library maxDepth) PairsReturns := by
  refine .bind (by simp) fun first content => ⟨?_, fun room machine pairs => ?_⟩
  · refine .bind (by simp) fun _ => .bind (by simp) fun isEnd => ?_
    split
    · trivial
    · simp [skipUnexpected]
  · have forward := forward_acts library maxDepth
    refine Rule.ensures_bind.mpr ((forward.ends_proceeds room _ machine).mono ?_ ?_)
    · intro _ middle spaces
      refine Rule.ensures_bind.mpr ?_
      change
        (Rule.run _ (if middle.cursor.atEnd then _ else _) middle).Ensures _ _
      split
      · exact fun never => absurd never Bool.false_ne_true
      · next notAtEnd =>
          refine Rule.ensures_bind.mpr ?_
          refine
            (skipUnexpected_consumes (pairs.of_reaches spaces.cursor) ?_).mono ?_
              fun _ => id
          · simpa [Cursor.atEnd] using notAtEnd
          · intro _ later moved
            refine Rule.ensures_bind.mpr ?_
            refine (forward.ends_proceeds room _ later).mono ?_ fun _ _ => trivial
            intro more after statements _
            exact
              Nat.lt_of_le_of_lt spaces.cursor.offset_le
                (Nat.lt_of_lt_of_le moved statements.cursor.offset_le)
    · exact fun _ _ => trivial

/-- A whole script advances. -/
theorem advances_script :
    script.Advances (acts library maxDepth) PairsReturns :=
  .bind advances_scriptContent (by simp)

end Grammar

end InkSyntax

namespace InkSyntax

/-!
## Rounds and levels

A script and what it includes are read by rules that advance, so each of them has the
rounds that it needs.
-/

/-- Without its comments the text has a line feed behind every carriage return. -/
def ReturnsArePaired (text : String) : Prop :=
  ∀ script, Comment.strip text = .ok script → PairsReturns script.toList

/-- It is enough to look at what is left of the text. -/
theorem ReturnsArePaired.of_strip
    {text : String}
    (paired :
      (Comment.strip text).toOption.all (PairsReturns ·.toList) = true) :
    ReturnsArePaired text := by
  intro script stripped
  simpa [stripped, Except.toOption] using paired

/-- Work on the workshop takes no rounds. -/
theorem Workshop.Works.returns
    {machine : Machine Workshop}
    {α : Type}
    {outcome : Outcome Workshop α}
    (works : Works machine outcome) :
    outcome.Returns := by
  obtain ⟨index, rfl⟩ | ⟨value, host, rfl, same⟩ := works
  · exact Fault.noConfusion
  · trivial

namespace Reading

variable
    {library : Library}
    {maxDepth : Nat}

section Rounds

/-- The repetitions at a site advance, and there are no stray returns to stop them. -/
structure Site.IsTidy
    (library : Library)
    (maxDepth : Nat)
    (site : Site) : Prop where
  advances : site.rule.Advances (acts library maxDepth) PairsReturns
  pairs : PairsReturns site.machine.cursor.rest

/-- Matching moves on in the text, so what follows is still free of stray returns. -/
theorem Site.pairs_of_matched
    {files levels : Nat}
    {α : Type}
    {rule : GrammarRule α}
    {machine after : Machine Workshop}
    {value : α}
    (pairs : PairsReturns machine.cursor.rest)
    (matched :
      Site.outcome library maxDepth ⟨files, levels, rule, machine⟩ =
        .matched value after) :
    PairsReturns after.cursor.rest :=
  pairs.of_reaches (proceeds_of_matched matched).cursor

/-- A site is as tidy as the one that it is entered from. -/
theorem Site.IsTidy.of_enters
    {site inner : Site}
    (included :
      ∀ path text, library.read path = some text → ReturnsArePaired text)
    (tidy : site.IsTidy library maxDepth)
    (enters : Site.Enters library maxDepth site inner) :
    inner.IsTidy library maxDepth := by
  obtain ⟨advances, pairs⟩ := tidy
  cases enters with
  | first =>
      exact ⟨advances.1, pairs⟩
  | next matched =>
      exact ⟨advances.2 _, pairs_of_matched pairs matched⟩
  | attempted =>
      exact ⟨advances, pairs⟩
  | inScope opens =>
      obtain ⟨-, rfl, rfl⟩ := Machine.openScope_eq_ok_iff.mp opens
      exact ⟨advances, pairs⟩
  | round =>
      exact ⟨(advances _).1, pairs⟩
  | again matched =>
      exact ⟨advances, pairs_of_matched pairs matched⟩
  | construct =>
      exact ⟨Grammar.advances_rule _, pairs⟩
  | inclusion notOpen found stripped =>
      exact ⟨Grammar.advances_script, included _ _ found _ stripped⟩

/-- All sites that a reading visits are tidy. -/
theorem Visits.isTidy
    {options : Options}
    {text : String}
    {file : Option String}
    {site : Site}
    (paired : ReturnsArePaired text)
    (included :
      ∀ path text, library.read path = some text → ReturnsArePaired text)
    (visits : Visits library options text file site) :
    site.IsTidy library options.maxStackDepth := by
  obtain ⟨script, stripped, reaches⟩ := visits
  induction reaches with
  | refl =>
      exact ⟨Grammar.advances_script, paired script stripped⟩
  | tail _ enters tidy =>
      exact tidy.of_enters included enters

end Rounds

section Returning

variable
    {paths : List Path}
    {files : Nat}

/-- There are rounds for the text in front and levels for the files that are closed. -/
structure HasRoom
    (paths : List Path)
    (files : Nat)
    (machine : Machine Workshop) : Prop where
  pairs : PairsReturns machine.cursor.rest
  rounds : machine.cursor.rest.length < machine.rounds
  files :
    (closedAmong paths machine.host.session.openFiles).length ≤ files

/-- Moving on leaves room where there was room. -/
theorem HasRoom.ends_run
    {machine : Machine Workshop}
    (hasRoom : HasRoom paths files machine)
    (levels : Nat)
    {α : Type}
    (rule : GrammarRule α) :
    (rule.run (performs library maxDepth files levels) machine).Ends
      (HasRoom paths files) := by
  have proceeds :=
    Site.ends_proceeds library maxDepth ⟨files, levels, rule, machine⟩
  have sameFiles :=
    ends_openFiles library maxDepth files levels rule machine
  refine Outcome.ends_iff.mpr fun after isAfter => ?_
  have moved := Outcome.ends_iff.mp proceeds after isAfter
  have same := Outcome.ends_iff.mp sameFiles after isAfter
  exact
    { pairs := hasRoom.pairs.of_reaches moved.cursor
      rounds := by
        rw [moved.rounds]
        exact Nat.lt_of_le_of_lt moved.cursor.length_le hasRoom.rounds
      files := by
        rw [same]
        exact hasRoom.files }

/-- Rules that advance do not run out of rounds, if no operation does. -/
theorem HasRoom.returns_run
    {levels : Nat}
    (operations :
      ∀ {γ : Type} (operation : Craft γ) (machine : Machine Workshop),
        HasRoom paths files machine →
        (performs library maxDepth files levels operation machine).Returns)
    {α : Type}
    {rule : GrammarRule α}
    (advances : rule.Advances (acts library maxDepth) PairsReturns)
    {machine : Machine Workshop}
    (hasRoom : HasRoom paths files machine) :
    (rule.run (performs library maxDepth files levels) machine).Returns := by
  change (rule.run (acts library maxDepth (files, levels)) machine).Returns
  exact
    advances.run_returns (forward_acts library maxDepth) (HasRoom paths files)
      (fun rule _ room => room.ends_run levels rule)
      (fun _ room => ⟨room.pairs, room.rounds, room.files⟩)
      (fun _ room => room.pairs) (fun _ room => room.rounds) operations rule
      machine hasRoom

section Performing

variable
    (known : ∀ path text, library.read path = some text → path ∈ paths)
    (included :
      ∀ path text, library.read path = some text → ReturnsArePaired text)

include known included

/-- No inclusion runs out of rounds, if reading no closed file does. -/
theorem returns_inclusions
    (reads :
      ∀ {text : String} {file : Option String} {session : Session},
        ReturnsArePaired text →
        (closedAmong paths session.openFiles).length < files →
        readText library maxDepth files text file session ≠ .error .stalled)
    (name : String)
    (machine : Machine Workshop)
    (hasRoom : HasRoom paths files machine) :
    (inclusions library maxDepth files name machine).Returns := by
  simp only [inclusions, includeFile]
  split
  · trivial
  · next notOpen =>
      split
      · trivial
      · next text found =>
          have fewer :
              (closedAmong paths
                  (library.resolve name ::
                    machine.host.session.openFiles)).length <
                (closedAmong paths machine.host.session.openFiles).length :=
            length_closedAmong_lt (known _ _ found) (by simpa using notOpen)
          split
          · next fault broken =>
              rintro rfl
              exact
                reads (included _ _ found)
                  (Nat.lt_of_lt_of_le fewer hasRoom.files) broken
          · trivial

/-- No operation runs out of rounds, if reading no closed file does. -/
theorem returns_performs
    (reads :
      ∀ {text : String} {file : Option String} {session : Session},
        ReturnsArePaired text →
        (closedAmong paths session.openFiles).length < files →
        readText library maxDepth files text file session ≠ .error .stalled)
    (levels : Nat)
    {γ : Type}
    (operation : Craft γ)
    (machine : Machine Workshop)
    (hasRoom : HasRoom paths files machine) :
    (performs library maxDepth files levels operation machine).Returns := by
  induction levels generalizing γ machine with
  | zero =>
      exact
        Workshop.handle_cases (motive := Outcome.Returns) Workshop.Works.returns
          (fun name =>
            returns_inclusions known included reads name machine hasRoom)
          (fun _ => Fault.noConfusion) operation
  | succ levels inductionHypothesis =>
      exact
        Workshop.handle_cases (motive := Outcome.Returns) Workshop.Works.returns
          (fun name =>
            returns_inclusions known included reads name machine hasRoom)
          (fun construct =>
            hasRoom.returns_run inductionHypothesis
              (Grammar.advances_rule construct))
          operation

/-- A reading does not run out of rounds, nor of levels for inclusions. -/
theorem readText_ne_stalled
    {text : String}
    {file : Option String}
    {session : Session}
    (paired : ReturnsArePaired text)
    (enough : (closedAmong paths session.openFiles).length < files) :
    readText library maxDepth files text file session ≠ .error .stalled := by
  induction files generalizing text file session with
  | zero =>
      exact absurd enough (Nat.not_lt_zero _)
  | succ files inductionHypothesis =>
      intro stalled
      obtain ⟨script, stripped⟩ := Comment.exists_strip text
      have hasRoom :
          HasRoom paths files
            (.start script.toList maxDepth
              { file := file, session := session }) :=
        { pairs := paired script stripped
          rounds := by
            simp only [Machine.start, Machine.roundLimit]
            exact Nat.lt_of_lt_of_le (Nat.lt_succ_self _)
              (Nat.le_mul_of_pos_right _ (by decide))
          files := Nat.le_of_lt_succ enough }
      have returns :
          (Workshop.readScript maxDepth (inclusions library maxDepth files)
            (.start script.toList maxDepth
              { file := file, session := session })).Returns :=
        hasRoom.returns_run
          (returns_performs known included inductionHypothesis (maxDepth + 2))
          Grammar.advances_script
      simp only [readText, stripped, bind, Except.bind] at stalled
      split at stalled
      · cases stalled
      · cases stalled
      · next fault ran =>
          cases stalled
          rw [inclusions, ran] at returns
          exact returns rfl

end Performing

/-- A reading of finitely many files does not run out of rounds. -/
theorem readScript_ne_stalled
    (files : List (String × String))
    (options : Options)
    {text : String}
    (file : Option String)
    (paired : ReturnsArePaired text)
    (included :
      ∀ path content,
        (Library.ofFiles files).read path = some content →
        ReturnsArePaired content) :
    readScript (.ofFiles files) options text file ≠ .error .stalled := by
  intro stalled
  simp only [readScript, bind, Except.bind] at stalled
  split at stalled
  · next fault broken =>
      cases stalled
      refine
        readText_ne_stalled (fun _ _ => mem_paths_of_read) included paired ?_
          broken
      -- There are levels for more files than there are.
      refine Nat.lt_of_le_of_lt (List.length_filter_le _ _) ?_
      rw [List.length_map]
      exact Nat.lt_add_of_pos_right Nat.two_pos
  · cases stalled

/-- A reading breaks off only for want of stack or of rounds. -/
theorem isExhaustion_of_readScript
    {options : Options}
    {text : String}
    {file : Option String}
    {fault : Fault}
    (broken : readScript library options text file = .error fault) :
    (∃ depth, fault = .stackOverflow depth) ∨ fault = .stalled := by
  simp only [readScript, bind, Except.bind] at broken
  split at broken
  · next other isBroken =>
      cases broken
      have exhausts := isExhaustion_of_readText isBroken
      cases fault with
      | stackOverflow depth =>
          exact .inl ⟨depth, rfl⟩
      | stalled =>
          exact .inr rfl
      | _ =>
          cases exhausts
  · cases broken

/-- A reading gives a story or runs out of stack, and rounds that go on consume text. -/
theorem readScript_returns
    (files : List (String × String))
    (options : Options)
    (text : String)
    (file : Option String)
    (paired : ReturnsArePaired text)
    (included :
      ∀ path content,
        (Library.ofFiles files).read path = some content →
        ReturnsArePaired content) :
    ((∃ reading,
          readScript (.ofFiles files) options text file = .ok reading) ∨
        ∃ depth,
          readScript (.ofFiles files) options text file =
            .error (.stackOverflow depth)) ∧
      ∀ {deeper levels : Nat} {σ α : Type} {round : σ → GrammarRule (σ ⊕ α)}
        {state next : σ} {machine after : Machine Workshop},
        Visits (.ofFiles files) options text file
            ⟨deeper, levels, .loop state round, machine⟩ →
          Site.outcome (.ofFiles files) options.maxStackDepth
              ⟨deeper, levels, round state, machine⟩ =
            .matched (.inl next) after →
          machine.cursor.offset < after.cursor.offset := by
  constructor
  · cases ended : readScript (.ofFiles files) options text file with
    | ok reading =>
        exact .inl ⟨reading, rfl⟩
    | error fault =>
        rcases isExhaustion_of_readScript ended with ⟨depth, rfl⟩ | rfl
        · exact .inr ⟨depth, rfl⟩
        · exact
            absurd ended
              (readScript_ne_stalled files options file paired included)
  · intro deeper levels σ α round state next machine after visits matched
    obtain ⟨advances, pairs⟩ := visits.isTidy paired included
    have consumes := (advances state).2 (deeper, levels) machine pairs
    rw [show (round state).run _ machine = _ from matched] at consumes
    exact consumes rfl

/-- What a library finds is the text of one of its files. -/
theorem exists_file_of_read
    {files : List (String × String)}
    {path : Path}
    {content : String}
    (found : (Library.ofFiles files).read path = some content) :
    ∃ name, (name, content) ∈ files := by
  obtain ⟨⟨at_, text⟩, isFound, rfl⟩ := Option.map_eq_some_iff.mp found
  have member := List.mem_reverse.mp (List.mem_of_find?_eq_some isFound)
  obtain ⟨⟨name, written⟩, isFile, isPair⟩ := List.mem_map.mp member
  cases isPair
  exact ⟨name, isFile⟩

/-- A round that asks for another one does so with some state. -/
theorem Visits.exists_next
    {options : Options}
    {text : String}
    {file : Option String}
    {deeper levels : Nat}
    {σ α : Type}
    {round : σ → GrammarRule (σ ⊕ α)}
    {state : σ}
    {machine : Machine Workshop}
    (_ :
      Visits library options text file
        ⟨deeper, levels, .loop state round, machine⟩)
    (goesOn :
      Site.yields library options.maxStackDepth
          ⟨deeper, levels, round state, machine⟩ Sum.isLeft =
        true) :
    ∃ next after,
      Site.outcome library options.maxStackDepth
          ⟨deeper, levels, round state, machine⟩ =
        .matched (.inl next) after := by
  obtain ⟨result, isNext, matched⟩ := Site.exists_matched_of_yields goesOn
  obtain ⟨next, rfl⟩ := Sum.isLeft_iff.mp isNext
  exact ⟨next, _, matched⟩

/-- A stray brace is skipped in a round of its own, which consumes it. -/
theorem readScript_returns_behind_brace :
    let files := [("a.ink", "b\r\n")]
    let text := "\x7d\nINCLUDE a.ink\n"
    ((∃ reading, readScript (.ofFiles files) {} text none = .ok reading) ∨
        ∃ depth,
          readScript (.ofFiles files) {} text none =
            .error (.stackOverflow depth)) ∧
      ∃ deeper levels,
        ∃ round : List NodeId → GrammarRule (List NodeId ⊕ List NodeId),
          ∃ machine content after,
            Visits (.ofFiles files) {} text none
                ⟨deeper, levels, .loop [] round, machine⟩ ∧
              Site.outcome (.ofFiles files) ({} : Options).maxStackDepth
                  ⟨deeper, levels, round [], machine⟩ =
                .matched (.inl content) after ∧
              machine.cursor.offset < after.cursor.offset := by
  intro files text
  have paired : ReturnsArePaired text := .of_strip (by decide +kernel)
  have included
      (path : Path)
      (content : String)
      (found : (Library.ofFiles files).read path = some content) :
      ReturnsArePaired content := by
    obtain ⟨name, member⟩ := exists_file_of_read found
    obtain ⟨-, rfl⟩ : name = "a.ink" ∧ content = "b\r\n" := by
      simpa [files] using member
    exact .of_strip (by decide +kernel)
  obtain ⟨ends, consumes⟩ :=
    readScript_returns files {} text none paired included
  have content :
      Site.Reaches (.ofFiles files) ({} : Options).maxStackDepth
        (firstSite (.ofFiles files) {} none text)
        ⟨_, _, Grammar.scriptContent, _⟩ :=
    .single .first
  -- No statement begins with the brace, so the first round begins in front of it.
  obtain ⟨first, isNone, loop⟩ :=
    Site.Reaches.yielded Option.isNone content (by decide +kernel)
  obtain rfl : first = none := by
    simpa using isNone
  have visits : Visits (.ofFiles files) {} text none _ :=
    .of_reaches (by decide +kernel) loop
  obtain ⟨more, after, matched⟩ := visits.exists_next (by decide +kernel)
  exact
    ⟨ends, _, _, _, _, more, after, visits, matched, consumes visits matched⟩

end Returning

end Reading

end InkSyntax
