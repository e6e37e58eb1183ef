import InkSyntax.Proofs.CommentFree
import InkSyntax.Proofs.Grammar.StatementLookahead
import InkSyntax.Proofs.Reading.Deliveries
import InkSyntax.Proofs.Story.SeenSpans
import InkSyntax.Proofs.Story.Spans

namespace InkSyntax

/-!
# Diagnostics name lines that exist

While a text is read, every open scope stands in the text and every span in the draft
runs from one place of it to another.  The grammar reports on the line of the cursor
or on the first line of a node, and taking out comments kept all line breaks, so the
line is one of the text as it was written.  Which text that is follows from the file
that the diagnostic names: a file that is open is not read again, so the name of the
script stands for the script alone.
-/

/-- All open scopes and all spans are within a text; what was told passes a test. -/
structure Machine.IsWithin
    (script : List Char)
    (file : Option String)
    (held : List Path)
    (tells : Diagnostic → Prop)
    (machine : Machine Workshop) : Prop where
  cursors :
    ∀ checkpoint ∈ machine.stack.top :: machine.stack.below,
      (Cursor.atStart script).Reaches checkpoint.cursor
  seen : machine.host.draft.SeenFrom (.atStart script)
  file : machine.host.file = file
  /-- Some files stay open. -/
  held : held ⊆ machine.host.session.openFiles
  told : ∀ diagnostic ∈ machine.delivered, tells diagnostic

namespace Machine.IsWithin

variable
    {script : List Char}
    {file : Option String}
    {held : List Path}
    {tells : Diagnostic → Prop}
    {machine after closed : Machine Workshop}

theorem start
    {session : Session}
    (isHeld : held ⊆ session.openFiles)
    (told : ∀ diagnostic ∈ session.delivered, tells diagnostic)
    (depth : Nat) :
    (Machine.start script depth { file := file, session := session }).IsWithin
      script file held tells where
  cursors checkpoint member := by
    obtain rfl := List.mem_singleton.mp member
    exact .refl _
  seen := .empty _
  file := rfl
  held := isHeld
  told := told

theorem cursor
    (within : machine.IsWithin script file held tells) :
    (Cursor.atStart script).Reaches machine.cursor :=
  within.cursors machine.stack.top List.mem_cons_self

theorem moveTo
    (within : machine.IsWithin script file held tells)
    {cursor : Cursor}
    (further : machine.cursor.Reaches cursor) :
    (machine.moveTo cursor).IsWithin script file held tells :=
  { within with
    cursors := by
      refine List.forall_mem_cons.mpr ⟨within.cursor.trans further, ?_⟩
      exact (List.forall_mem_cons.mp within.cursors).2 }

theorem setFlag
    (within : machine.IsWithin script file held tells)
    (mask : UInt32)
    (on : Bool) :
    (machine.modifyTop (·.setFlag mask on)).IsWithin script file held tells :=
  { within with
    cursors :=
      List.forall_mem_cons.mpr (List.forall_mem_cons.mp within.cursors) }

theorem opened
    (within : machine.IsWithin script file held tells) :
    machine.opened.IsWithin script file held tells :=
  { within with
    cursors := List.forall_mem_cons.mpr ⟨within.cursor, within.cursors⟩ }

/-- A scope gives its nodes a span between two cursors in the text. -/
theorem closes
    (within : after.IsWithin script file held tells)
    {fate : Fate}
    {number : RuleId}
    (closes : Rule.Closes fate number after closed) :
    closed.IsWithin script file held tells := by
  cases fate with
  | keep nodes =>
      obtain ⟨parent, deeper, below, -, rfl⟩ :=
        Machine.commitScope_eq_ok_iff.mp closes
      obtain ⟨top, outer⟩ := List.forall_mem_cons.mp within.cursors
      rw [below] at outer
      obtain ⟨parentReached, deeperReached⟩ := List.forall_mem_cons.mp outer
      exact
        { within with
          cursors := List.forall_mem_cons.mpr ⟨top, deeperReached⟩
          seen := within.seen.setSpans ⟨parentReached.sees, top.sees⟩ nodes }
  | undo =>
      obtain ⟨parent, deeper, below, -, rfl⟩ :=
        Machine.cancelScope_eq_ok_iff.mp closes
      obtain ⟨-, outer⟩ := List.forall_mem_cons.mp within.cursors
      rw [below] at outer
      exact
        { within with
          cursors := outer
          seen := (Draft.KeepsSpans.keepOldest _ _).seenFrom within.seen }

theorem report
    (within : machine.IsWithin script file held tells)
    (severity : Severity)
    {line : Nat}
    {message : String}
    (tellsLine : ∀ severity, tells ⟨message, severity, line, file⟩) :
    (machine.report severity line message).IsWithin script file held
      tells := by
  have told :
      ∀ diagnostic ∈ (machine.report severity line message).delivered,
        tells diagnostic := by
    rw [Machine.delivered_report]
    split
    · exact within.told
    · refine List.forall_mem_append.mpr
        ⟨within.told, List.forall_mem_singleton.mpr ?_⟩
      rw [Machine.diagnostic, within.file]
      exact tellsLine _
  refine { cursors := ?_, seen := ?_, file := ?_, held := ?_, told := told }
  · rw [Machine.stack_report]
    split
    · exact within.cursors
    · obtain ⟨top, below⟩ := List.forall_mem_cons.mp within.cursors
      refine List.forall_mem_cons.mpr ⟨top, List.forall_mem_map.mpr below⟩
  all_goals
    rw [Machine.host_report]
    split
  · exact within.seen
  · exact within.seen
  · exact within.file
  · exact within.file
  · exact within.held
  · exact within.held

/-- Work on the draft leaves everything else as it is. -/
theorem redraft
    (within : machine.IsWithin script file held tells)
    {draft : Draft}
    (seen : draft.SeenFrom (.atStart script)) :
    Machine.IsWithin script file held tells
      { machine with host := { machine.host with draft := draft } } :=
  { within with seen := seen }

end Machine.IsWithin

namespace Workshop

variable
    {script : List Char}
    {file : Option String}
    {held : List Path}
    {tells : Diagnostic → Prop}
    {read : {α : Type} → Construct α → Action Workshop α}
    {include_ : String → Action Workshop Inclusion}
    {maxDepth : Nat}
    {α : Type}

/-- Diagnostics on the lines of a text pass a test. -/
def TellsOfText
    (script : List Char)
    (file : Option String)
    (tells : Diagnostic → Prop) : Prop :=
  ∀ message severity position,
    (Cursor.atStart script).Sees position →
    tells ⟨message, severity, position.line, file⟩

/-- An action stays within a text if it starts there. -/
def StaysWithin
    (script : List Char)
    (file : Option String)
    (held : List Path)
    (tells : Diagnostic → Prop)
    (action : Action Workshop α) : Prop :=
  ∀ machine : Machine Workshop,
    machine.IsWithin script file held tells →
    (action machine).Ends (·.IsWithin script file held tells)

theorem staysWithin_handle
    (reads :
      ∀ {α : Type} (construct : Construct α),
        StaysWithin script file held tells (read construct))
    (includes : ∀ name, StaysWithin script file held tells (include_ name))
    (operation : Craft α) :
    StaysWithin script file held tells
      (handle read include_ operation) := by
  intro machine within
  cases operation with
  | make kind =>
      exact
        within.redraft ((Draft.KeepsSpans.add _ _).seenFrom within.seen)
  | makeSpanning kind =>
      exact within.redraft (within.seen.addSpanning kind)
  | kindOf id =>
      simp only [handle]
      split
      · exact within
      · trivial
  | amend id amendment =>
      simp only [handle]
      exact
        ensures_unlessMissing
          (within.redraft
            ((Draft.KeepsSpans.modify _ _ _).seenFrom within.seen))
  | survey id =>
      simp only [handle]
      exact ensures_unlessMissing within
  | spanOf id =>
      exact within
  | weave content =>
      simp only [handle]
      exact
        ensures_unlessMissing
          (within.redraft
            ((Draft.KeepsSpans.weaveAndFlows _ _).seenFrom within.seen))
  | isInChoice =>
      exact within
  | setInChoice inChoice =>
      exact { within with }
  | «include» name =>
      exact includes name machine within
  | read construct =>
      exact reads construct machine within

/-- Problems are told on the line of the cursor or on the first line of a node. -/
theorem staysWithin_tells
    (ofText : TellsOfText script file tells)
    {rule : GrammarRule α}
    (told : rule.Tells) :
    StaysWithin script file held tells
      (rule.run (handle read include_)) := by
  intro machine within
  have atCursor
      (message : String)
      (severity : Severity) :
      tells ⟨message, severity, machine.cursor.line + 1, file⟩ :=
    ofText message severity machine.cursor.position within.cursor.sees
  cases told with
  | error message =>
      exact within.report .error (atCursor message)
  | warning message =>
      exact within.report .warning (atCursor message)
  | errorAt id message =>
      refine Rule.ensures_bind.mpr ?_
      change Outcome.Ensures (Outcome.matched (machine.host.draft.span? id) _) _ _
      cases given : machine.host.draft.span? id with
      | none =>
          exact within.report .error (atCursor message)
      | some span =>
          exact
            within.report .error fun severity =>
              ofText message severity span.start
                (within.seen id span given).1

/-- A rule that only tells of its text stays within it. -/
theorem staysWithin_run
    (ofText : TellsOfText script file tells)
    {allowed : (β : Type) → GrammarRule β → Prop}
    (reads :
      ∀ {α : Type} (construct : Construct α),
        StaysWithin script file held tells (read construct))
    (includes : ∀ name, StaysWithin script file held tells (include_ name))
    (rule : GrammarRule α)
    (consists : rule.Consists allowed) :
    StaysWithin script file held tells
      (rule.run (handle read include_)) := by
  induction rule with
  | pure value =>
      exact fun _ within => within
  | fail =>
      exact fun _ within => within
  | bind first next firstHypothesis nextHypothesis =>
      obtain told | ⟨firstConsists, nextConsists⟩ := consists
      · exact staysWithin_tells ofText told
      · intro machine within
        refine Rule.ensures_bind.mpr ?_
        exact
          (firstHypothesis firstConsists machine within).mono
            (fun value middle still =>
              nextHypothesis value (nextConsists value) middle still)
            fun _ still => still
  | attempt rule inductionHypothesis =>
      exact fun machine within =>
        Rule.ensures_attempt.mpr (inductionHypothesis consists machine within)
  | scope fate rule inductionHypothesis =>
      intro machine within
      refine Rule.ensures_scope fun _ => ?_
      refine
        (inductionHypothesis consists.1 machine.opened within.opened).mono
          (fun value after inside closed closes => inside.closes closes) ?_
      intro after inside closed cancels
      have closes : Rule.Closes .undo machine.nextRule after closed := cancels
      exact inside.closes closes
  | loop state round inductionHypothesis =>
      intro machine within
      refine
        Rule.ensures_loop
          (fun _ machine => machine.IsWithin script file held tells) within ?_
      intro state machine within
      refine
        (inductionHypothesis state (consists state) machine within).mono ?_
          fun _ still => still
      rintro (next | value) after still
      · exact still
      · exact still
  | scan scanner =>
      intro machine within
      refine Rule.ensures_scan.mpr ?_
      split
      · exact within.moveTo ⟨_, rfl⟩
      · exact within
  | here =>
      exact fun _ within => within
  | setFlag mask on =>
      exact fun _ within => within.setFlag mask on
  | report severity line message =>
      exact consists.elim
  | effect operation =>
      exact staysWithin_handle reads includes operation

theorem staysWithin_readWithin
    (ofText : TellsOfText script file tells)
    (includes : ∀ name, StaysWithin script file held tells (include_ name))
    (levels : Nat)
    (construct : Construct α) :
    StaysWithin script file held tells
      (readWithin maxDepth include_ levels construct) := by
  induction levels generalizing α with
  | zero =>
      exact fun _ _ => trivial
  | succ levels inductionHypothesis =>
      exact
        staysWithin_run ofText inductionHypothesis includes _
          (Grammar.consists_rule construct)

end Workshop

namespace Reading

variable
    {library : Library}
    {maxDepth files : Nat}
    {text source : String}
    {file named : Option String}
    {session ended : Session}
    {story : Story}

/-- The text that a diagnostic is about, by the file that it names. -/
def sourceOf
    (library : Library)
    (text : String)
    (file named : Option String) : Option String :=
  if named = file then some text
  else named.bind fun name => library.read (library.resolve name)

/-- The line of a diagnostic is one of the text that it is about. -/
def NamesLine
    (library : Library)
    (text : String)
    (file : Option String)
    (diagnostic : Diagnostic) : Prop :=
  ∃ source ∈ sourceOf library text file diagnostic.file,
    1 ≤ diagnostic.line ∧
      diagnostic.line ≤ 1 + source.toList.count '\n'

/-- Lines of a text without its comments are lines of the text. -/
theorem tellsOfText_namesLine
    {script : String}
    (isSource : sourceOf library text file named = some source)
    (stripped : Comment.strip source = .ok script) :
    Workshop.TellsOfText script.toList named (NamesLine library text file) := by
  intro message severity position seen
  refine ⟨source, isSource, ?_⟩
  have sameLines : script.toList.count '\n' = source.toList.count '\n' := by
    rw [Comment.strip_eq_ok_iff.mp stripped, Comment.count_withoutComments]
  have fewer :
      (script.toList.take position.offset).count '\n' ≤
        script.toList.count '\n' :=
    (List.take_sublist _ _).count_le _
  simp only [seen.isIn.line]
  omega

/-- What is told while a text is read names lines, and the script stays open. -/
theorem namesLine_of_readText
    (reads :
      readText library maxDepth files source named session =
        .ok (story, ended))
    (isSource : sourceOf library text file named = some source)
    (isOpen : (file.map library.resolve).toList ⊆ session.openFiles)
    (told :
      ∀ diagnostic ∈ session.delivered,
        NamesLine library text file diagnostic) :
    (file.map library.resolve).toList ⊆ ended.openFiles ∧
      ∀ diagnostic ∈ ended.delivered,
        NamesLine library text file diagnostic := by
  induction files generalizing source named session ended story with
  | zero =>
      cases reads
  | succ files inductionHypothesis =>
      obtain ⟨script, after, stripped, ran, rfl⟩ :=
        exists_site_of_readText reads
      have ofText := tellsOfText_namesLine isSource stripped
      have includes
          (name : String) :
          Workshop.StaysWithin script.toList named
            (file.map library.resolve).toList (NamesLine library text file)
            (inclusions library maxDepth files name) := by
        intro machine within
        simp only [inclusions, includeFile]
        split
        · exact within
        · next notOpen =>
            simp only [List.contains_eq_mem, decide_eq_true_eq] at notOpen
            split
            · exact { within with }
            · next included found =>
                split
                · trivial
                · next inner innerEnded innerReads =>
                    have apart :
                        library.resolve name ∉
                          (file.map library.resolve).toList :=
                      fun member => notOpen (within.held member)
                    have isIncluded :
                        sourceOf library text file (some name) =
                          some included := by
                      unfold sourceOf
                      rw [if_neg]
                      · exact found
                      · rintro rfl
                        exact apart (by simp)
                    obtain ⟨stillOpen, stillTold⟩ :=
                      inductionHypothesis innerReads isIncluded
                        (fun path member =>
                          List.mem_cons_of_mem _ (within.held member))
                        within.told
                    refine
                      { within with
                        held := fun path member => ?_
                        told := stillTold }
                    refine List.mem_filter.mpr ⟨stillOpen member, ?_⟩
                    rw [bne_iff_ne]
                    rintro rfl
                    exact apart member
      have ends :=
        Outcome.ends_iff.mp
          (Workshop.staysWithin_run ofText
            (Workshop.staysWithin_readWithin ofText includes _)
            includes Grammar.script Grammar.consists_script _
            (.start isOpen told maxDepth))
          after ran
      exact ⟨ends.held, ends.told⟩

/-- Every diagnostic names a line of the text that it is about, as it was written. -/
theorem diagnostics_name_lines
    {options : Options}
    {reading : Reading}
    (completes : readScript library options text file = .ok reading) :
    ∀ diagnostic ∈ reading.diagnostics,
      ∃ source,
        sourceOf library text file diagnostic.file = some source ∧
          1 ≤ diagnostic.line ∧
          diagnostic.line ≤ 1 + source.toList.count '\n' := by
  simp only [readScript, bind, Except.bind] at completes
  split at completes
  · cases completes
  · next result reads =>
      cases completes
      have isScript : sourceOf library text file file = some text :=
        if_pos rfl
      exact
        (namesLine_of_readText reads isScript (fun _ member => member)
          fun _ member => absurd member List.not_mem_nil).2

/-- Lines in a file and behind a comment are those of the texts as they were written. -/
theorem diagnostics_name_lines_behind_comment :
    ∃ library text reading,
      readScript library {} text (some "a") = .ok reading ∧
        reading.diagnostics.map (fun told => (told.line, told.file)) =
          [(3, some "b"), (3, some "a")] ∧
        ∀ diagnostic ∈ reading.diagnostics,
          ∃ source,
            sourceOf library text (some "a") diagnostic.file = some source ∧
              1 ≤ diagnostic.line ∧
              diagnostic.line ≤ 1 + source.toList.count '\n' := by
  let library : Library :=
    .ofFiles [("b", "\x7b\n- x: a\n- b\n- else: c\n\x7d\n")]
  have told :
      ((readScript library {} "/*\n*/INCLUDE b\n~ 1" (some "a")).toOption.map
          (·.diagnostics.map fun told => (told.line, told.file))) =
        some [(3, some "b"), (3, some "a")] := by
    decide +kernel
  refine ⟨library, "/*\n*/INCLUDE b\n~ 1", ?_⟩
  cases reads :
      readScript library {} "/*\n*/INCLUDE b\n~ 1" (some "a") with
  | error fault =>
      rw [reads] at told
      cases told
  | ok reading =>
      rw [reads] at told
      exact
        ⟨reading, rfl, Option.some.inj told, diagnostics_name_lines reads⟩

end Reading

end InkSyntax
