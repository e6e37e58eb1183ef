import InkSyntax.Proofs.Reading.Resemblance

namespace InkSyntax

/-!
# Reporting does not influence reading

A session takes diagnostics and never shows them to a rule.  So two sessions with
the same open files serve one text alike, whoever listens to them and however
serious their diagnostics are: both readings come to the same story, and what was
reported in one tells what was reported in the other.
-/

/-- The diagnostic, counted as an error. -/
def Diagnostic.escalated (diagnostic : Diagnostic) : Diagnostic :=
  { diagnostic with severity := .error }

/-- The reading, with every diagnostic counted as an error. -/
def Reading.escalated (reading : Reading) : Reading :=
  { reading with
    diagnostics := reading.diagnostics.map Diagnostic.escalated }

namespace Session

/-- A relation between sessions that also holds of the reversed pairs. -/
theorem Matches.flip
    {sessions : Session → Session → Prop}
    (matches_ : Session.Matches sessions) :
    Session.Matches (Function.swap sessions) where
  deliver diagnostic related := matches_.deliver diagnostic related
  request path related := matches_.request path related
  enter path related := matches_.enter path related
  leave path related := matches_.leave path related

/-- The second session counts every diagnostic of the first as an error. -/
structure Escalates
    (session other : Session) : Prop where
  warningsAsErrors : other.warningsAsErrors = true
  openFiles : other.openFiles = session.openFiles
  delivered : other.delivered = session.delivered.map Diagnostic.escalated
  requested : other.requested = session.requested

theorem matches_escalates :
    Session.Matches Escalates where
  deliver diagnostic escalates :=
    { escalates with
      delivered := by
        simp [deliver, escalates.delivered, escalates.warningsAsErrors,
          Diagnostic.escalated] }
  request path escalates :=
    { escalates with
      requested := congrArg (· ++ [path]) escalates.requested }
  enter path escalates :=
    { escalates with
      openFiles := congrArg (path :: ·) escalates.openFiles }
  leave path escalates :=
    { escalates with
      openFiles := congrArg (List.filter (· != path)) escalates.openFiles }

/-- The second session keeps the first error aside that the first one was told. -/
structure Hushes
    (session other : Session) : Prop where
  isHeard : other.isHeard = false
  warningsAsErrors : other.warningsAsErrors = session.warningsAsErrors
  openFiles : other.openFiles = session.openFiles
  unheardError :
    other.unheardError = session.delivered.find? Diagnostic.isError

theorem matches_hushes :
    Session.Matches Hushes where
  deliver {session _} diagnostic hushes :=
    { hushes with
      unheardError := by
        simp only [deliver, hushes.isHeard, hushes.warningsAsErrors,
          hushes.unheardError, List.find?_append, Bool.false_or]
        generalize
          ({ diagnostic with
              severity :=
                if session.warningsAsErrors = true then .error
                else diagnostic.severity } :
            Diagnostic) = told
        cases isError : told.isError <;> simp [isError] }
  request _ hushes :=
    { hushes with
      openFiles := hushes.openFiles }
  enter path hushes :=
    { hushes with
      openFiles := congrArg (path :: ·) hushes.openFiles }
  leave path hushes :=
    { hushes with
      openFiles := congrArg (List.filter (· != path)) hushes.openFiles }

end Session

namespace Reading

/-- A text is read alike in related sessions, if these have the same files open. -/
theorem exists_readText_of_matches
    {sessions : Session → Session → Prop}
    (matches_ : Session.Matches sessions)
    (sameOpen :
      ∀ {session other : Session},
        sessions session other → other.openFiles = session.openFiles)
    {library : Library}
    {maxDepth levels : Nat}
    {text : String}
    {file : Option String}
    {session other ended : Session}
    {story : Story}
    (related : sessions session other)
    (reads :
      readText library maxDepth levels text file session =
        .ok (story, ended)) :
    ∃ otherEnded,
      readText library maxDepth levels text file other =
          .ok (story, otherEnded) ∧
        sessions ended otherEnded := by
  cases levels with
  | zero =>
      cases reads
  | succ files =>
      have followed :
          Followed library maxDepth maxDepth sessions files (maxDepth + 2) :=
        .of_matches matches_ (Nat.le_refl _) _ _
      exact
        followed.exists_readText (Nat.le_refl _) (Nat.le_refl _)
          (fun _ _ _ _ _ _ _ _ still => by rw [sameOpen still]) related reads

variable
    {library : Library}
    {maxDepth levels : Nat}
    {text : String}
    {file : Option String}

/-- A text is read in one of two related sessions just as in the other. -/
theorem readText_iff_of_matches
    {sessions : Session → Session → Prop}
    (matches_ : Session.Matches sessions)
    (sameOpen :
      ∀ {session other : Session},
        sessions session other → other.openFiles = session.openFiles)
    {session other : Session}
    (related : sessions session other)
    (told otherTold : Session → Prop)
    (tells :
      ∀ {ended otherEnded : Session},
        sessions ended otherEnded → (otherTold otherEnded ↔ told ended))
    (story : Story) :
    (∃ ended,
        readText library maxDepth levels text file other =
          .ok (story, ended) ∧ otherTold ended) ↔
      ∃ ended,
        readText library maxDepth levels text file session =
          .ok (story, ended) ∧ told ended := by
  constructor
  · rintro ⟨otherEnded, otherReads, holds⟩
    obtain ⟨ended, reads, still⟩ :=
      exists_readText_of_matches matches_.flip
        (fun still => (sameOpen still).symm) related otherReads
    exact ⟨ended, reads, (tells still).mp holds⟩
  · rintro ⟨ended, reads, holds⟩
    obtain ⟨otherEnded, otherReads, still⟩ :=
      exists_readText_of_matches matches_ sameOpen related reads
    exact ⟨otherEnded, otherReads, (tells still).mpr holds⟩

/-- The session that the reading of a script starts with. -/
def startSession
    (library : Library)
    (options : Options)
    (isHeard : Bool)
    (file : Option String) : Session :=
  { warningsAsErrors := options.warningsAsErrors
    isHeard := isHeard
    openFiles := (file.map library.resolve).toList }

theorem readScript_eq_ok_iff
    {options : Options}
    {reading : Reading} :
    readScript library options text file = .ok reading ↔
      ∃ ended,
        readText library options.maxStackDepth (library.size + 2) text file
              (startSession library options true file) =
            .ok (reading.story, ended) ∧
          ended.delivered = reading.diagnostics ∧
            ended.requested = reading.requested := by
  simp only [readScript, bind, Except.bind, startSession]
  split
  · simp_all
  · next pair reads =>
      obtain ⟨story, ended⟩ := pair
      obtain ⟨otherStory, diagnostics, requested⟩ := reading
      simp [reads, pure, Except.pure, and_assoc]

theorem readScriptStrictly_eq_ok_iff
    {options : Options}
    {story : Story} :
    readScriptStrictly library options text file = .ok story ↔
      ∃ ended,
        readText library options.maxStackDepth (library.size + 2) text file
              (startSession library options false file) =
            .ok (story, ended) ∧
          ended.unheardError = none := by
  unfold readScriptStrictly startSession
  dsimp only
  generalize readText library _ _ text file _ = result
  rcases result with fault | ⟨otherStory, ended⟩
  · simp
  · cases unheard : ended.unheardError <;>
      simp only [Except.ok.injEq, Prod.mk.injEq] <;>
      grind

theorem readScriptStrictly_eq_reported_iff
    {options : Options}
    {diagnostic : Diagnostic} :
    readScriptStrictly library options text file =
        .error (.reported diagnostic) ↔
      ∃ story ended,
        readText library options.maxStackDepth (library.size + 2) text file
              (startSession library options false file) =
            .ok (story, ended) ∧
          ended.unheardError = some diagnostic := by
  unfold readScriptStrictly startSession
  dsimp only
  generalize readText library _ _ text file _ = result
  rcases result with fault | ⟨otherStory, ended⟩
  · simp
  · cases unheard : ended.unheardError <;>
      simp only [Except.ok.injEq, Prod.mk.injEq] <;>
      grind

end Reading

open Reading

variable
    (library : Library)
    (options : Options)
    (text : String)
    (file : Option String)

/-- A reading that nobody listens to comes to what another does, but for its errors. -/
private theorem readText_unheard_iff
    {library : Library}
    {options : Options}
    {text : String}
    {file : Option String}
    (error : Option Diagnostic)
    (story : Story) :
    (∃ ended,
        readText library options.maxStackDepth (library.size + 2) text file
              (startSession library options false file) =
            .ok (story, ended) ∧
          ended.unheardError = error) ↔
      ∃ reading,
        readScript library options text file = .ok reading ∧
          reading.diagnostics.find? Diagnostic.isError = error ∧
            reading.story = story := by
  have starts :
      (startSession library options true file).Hushes
        (startSession library options false file) :=
    ⟨rfl, rfl, rfl, rfl⟩
  rw [readText_iff_of_matches Session.matches_hushes
    Session.Hushes.openFiles starts
    (fun ended => ended.delivered.find? Diagnostic.isError = error) _
    (fun still => by rw [still.unheardError])]
  constructor
  · rintro ⟨ended, reads, finds⟩
    exact
      ⟨⟨story, ended.delivered, ended.requested⟩,
        readScript_eq_ok_iff.mpr ⟨ended, reads, rfl, rfl⟩, finds, rfl⟩
  · rintro ⟨reading, completes, finds, rfl⟩
    obtain ⟨ended, reads, delivered, -⟩ := readScript_eq_ok_iff.mp completes
    exact ⟨ended, reads, by rw [delivered, finds]⟩

/-- A reading that nobody listens to gives the story if no error is reported. -/
theorem readScriptStrictly_eq_ok_iff_of_readScript
    (story : Story) :
    readScriptStrictly library options text file = .ok story ↔
      ∃ reading,
        readScript library options text file = .ok reading ∧
          reading.diagnostics.find? Diagnostic.isError = none ∧
            reading.story = story := by
  rw [readScriptStrictly_eq_ok_iff, readText_unheard_iff]

/-- A reading that nobody listens to fails with the first error if there is one. -/
theorem readScriptStrictly_eq_reported_iff_of_readScript
    (diagnostic : Diagnostic) :
    readScriptStrictly library options text file =
        .error (.reported diagnostic) ↔
      ∃ reading,
        readScript library options text file = .ok reading ∧
          reading.diagnostics.find? Diagnostic.isError = some diagnostic := by
  simp only [readScriptStrictly_eq_reported_iff, readText_unheard_iff]
  constructor
  · rintro ⟨story, reading, completes, finds, -⟩
    exact ⟨reading, completes, finds⟩
  · rintro ⟨reading, completes, finds⟩
    exact ⟨reading.story, reading, completes, finds, rfl⟩

/-- Counting warnings as errors changes the severity of diagnostics and nothing else. -/
theorem readScript_warningsAsErrors_eq_ok_iff
    (reading : Reading) :
    readScript library { options with warningsAsErrors := true } text file =
        .ok reading ↔
      ∃ mild,
        readScript library { options with warningsAsErrors := false } text
              file =
            .ok mild ∧
          reading = mild.escalated := by
  have starts :
      (startSession library { options with warningsAsErrors := false } true
          file).Escalates
        (startSession library { options with warningsAsErrors := true } true
          file) :=
    ⟨rfl, rfl, rfl, rfl⟩
  rw [readScript_eq_ok_iff,
    readText_iff_of_matches Session.matches_escalates
      Session.Escalates.openFiles starts
      (fun ended =>
        ended.delivered.map Diagnostic.escalated = reading.diagnostics ∧
          ended.requested = reading.requested) _
      (fun still => by rw [still.delivered, still.requested])]
  constructor
  · rintro ⟨ended, reads, delivered, requested⟩
    refine
      ⟨⟨reading.story, ended.delivered, ended.requested⟩,
        readScript_eq_ok_iff.mpr ⟨ended, reads, rfl, rfl⟩, ?_⟩
    simp only [Reading.escalated, delivered, requested]
  · rintro ⟨mild, completes, rfl⟩
    obtain ⟨ended, reads, delivered, requested⟩ :=
      readScript_eq_ok_iff.mp completes
    exact
      ⟨ended, reads, congrArg (List.map Diagnostic.escalated) delivered,
        requested⟩

/-- What is reported, to whom, and how seriously, leaves the story of a text alone.

Unheard, a reading gives the story of the heard one if that one tells of no error,
and else the first error it tells of; with warnings counted as errors it gives the
same story, and the same diagnostics but for their severity. -/
theorem reporting_spares_reading :
    (∀ story,
        readScriptStrictly library options text file = .ok story ↔
          ∃ reading,
            readScript library options text file = .ok reading ∧
              (∀ diagnostic ∈ reading.diagnostics, ¬diagnostic.isError) ∧
                reading.story = story) ∧
      (∀ diagnostic,
        readScriptStrictly library options text file =
            .error (.reported diagnostic) ↔
          ∃ reading,
            readScript library options text file = .ok reading ∧
              reading.diagnostics.find? Diagnostic.isError =
                some diagnostic) ∧
        ∀ reading,
          readScript library { options with warningsAsErrors := true } text
                file =
              .ok reading ↔
            ∃ mild,
              readScript library { options with warningsAsErrors := false }
                    text file =
                  .ok mild ∧
                reading = mild.escalated := by
  refine ⟨fun story => ?_, fun diagnostic => ?_, fun reading => ?_⟩
  · rw [readScriptStrictly_eq_ok_iff_of_readScript]
    simp only [List.find?_eq_none]
  · exact
      readScriptStrictly_eq_reported_iff_of_readScript library options text
        file diagnostic
  · exact
      readScript_warningsAsErrors_eq_ok_iff library options text file reading

end InkSyntax
