import InkSyntax.Proofs.Machine.Resemblance
import InkSyntax.Proofs.Reading.Site

namespace InkSyntax

/-!
# Readings that resemble each other

A reading does not depend on how much room it has, nor on what its session holds,
but for the files that are open where it includes one.  So a run is followed, in a
reading with as much room and a related session, by a run that comes to the same,
if every file that it asks for is open in both sessions or in none.
-/

/-- A relation between sessions that diagnostics and bookkeeping of files keep. -/
structure Session.Matches
    (sessions : Session → Session → Prop) : Prop where
  deliver :
    ∀ {session other : Session} (diagnostic : Diagnostic),
      sessions session other →
      sessions (session.deliver diagnostic) (other.deliver diagnostic)
  request :
    ∀ {session other : Session} (path : Path),
      sessions session other →
      sessions (session.request path) (other.request path)
  enter :
    ∀ {session other : Session} (path : Path),
      sessions session other →
      sessions (session.enter path) (other.enter path)
  leave :
    ∀ {session other : Session} (path : Path),
      sessions session other →
      sessions (session.leave path) (other.leave path)

theorem Session.matches_eq :
    Session.Matches Eq where
  deliver _ same := congrArg (Session.deliver · _) same
  request _ same := congrArg (Session.request · _) same
  enter _ same := congrArg (Session.enter · _) same
  leave _ same := congrArg (Session.leave · _) same

namespace Workshop

variable {sessions : Session → Session → Prop}

/-- The workshops differ in their sessions only, and these are related. -/
structure Resembles
    (sessions : Session → Session → Prop)
    (workshop other : Workshop) : Prop where
  draft : other.draft = workshop.draft
  inChoice : other.inChoice = workshop.inChoice
  file : other.file = workshop.file
  session : sessions workshop.session other.session

theorem matches_resembles
    (matches_ : Session.Matches sessions) :
    Host.Matches (Resembles sessions) where
  mark resembles :=
    congrArg Draft.size resembles.draft
  rewind mark resembles :=
    { resembles with
      draft := congrArg (Draft.keepOldest · mark) resembles.draft }
  commit nodes start stop resembles :=
    { resembles with
      draft :=
        congrArg (Draft.setSpans · (Span.between start stop) nodes)
          resembles.draft }
  deliver severity line message resembles :=
    { resembles with
      session := by
        simp only [Host.deliver, resembles.file]
        exact matches_.deliver _ resembles.session }

end Workshop

namespace Reading

open Outcome (FollowedBy)

/-- The machines stand at the same place, with related sessions. -/
abbrev Alike
    (sessions : Session → Session → Prop) :
    Machine Workshop → Machine Workshop → Prop :=
  Machine.Resembles (Workshop.Resembles sessions)

variable
    {library : Library}
    {maxDepth roomier : Nat}
    {sessions : Session → Session → Prop}

/-- A file that a run asks for is open in both of two related sessions or in none. -/
def Site.OpensAlike
    (library : Library)
    (maxDepth : Nat)
    (sessions : Session → Session → Prop)
    (site : Site) : Prop :=
  ∀ files levels name machine session,
    Reaches library maxDepth site
      ⟨files, levels, .effect (.include name), machine⟩ →
    sessions machine.host.session session →
    session.openFiles.contains (library.resolve name) =
      machine.host.session.openFiles.contains (library.resolve name)

theorem Site.OpensAlike.enters
    {site inner : Site}
    (alike : site.OpensAlike library maxDepth sessions)
    (enters : Enters library maxDepth site inner) :
    inner.OpensAlike library maxDepth sessions :=
  fun _ _ _ _ _ reaches => alike _ _ _ _ _ (.head enters reaches)

section Operations

variable
    {machine other : Machine Workshop}
    {α : Type}

theorem followedBy_redraft
    (change : Draft → α × Draft)
    (resembles : Alike sessions machine other) :
    FollowedBy (Alike sessions) (Workshop.redraft change machine)
      (Workshop.redraft change other) := by
  simp only [Workshop.redraft, resembles.host.draft]
  refine ⟨_, rfl, resembles.withHosts ?_⟩
  exact { resembles.host with draft := rfl }

theorem followedBy_query
    {ask : Workshop → α}
    (resembles : Alike sessions machine other)
    (same : ask other.host = ask machine.host) :
    FollowedBy (Alike sessions) (Workshop.query ask machine)
      (Workshop.query ask other) := by
  refine ⟨other, ?_, resembles⟩
  simp only [Workshop.query, same]

theorem followedBy_unlessMissing
    (missing? : Draft → Option NodeId)
    {action : Action Workshop α}
    (resembles : Alike sessions machine other)
    (acts : FollowedBy (Alike sessions) (action machine) (action other)) :
    FollowedBy (Alike sessions)
      (Workshop.unlessMissing missing? action machine)
      (Workshop.unlessMissing missing? action other) := by
  simp only [Workshop.unlessMissing, resembles.host.draft]
  split
  · trivial
  · exact acts

end Operations

/-- Runs with these bounds on nesting are followed where there is as much room. -/
def Followed
    (library : Library)
    (maxDepth roomier : Nat)
    (sessions : Session → Session → Prop)
    (files levels : Nat) : Prop :=
  ∀ (moreFiles moreLevels : Nat),
    files ≤ moreFiles →
    levels ≤ moreLevels →
    ∀ {α : Type} (rule : GrammarRule α) (machine other : Machine Workshop),
      Site.OpensAlike library maxDepth sessions
        ⟨files, levels, rule, machine⟩ →
      Alike sessions machine other →
      FollowedBy (Alike sessions)
        (Site.outcome library maxDepth ⟨files, levels, rule, machine⟩)
        (Site.outcome library roomier ⟨moreFiles, moreLevels, rule, other⟩)

/-- Readings of a text are followed if the runs of its script are. -/
theorem Followed.exists_readText
    {files moreFiles : Nat}
    (followed :
      Followed library maxDepth roomier sessions files (maxDepth + 2))
    (enoughFiles : files ≤ moreFiles)
    (enoughRoom : maxDepth ≤ roomier)
    {text : String}
    {file : Option String}
    {session other ended : Session}
    {story : Story}
    (alike :
      ∀ script, Comment.strip text = .ok script →
        Site.OpensAlike library maxDepth sessions
          (.ofScript maxDepth files script file session))
    (related : sessions session other)
    (reads :
      readText library maxDepth (files + 1) text file session =
        .ok (story, ended)) :
    ∃ otherEnded,
      readText library roomier (moreFiles + 1) text file other =
          .ok (story, otherEnded) ∧
        sessions ended otherEnded := by
  simp only [readText, bind, Except.bind] at reads ⊢
  cases stripped : Comment.strip text with
  | error fault =>
      simp [stripped] at reads
  | ok script =>
      simp only [stripped] at reads ⊢
      have starts :
          Alike sessions
            (.start script.toList maxDepth { file := file, session := session })
            (.start script.toList roomier { file := file, session := other }) :=
        ⟨rfl, rfl, rfl, by simp only [Machine.start, RuleStack.start]; omega,
          rfl, rfl, rfl, rfl, rfl, related⟩
      have ran :
          FollowedBy (Alike sessions)
            (Workshop.readScript maxDepth (inclusions library maxDepth files) _)
            (Workshop.readScript roomier
              (inclusions library roomier moreFiles) _) :=
        followed _ _ enoughFiles (Nat.add_le_add_right enoughRoom 2)
          Grammar.script _ _ (alike script stripped) starts
      simp only [inclusions] at ran
      split at reads
      · next root after matched =>
          cases reads
          rw [matched] at ran
          obtain ⟨otherAfter, otherMatched, resembles⟩ := ran
          refine ⟨otherAfter.host.session, ?_, resembles.host.session⟩
          simp only [otherMatched, resembles.host.draft, resembles.cursor]
          rfl
      · next after failed =>
          cases reads
          rw [failed] at ran
          obtain ⟨otherAfter, otherFailed, resembles⟩ := ran
          refine ⟨otherAfter.host.session, ?_, resembles.host.session⟩
          simp only [otherFailed, resembles.host.draft]
          rfl
      · cases reads

namespace Followed

variable
    (matches_ : Session.Matches sessions)
    (enoughRoom : maxDepth ≤ roomier)

include matches_ enoughRoom

private theorem inclusion
    {files levels moreFiles : Nat}
    (deeper :
      ∀ fewer, fewer < files →
        ∀ levels, Followed library maxDepth roomier sessions fewer levels)
    (enoughFiles : files ≤ moreFiles)
    (name : String)
    {machine other : Machine Workshop}
    (alike :
      Site.OpensAlike library maxDepth sessions
        ⟨files, levels, .effect (.include name), machine⟩)
    (resembles : Alike sessions machine other) :
    FollowedBy (Alike sessions) (inclusions library maxDepth files name machine)
      (inclusions library roomier moreFiles name other) := by
  have sameOpen := alike _ _ _ _ _ .refl resembles.host.session
  simp only [inclusions, includeFile, sameOpen]
  by_cases isOpen :
      machine.host.session.openFiles.contains (library.resolve name)
  · rw [if_pos isOpen, if_pos isOpen]
    exact ⟨other, rfl, resembles⟩
  · rw [if_neg isOpen, if_neg isOpen]
    have requested :=
      matches_.request (library.resolve name) resembles.host.session
    cases found : library.read (library.resolve name) with
    | none =>
        refine ⟨_, rfl, resembles.withHosts ?_⟩
        exact { resembles.host with session := requested }
    | some text =>
        cases files with
        | zero =>
            trivial
        | succ files =>
            obtain ⟨moreFiles, rfl⟩ : ∃ more, moreFiles = more + 1 :=
              Nat.exists_eq_add_one.mpr (by omega)
            simp only
            split
            · trivial
            · next story ended reads =>
                obtain ⟨otherEnded, otherReads, related⟩ :=
                  (deeper files (Nat.lt_succ_self files)
                    (maxDepth + 2)).exists_readText
                    (Nat.le_of_succ_le_succ enoughFiles) enoughRoom
                    (fun script stripped =>
                      alike.enters
                        (.inclusion (by simpa using isOpen) found stripped))
                    (matches_.enter (library.resolve name) requested) reads
                rw [otherReads]
                refine ⟨_, rfl, resembles.withHosts ?_⟩
                exact
                  { resembles.host with
                    session := matches_.leave _ related }

private theorem effect
    {files levels moreFiles moreLevels : Nat}
    (deeper :
      ∀ fewer, fewer < files →
        ∀ levels, Followed library maxDepth roomier sessions fewer levels)
    (nested :
      ∀ fewer, fewer < levels →
        Followed library maxDepth roomier sessions files fewer)
    (enoughFiles : files ≤ moreFiles)
    (enoughLevels : levels ≤ moreLevels)
    {α : Type}
    (operation : Craft α)
    {machine other : Machine Workshop}
    (alike :
      Site.OpensAlike library maxDepth sessions
        ⟨files, levels, .effect operation, machine⟩)
    (resembles : Alike sessions machine other) :
    FollowedBy (Alike sessions)
      (performs library maxDepth files levels operation machine)
      (performs library roomier moreFiles moreLevels operation other) := by
  cases operation with
  | make kind =>
      exact followedBy_redraft (·.add kind) resembles
  | makeSpanning kind =>
      exact followedBy_redraft (·.addSpanning kind) resembles
  | kindOf id =>
      simp only [performs, Workshop.handle, resembles.host.draft]
      split
      · exact ⟨other, rfl, resembles⟩
      · trivial
  | amend id amendment =>
      simp only [performs, Workshop.handle]
      exact
        followedBy_unlessMissing _ resembles (followedBy_redraft _ resembles)
  | survey id =>
      simp only [performs, Workshop.handle]
      refine followedBy_unlessMissing _ resembles ?_
      exact followedBy_query resembles (by rw [resembles.host.draft])
  | spanOf id =>
      simp only [performs, Workshop.handle]
      exact followedBy_query resembles (by rw [resembles.host.draft])
  | weave content =>
      simp only [performs, Workshop.handle]
      exact
        followedBy_unlessMissing _ resembles (followedBy_redraft _ resembles)
  | isInChoice =>
      exact followedBy_query resembles resembles.host.inChoice
  | setInChoice inChoice =>
      refine ⟨_, rfl, resembles.withHosts ?_⟩
      exact { resembles.host with inChoice := rfl }
  | «include» name =>
      exact
        inclusion matches_ enoughRoom deeper enoughFiles name alike resembles
  | read construct =>
      cases levels with
      | zero =>
          trivial
      | succ levels =>
          obtain ⟨moreLevels, rfl⟩ : ∃ more, moreLevels = more + 1 :=
            Nat.exists_eq_add_one.mpr (by omega)
          exact
            nested levels (Nat.lt_succ_self levels) _ _ enoughFiles (by omega) _ _ _
              (alike.enters .construct) resembles

private theorem of_deeper
    {files levels : Nat}
    (deeper :
      ∀ fewer, fewer < files →
        ∀ levels, Followed library maxDepth roomier sessions fewer levels)
    (nested :
      ∀ fewer, fewer < levels →
        Followed library maxDepth roomier sessions files fewer) :
    Followed library maxDepth roomier sessions files levels := by
  intro moreFiles moreLevels enoughFiles enoughLevels α rule
  induction rule with
  | pure value =>
      intro machine other alike resembles
      exact ⟨other, rfl, resembles⟩
  | fail =>
      intro machine other alike resembles
      exact ⟨other, rfl, resembles⟩
  | bind first next firstHypothesis nextHypothesis =>
      intro machine other alike resembles
      refine
        Rule.followedBy_bind
          (firstHypothesis machine other (alike.enters .first) resembles) ?_
      intro value after otherAfter ran related
      exact
        nextHypothesis value after otherAfter (alike.enters (.next ran)) related
  | attempt rule inductionHypothesis =>
      intro machine other alike resembles
      exact
        Rule.followedBy_attempt
          (inductionHypothesis machine other (alike.enters .attempted)
            resembles)
  | scope fate rule inductionHypothesis =>
      intro machine other alike resembles
      have hosts := Workshop.matches_resembles matches_
      refine Rule.followedBy_scope hosts resembles fun room => ?_
      have opens :
          machine.openScope = .ok (machine.nextRule, machine.opened) :=
        Machine.openScope_eq_ok_iff.mpr ⟨room, rfl, rfl⟩
      exact
        inductionHypothesis machine.opened other.opened
          (alike.enters (.inScope opens)) (resembles.opened hosts)
  | loop state round inductionHypothesis =>
      intro machine other alike resembles
      refine
        Rule.followedBy_loop resembles
          (fun state machine =>
            Site.OpensAlike library maxDepth sessions
              ⟨files, levels, .loop state round, machine⟩)
          alike ?_ ?_
      · intro state machine next after alike ran
        exact alike.enters (.again ran)
      · intro state machine other alike resembles
        exact
          inductionHypothesis state machine other (alike.enters .round)
            resembles
  | scan scanner =>
      intro machine other alike resembles
      exact Rule.followedBy_scan resembles
  | here =>
      intro machine other alike resembles
      exact Rule.followedBy_here resembles
  | setFlag mask on =>
      intro machine other alike resembles
      exact ⟨_, rfl, resembles.modifyTop _⟩
  | report severity line message =>
      intro machine other alike resembles
      exact
        ⟨_, rfl,
          resembles.report (Workshop.matches_resembles matches_) _ _ _⟩
  | effect operation =>
      intro machine other alike resembles
      exact
        effect matches_ enoughRoom deeper nested enoughFiles enoughLevels
          operation alike resembles

/-- Every run is followed where there is as much room and the session is related. -/
theorem of_matches
    (files levels : Nat) :
    Followed library maxDepth roomier sessions files levels := by
  induction files using Nat.strongRecOn generalizing levels with
  | ind files deeper =>
      induction levels using Nat.strongRecOn with
      | ind levels nested =>
          exact of_deeper matches_ enoughRoom deeper nested

end Followed

/-- More room on the stack never changes a reading that comes to an end. -/
theorem readScript_eq_of_roomier
    (library : Library)
    (options : Options)
    (text : String)
    (file : Option String)
    (reading : Reading)
    (maxDepth roomier : Nat)
    (enough : maxDepth ≤ roomier)
    (completes :
      readScript library { options with maxStackDepth := maxDepth } text file =
        .ok reading) :
    readScript library { options with maxStackDepth := roomier } text file =
      .ok reading := by
  simp only [readScript, bind, Except.bind] at completes ⊢
  split at completes
  · cases completes
  · next pair reads =>
      have followed :
          Followed library maxDepth roomier Eq (library.size + 1)
            (maxDepth + 2) :=
        .of_matches Session.matches_eq enough _ _
      obtain ⟨ended, otherReads, rfl⟩ :=
        followed.exists_readText (Nat.le_refl _) enough
          (fun script stripped _ _ _ _ _ reaches same => by rw [same]) rfl reads
      rw [otherReads]
      exact completes

/-- A script that just fits, with an inclusion and a complaint, in a larger stack. -/
theorem readScript_eq_of_roomier_just_fitting :
    let library :=
      Library.ofFiles [("tail.ink", "The end of \x7bx\n")]
    let text := "INCLUDE tail.ink\n* [Go] -> END\n"
    ∃ reading,
      readScript library { maxStackDepth := 29 } text none = .ok reading ∧
        reading.diagnostics ≠ [] ∧
        readScript library { maxStackDepth := 200 } text none =
          .ok reading := by
  intro library text
  have complains :
      (readScript library { maxStackDepth := 29 } text none).toOption.any
          (!·.diagnostics.isEmpty) =
        true := by
    decide +kernel
  cases reads : readScript library { maxStackDepth := 29 } text none with
  | error fault =>
      rw [reads] at complains
      cases complains
  | ok reading =>
      rw [reads] at complains
      refine ⟨reading, rfl, ?_, ?_⟩
      · rintro empty
        simp [Except.toOption, empty] at complains
      · exact
          readScript_eq_of_roomier library {} text none reading 29 200
            (by decide) reads

end Reading

end InkSyntax
