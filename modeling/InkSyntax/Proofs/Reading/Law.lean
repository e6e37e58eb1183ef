import InkSyntax.Proofs.Grammar.Operations
import InkSyntax.Proofs.Machine.Outcome
import InkSyntax.Proofs.Reading.Site

namespace InkSyntax

/-!
# What holds along a run

A law relates the machine before a step with the machine after it, for every kind
of step that a reading takes, apart from reports.  If a law holds also for the
reports that are made at the sites inside a run, it relates the machines at both
ends of the run.
-/

/-- The end of a scope leaves the session alone. -/
theorem Rule.Closes.session
    {fate : Fate}
    {number : RuleId}
    {after closed : Machine Workshop}
    (closes : Rule.Closes fate number after closed) :
    closed.host.session = after.host.session := by
  cases fate with
  | keep nodes =>
      obtain ⟨_, _, _, _, rfl⟩ := Machine.commitScope_eq_ok_iff.mp closes
      rfl
  | undo =>
      obtain ⟨_, _, _, _, rfl⟩ := Machine.cancelScope_eq_ok_iff.mp closes
      rfl

/-- The end of a scope leaves the bound on rounds alone. -/
theorem Rule.Closes.rounds
    {fate : Fate}
    {number : RuleId}
    {after closed : Machine Workshop}
    (closes : Rule.Closes fate number after closed) :
    closed.rounds = after.rounds := by
  cases fate with
  | keep nodes =>
      obtain ⟨_, _, _, _, rfl⟩ := Machine.commitScope_eq_ok_iff.mp closes
      rfl
  | undo =>
      obtain ⟨_, _, _, _, rfl⟩ := Machine.cancelScope_eq_ok_iff.mp closes
      rfl

namespace Reading

/-- A relation between machines that all steps but reports respect. -/
structure Law (relates : Machine Workshop → Machine Workshop → Prop) : Prop where
  refl : ∀ machine, relates machine machine
  trans :
    ∀ {before middle after},
      relates before middle → relates middle after → relates before after
  moves :
    ∀ machine cursor, relates machine (machine.moveTo cursor)
  flags :
    ∀ machine mask on,
      relates machine
        (machine.modifyTop fun checkpoint => checkpoint.setFlag mask on)
  closes :
    ∀ {machine after closed : Machine Workshop} {fate},
      relates machine.opened after →
      Rule.Closes fate machine.nextRule after closed →
      relates machine closed
  drafts :
    ∀ (machine : Machine Workshop) draft,
      relates machine
        { machine with host := { machine.host with draft := draft } }
  choices :
    ∀ (machine : Machine Workshop) inChoice,
      relates machine
        { machine with host := { machine.host with inChoice := inChoice } }
  requests :
    ∀ (machine : Machine Workshop) path,
      relates machine
        { machine with
          host :=
            { machine.host with
              session := machine.host.session.request path } }
  includes :
    ∀ {machine start after : Machine Workshop} {text depth file path},
      start =
        Machine.start text depth
          { file := file
            session := (machine.host.session.request path).enter path } →
      relates start after →
      relates machine
        { machine with
          host :=
            { machine.host with
              session := after.host.session.leave path } }

variable
    {library : Library}
    {maxDepth : Nat}
    {relates : Machine Workshop → Machine Workshop → Prop}

/-- A relation holds for every report that is made at a site inside a run. -/
def Site.ReportsRespect
    (library : Library)
    (maxDepth : Nat)
    (relates : Machine Workshop → Machine Workshop → Prop)
    (site : Site) : Prop :=
  ∀ {files levels severity line message machine},
    Reaches library maxDepth site
      ⟨files, levels, .report severity line message, machine⟩ →
    relates machine (machine.report severity line message)

namespace Site.ReportsRespect

theorem enters
    {site inner : Site}
    (reports : site.ReportsRespect library maxDepth relates)
    (enters : Enters library maxDepth site inner) :
    inner.ReportsRespect library maxDepth relates :=
  fun reaches => reports (.head enters reaches)

end Site.ReportsRespect

namespace Law

/-- A sentence about runs at one pair of nesting bounds. -/
def Holds
    (library : Library)
    (maxDepth : Nat)
    (relates : Machine Workshop → Machine Workshop → Prop)
    (files levels : Nat) : Prop :=
  ∀ {α : Type} (rule : GrammarRule α) (machine : Machine Workshop),
    Site.ReportsRespect library maxDepth relates
      ⟨files, levels, rule, machine⟩ →
    (Site.outcome library maxDepth ⟨files, levels, rule, machine⟩).Ends
      (relates machine)

/-- A law relates both ends of the reading of a file inside another. -/
private theorem ends_inclusion
    (law : Law relates)
    {files levels : Nat}
    (deeper :
      ∀ fewer, fewer < files → ∀ levels,
        Holds library maxDepth relates fewer levels)
    (name : String)
    (machine : Machine Workshop)
    (reports :
      Site.ReportsRespect library maxDepth relates
        ⟨files, levels, .effect (.include name), machine⟩) :
    (inclusions library maxDepth files name machine).Ends
      (relates machine) := by
  simp only [inclusions, includeFile]
  by_cases isOpen :
      machine.host.session.openFiles.contains (library.resolve name)
  · rw [if_pos isOpen]
    exact law.refl machine
  · rw [if_neg isOpen]
    cases found : library.read (library.resolve name) with
    | none =>
        exact law.requests machine _
    | some text =>
        cases files with
        | zero =>
            trivial
        | succ files =>
            simp only
            split
            · trivial
            · next story ended reads =>
                obtain ⟨script, after, stripped, completes, rfl⟩ :=
                  exists_site_of_readText reads
                have inside :=
                  deeper files (Nat.lt_succ_self files) _ _ _
                    (reports.enters
                      (.inclusion (by simpa using isOpen) found stripped))
                exact
                  law.includes rfl
                    (Outcome.ends_iff.mp inside after completes)

/-- A law relates both ends of every operation. -/
private theorem ends_effect
    (law : Law relates)
    {files levels : Nat}
    (deeper :
      ∀ fewer, fewer < files → ∀ levels,
        Holds library maxDepth relates fewer levels)
    (nested :
      ∀ fewer, fewer < levels → Holds library maxDepth relates files fewer)
    {α : Type}
    (operation : Craft α)
    (machine : Machine Workshop)
    (reports :
      Site.ReportsRespect library maxDepth relates
        ⟨files, levels, .effect operation, machine⟩) :
    (performs library maxDepth files levels operation machine).Ends
      (relates machine) := by
  cases operation with
  | make kind =>
      exact law.drafts machine _
  | makeSpanning kind =>
      exact law.drafts machine _
  | kindOf id =>
      simp only [performs, Workshop.handle]
      split
      · exact law.refl machine
      · trivial
  | amend id amendment =>
      simp only [performs, Workshop.handle]
      apply Workshop.ensures_unlessMissing
      exact law.drafts machine _
  | survey id =>
      simp only [performs, Workshop.handle]
      apply Workshop.ensures_unlessMissing
      exact law.refl machine
  | spanOf id =>
      exact law.refl machine
  | weave content =>
      simp only [performs, Workshop.handle]
      apply Workshop.ensures_unlessMissing
      exact law.drafts machine _
  | isInChoice =>
      exact law.refl machine
  | setInChoice inChoice =>
      exact law.choices machine inChoice
  | «include» name =>
      exact law.ends_inclusion deeper name machine reports
  | read construct =>
      cases levels with
      | zero =>
          trivial
      | succ levels =>
          exact
            nested levels (Nat.lt_succ_self levels) _ _
              (reports.enters .construct)

/-- What is related to the middle of a run is related to its beginning. -/
private theorem ends_behind
    (law : Law relates)
    {α : Type}
    {outcome : Outcome Workshop α}
    {before middle : Machine Workshop}
    (first : relates before middle)
    (rest : outcome.Ends (relates middle)) :
    outcome.Ends (relates before) :=
  rest.mono (fun _ _ related => law.trans first related)
    (fun _ related => law.trans first related)

/-- A law relates both ends of a loop whose rounds it relates. -/
private theorem ends_rounds
    (law : Law relates)
    {files levels : Nat}
    {σ α : Type}
    {round : σ → GrammarRule (σ ⊕ α)}
    (roundEnds :
      ∀ state machine,
        Site.ReportsRespect library maxDepth relates
          ⟨files, levels, round state, machine⟩ →
        (Site.outcome library maxDepth
            ⟨files, levels, round state, machine⟩).Ends
          (relates machine))
    (count : Nat)
    (state : σ)
    (machine : Machine Workshop)
    (reports :
      Site.ReportsRespect library maxDepth relates
        ⟨files, levels, .loop state round, machine⟩) :
    (Action.iterate
      (fun state => (round state).run (performs library maxDepth files levels))
      count state machine).Ends (relates machine) := by
  induction count generalizing state machine with
  | zero =>
      trivial
  | succ count inductionHypothesis =>
      have firstEnds := roundEnds state machine (reports.enters .round)
      simp only [Site.outcome] at firstEnds
      simp only [Action.iterate]
      cases ran :
          (round state).run (performs library maxDepth files levels)
            machine with
      | faulted fault =>
          trivial
      | failed after =>
          rw [ran] at firstEnds
          exact firstEnds
      | matched result after =>
          rw [ran] at firstEnds
          cases result with
          | inr value =>
              exact firstEnds
          | inl next =>
              exact
                law.ends_behind firstEnds
                  (inductionHypothesis next after
                    (reports.enters (.again ran)))

/-- A law relates both ends of every run, given that deeper runs obey it. -/
private theorem holds_of_deeper
    (law : Law relates)
    {files levels : Nat}
    (deeper :
      ∀ fewer, fewer < files → ∀ levels,
        Holds library maxDepth relates fewer levels)
    (nested :
      ∀ fewer, fewer < levels → Holds library maxDepth relates files fewer) :
    Holds library maxDepth relates files levels := by
  intro α rule
  -- Inclusions and constructs are no parts of a rule, hence the two hypotheses.
  induction rule with
  | pure value =>
      intro machine reports
      exact law.refl machine
  | fail =>
      intro machine reports
      exact law.refl machine
  | bind first next firstHypothesis nextHypothesis =>
      intro machine reports
      have firstEnds := firstHypothesis machine (reports.enters .first)
      simp only [Site.outcome] at firstEnds
      simp only [Site.outcome, Rule.run]
      cases ran : first.run (performs library maxDepth files levels) machine with
      | faulted fault =>
          trivial
      | failed after =>
          rw [ran] at firstEnds
          exact firstEnds
      | matched value after =>
          rw [ran] at firstEnds
          exact
            law.ends_behind firstEnds
              (nextHypothesis value after (reports.enters (.next ran)))
  | attempt rule inductionHypothesis =>
      intro machine reports
      exact
        Rule.ensures_attempt.mpr
          (inductionHypothesis machine (reports.enters .attempted))
  | scope fate rule inductionHypothesis =>
      intro machine reports
      refine Rule.ensures_scope fun room => ?_
      have opens :
          machine.openScope = .ok (machine.nextRule, machine.opened) :=
        Machine.openScope_eq_ok_iff.mpr ⟨room, rfl, rfl⟩
      have inside :=
        inductionHypothesis machine.opened (reports.enters (.inScope opens))
      refine inside.mono ?_ ?_
      · intro value after related closed closes
        exact law.closes related closes
      · intro after related closed cancels
        have closes : Rule.Closes .undo machine.nextRule after closed :=
          cancels
        exact law.closes related closes
  | loop state round inductionHypothesis =>
      intro machine reports
      exact
        law.ends_rounds inductionHypothesis machine.rounds state machine
          reports
  | scan scanner =>
      intro machine reports
      refine Rule.ensures_scan.mpr ?_
      split
      · exact law.moves machine _
      · exact law.refl machine
  | here =>
      intro machine reports
      exact law.refl machine
  | setFlag mask on =>
      intro machine reports
      exact law.flags machine mask on
  | report severity line message =>
      intro machine reports
      exact reports .refl
  | effect operation =>
      intro machine reports
      exact law.ends_effect deeper nested operation machine reports

/-- A law relates the machine at a site with the one that its run ends with. -/
theorem ends
    (law : Law relates)
    (site : Site)
    (reports : site.ReportsRespect library maxDepth relates) :
    (site.outcome library maxDepth).Ends (relates site.machine) := by
  obtain ⟨files, levels, rule, machine⟩ := site
  have holds
      (files : Nat) :
      ∀ levels, Holds library maxDepth relates files levels := by
    induction files using Nat.strongRecOn with
    | ind files deeper =>
        intro levels
        induction levels using Nat.strongRecOn with
        | ind levels nested =>
            exact law.holds_of_deeper deeper nested
  exact holds files levels rule machine reports

/-- What steps keep, and scopes and inclusions start with, holds at every site. -/
theorem holds_of_reaches
    (law : Law relates)
    (reports :
      ∀ machine severity line message,
        relates machine (machine.report severity line message))
    {holds : Machine Workshop → Prop}
    (keeps :
      ∀ before after, relates before after → holds before → holds after)
    (opens : ∀ machine, holds machine → holds machine.opened)
    (includes :
      ∀ machine text depth file path,
        holds machine →
        holds
          (Machine.start text depth
            { file := file
              session := (machine.host.session.request path).enter path }))
    {site inner : Site}
    (reaches : Site.Reaches library maxDepth site inner)
    (atSite : holds site.machine) :
    holds inner.machine := by
  induction reaches with
  | refl =>
      exact atSite
  | tail _ enters inductionHypothesis =>
      cases enters with
      | first =>
          exact inductionHypothesis
      | next matched =>
          exact
            keeps _ _
              (Outcome.ends_iff.mp (law.ends _ fun _ => reports _ _ _ _) _
                (congrArg Outcome.after? matched))
              inductionHypothesis
      | attempted =>
          exact inductionHypothesis
      | inScope opensScope =>
          obtain ⟨_, rfl, rfl⟩ := Machine.openScope_eq_ok_iff.mp opensScope
          exact opens _ inductionHypothesis
      | round =>
          exact inductionHypothesis
      | again matched =>
          exact
            keeps _ _
              (Outcome.ends_iff.mp (law.ends _ fun _ => reports _ _ _ _) _
                (congrArg Outcome.after? matched))
              inductionHypothesis
      | construct =>
          exact inductionHypothesis
      | inclusion =>
          exact includes _ _ _ _ _ inductionHypothesis

/-- A preorder of sessions that bookkeeping of files respects is a law. -/
theorem ofSessions
    {relates : Session → Session → Prop}
    (refl : ∀ session, relates session session)
    (trans :
      ∀ {before middle after},
        relates before middle → relates middle after → relates before after)
    (requests : ∀ session path, relates session (session.request path))
    (enters : ∀ session path, relates session (session.enter path))
    (leaves : ∀ session path, relates session (session.leave path)) :
    Law fun before after =>
      relates before.host.session after.host.session where
  refl _ := refl _
  trans := trans
  moves _ _ := refl _
  flags _ _ _ := refl _
  closes related closes := by
    rw [closes.session]
    exact related
  drafts _ _ := refl _
  choices _ _ := refl _
  requests _ path := requests _ path
  includes starts related := by
    subst starts
    exact
      trans (requests _ _)
        (trans (enters _ _) (trans related (leaves _ _)))

/-- The bound on rounds never changes. -/
theorem rounds :
    Law fun before after => after.rounds = before.rounds where
  refl _ := rfl
  trans first second := second.trans first
  moves _ _ := rfl
  flags _ _ _ := rfl
  closes related closes := closes.rounds.trans related
  drafts _ _ := rfl
  choices _ _ := rfl
  requests _ _ := rfl
  includes _ _ := rfl

end Law

end Reading

end InkSyntax
