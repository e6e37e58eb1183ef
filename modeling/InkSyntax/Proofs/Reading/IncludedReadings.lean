import InkSyntax.Proofs.Comments
import InkSyntax.Proofs.Reading.Resemblance
import InkSyntax.Proofs.Reading.SilentLookahead

namespace InkSyntax

/-!
# Including a file is reading it

The reading of an included file starts with the session of the reading around it.
On its own, the same file is read with fewer files open and nothing delivered yet.
Neither matters unless a file is asked for that is being read already, so the story
of an inclusion, and what is delivered meanwhile, are those of the file alone.
-/

/-- A session inside another reading, and the one of the file read on its own. -/
structure Session.Continues
    (before : List Diagnostic)
    (session alone : Session) : Prop where
  warningsAsErrors : alone.warningsAsErrors = session.warningsAsErrors
  delivered : session.delivered = before ++ alone.delivered
  openFiles : alone.openFiles ⊆ session.openFiles

theorem Session.matches_continues
    (before : List Diagnostic) :
    Session.Matches (Session.Continues before) where
  deliver diagnostic continues :=
    { continues with
      delivered := by
        simp only [deliver, continues.delivered, continues.warningsAsErrors,
          List.append_assoc] }
  request path continues :=
    { continues with }
  enter path continues :=
    { continues with
      openFiles := List.cons_subset_cons path continues.openFiles }
  leave path continues :=
    { continues with
      openFiles := List.filter_subset _ continues.openFiles }

namespace Grammar

/-- The node of an inclusion whose file has a name. -/
def includedNode (file : String) : GrammarRule NodeId := do
  make (.includedFile (← includedStory file))

/-- An inclusion is one without a name, or the node for the name on its line. -/
theorem inclusion_eq_includedNode :
    inclusion =
      (do
        skipBlanks
        Rule.literal "INCLUDE"
        skipBlanks
        match ← Rule.attempt
            (Rule.expect restOfLine "filename for include statement") with
        | none => make (.includedFile none)
        | some written => includedNode (trimEnd written)) :=
  rfl

end Grammar

namespace Reading

variable
    {library : Library}
    {maxDepth : Nat}
    {options : Options}
    {text : String}
    {file : Option String}
    {site inner : Site}

namespace Site

/-- The name of the file that the rule of the site asks for. -/
def asksFor? : Site → Option String
  | ⟨_, _, .effect (.include name), _⟩ => some name
  | _ => none

/-- The site asks for a file that is being read already. -/
def DetectsRecursion
    (library : Library)
    (site : Site) : Prop :=
  ∃ name,
    site.asksFor? = some name ∧
      library.resolve name ∈ site.machine.host.session.openFiles

theorem exists_of_asksFor?
    {name : String}
    (asks : site.asksFor? = some name) :
    ∃ files levels machine,
      site = ⟨files, levels, .effect (.include name), machine⟩ := by
  unfold asksFor? at asks
  split at asks
  · cases asks
    exact ⟨_, _, _, rfl⟩
  · cases asks

/-- Inclusions nest no deeper on the way. -/
theorem Reaches.files_le
    (reaches : Reaches library maxDepth site inner) :
    inner.files ≤ site.files := by
  induction reaches with
  | refl =>
      exact Nat.le_refl _
  | tail _ enters inductionHypothesis =>
      cases enters with
      | inclusion =>
          exact Nat.le_of_succ_le inductionHypothesis
      | _ =>
          exact inductionHypothesis

/-- Wherever no recursion is detected, fewer open files are open alike. -/
theorem opensAlike_of_apart
    {before : List Diagnostic}
    (apart :
      ∀ inner,
        Reaches library maxDepth site inner →
        ¬ inner.DetectsRecursion library) :
    site.OpensAlike library maxDepth (Session.Continues before) := by
  intro files levels name machine session reaches continues
  have notOpen :
      library.resolve name ∉ machine.host.session.openFiles :=
    fun isOpen => apart _ reaches ⟨name, rfl, isOpen⟩
  have notOpenAlone : library.resolve name ∉ session.openFiles :=
    fun isOpen => notOpen (continues.openFiles isOpen)
  simp [notOpen, notOpenAlone]

end Site

section Alone

/-- Break off wherever a file is asked for. -/
def includeNone : String → Action Workshop Inclusion :=
  fun _ _ => .faulted .stalled

/-- What running the rule of a site comes to, as long as it asks for no file. -/
def Site.outcomeAlone
    (maxDepth : Nat)
    (site : Site) : Outcome Workshop site.Result :=
  site.rule.run
    (Workshop.handle
      (Workshop.readWithin maxDepth includeNone site.levels) includeNone)
    site.machine

/-- A run that does not break off for want of files is the run at the site. -/
theorem Site.outcome_eq_or_faulted
    (library : Library)
    (maxDepth files levels : Nat)
    {α : Type}
    (rule : GrammarRule α)
    (machine : Machine Workshop) :
    Site.outcome library maxDepth ⟨files, levels, rule, machine⟩ =
        Site.outcomeAlone maxDepth ⟨files, levels, rule, machine⟩ ∨
      ∃ fault,
        Site.outcomeAlone maxDepth ⟨files, levels, rule, machine⟩ =
          .faulted fault := by
  induction levels generalizing α rule machine with
  | zero =>
      refine Rule.run_eq_or_faulted (fun operation machine => ?_) rule machine
      cases operation with
      | «include» name =>
          exact .inr ⟨_, rfl⟩
      | _ =>
          exact .inl rfl
  | succ levels inductionHypothesis =>
      refine Rule.run_eq_or_faulted (fun operation machine => ?_) rule machine
      cases operation with
      | «include» name =>
          exact .inr ⟨_, rfl⟩
      | read construct =>
          exact inductionHypothesis (Grammar.rule construct) machine
      | _ =>
          exact .inl rfl

/-- If a run asks for no file up to its end, neither do those that it enters. -/
theorem Site.Enters.endsAlone
    {outer inner : Site}
    (enters : Enters library maxDepth outer inner)
    (ends : (outer.outcomeAlone maxDepth).after?.isSome) :
    (inner.outcomeAlone maxDepth).after?.isSome := by
  cases enters with
  | @first files levels _ _ first next machine =>
      simp only [outcomeAlone, Rule.run] at ends ⊢
      cases ran : first.run _ machine with
      | faulted fault =>
          rw [ran] at ends
          cases ends
      | _ =>
          rfl
  | @next files levels _ _ first next machine after value matched =>
      rcases outcome_eq_or_faulted library maxDepth files levels first
          machine with same | ⟨fault, faults⟩
      · rw [matched] at same
        simp only [outcomeAlone, Rule.run] at ends same
        rw [← same] at ends
        exact ends
      · simp only [outcomeAlone, Rule.run] at ends faults
        rw [faults] at ends
        cases ends
  | @attempted files levels _ rule machine =>
      simp only [outcomeAlone, Rule.run] at ends ⊢
      cases ran : rule.run _ machine with
      | faulted fault =>
          rw [ran] at ends
          cases ends
      | _ =>
          rfl
  | @inScope files levels _ fate rule machine opened number opens =>
      simp only [outcomeAlone, Rule.run, Action.inScope, opens] at ends ⊢
      cases ran : rule.run _ opened with
      | faulted fault =>
          rw [ran] at ends
          cases ends
      | _ =>
          rfl
  | @round files levels _ _ state round machine =>
      simp only [outcomeAlone, Rule.run] at ends ⊢
      cases bound : machine.rounds with
      | zero =>
          rw [bound] at ends
          cases ends
      | succ fewer =>
          rw [bound] at ends
          simp only [Action.iterate] at ends
          cases ran : (round state).run _ machine with
          | faulted fault =>
              rw [ran] at ends
              cases ends
          | _ =>
              rfl
  | @again files levels _ _ state next round machine after matched =>
      have sameRounds : after.rounds = machine.rounds :=
        Outcome.ends_iff.mp
          (Law.rounds.ends _ fun _ => Machine.rounds_report _ _ _ _) _
          (congrArg Outcome.after? matched)
      simp only [outcomeAlone, Rule.run, sameRounds] at ends ⊢
      cases bound : machine.rounds with
      | zero =>
          rw [bound] at ends
          cases ends
      | succ fewer =>
          rw [bound] at ends
          simp only [Action.iterate] at ends
          rcases outcome_eq_or_faulted library maxDepth files levels
              (round state) machine with same | ⟨fault, faults⟩
          · rw [matched] at same
            simp only [outcomeAlone] at same
            rw [← same] at ends
            obtain ⟨last, isLast⟩ := Option.isSome_iff_exists.mp ends
            rw [iterate_of_le (Nat.le_succ fewer) isLast]
            rfl
          · simp only [outcomeAlone] at faults
            rw [faults] at ends
            cases ends
  | construct =>
      exact ends
  | inclusion =>
      cases ends

/-- Where no file is asked for, no recursion is detected. -/
theorem Site.not_detectsRecursion_of_outcomeAlone
    (ends : (site.outcomeAlone maxDepth).after?.isSome)
    (reaches : Reaches library maxDepth site inner) :
    ¬ inner.DetectsRecursion library := by
  have innerEnds : (inner.outcomeAlone maxDepth).after?.isSome := by
    induction reaches with
    | refl =>
        exact ends
    | tail _ enters inductionHypothesis =>
        exact enters.endsAlone inductionHypothesis
  rintro ⟨name, asks, -⟩
  obtain ⟨files, levels, machine, rfl⟩ := exists_of_asksFor? asks
  cases innerEnds

/-- A closed file that asks for no file is included without recursion. -/
theorem Site.not_detectsRecursion_of_include
    {files levels : Nat}
    {name content script : String}
    {machine : Machine Workshop}
    (notOpen : library.resolve name ∉ machine.host.session.openFiles)
    (found : library.read (library.resolve name) = some content)
    (stripped : Comment.strip content = .ok script)
    (ends :
      ((Site.ofScript maxDepth files script (some name)
            ((machine.host.session.request (library.resolve name)).enter
              (library.resolve name))).outcomeAlone maxDepth).after?.isSome)
    (reaches :
      Reaches library maxDepth
        ⟨files + 1, levels, .effect (.include name), machine⟩ inner) :
    ¬ inner.DetectsRecursion library := by
  rcases Relation.ReflTransGen.cases_head reaches with
    rfl | ⟨next, enters, further⟩
  · rintro ⟨_, asks, isOpen⟩
    cases asks
    exact notOpen isOpen
  · generalize isSite :
        (⟨files + 1, levels, .effect (.include name), machine⟩ : Site) =
          outer at enters
    cases enters with
    | inclusion _ found' stripped' =>
        cases isSite
        cases found.symm.trans found'
        cases stripped.symm.trans stripped'
        exact not_detectsRecursion_of_outcomeAlone ends further
    | _ =>
        cases congrArg asksFor? isSite

end Alone

/-- Warnings count as errors everywhere in a reading or nowhere. -/
theorem Visits.warningsAsErrors
    (visits : Visits library options text file site) :
    site.machine.host.session.warningsAsErrors =
      options.warningsAsErrors := by
  obtain ⟨script, -, reaches⟩ := visits
  have law :=
    @Law.ofSessions
      (fun before after => after.warningsAsErrors = before.warningsAsErrors)
      (fun _ => rfl) (fun first second => second.trans first)
      (fun _ _ => rfl) (fun _ _ => rfl) (fun _ _ => rfl)
  refine
    law.holds_of_reaches ?_
      (fun before after same held => same.trans held) (fun _ held => held)
      (fun _ _ _ _ _ held => held) reaches rfl
  intro machine severity line message
  simp only [Machine.host_report]
  split <;> rfl

/-- A file that is asked for while it is closed is read. -/
theorem exists_readText_of_includedNode
    {files levels : Nat}
    {name content : String}
    {machine after : Machine Workshop}
    {node : NodeId}
    (notOpen :
      library.resolve name ∉ machine.host.session.openFiles)
    (found : library.read (library.resolve name) = some content)
    (matched :
      Site.outcome library maxDepth
          ⟨files, levels, Grammar.includedNode name, machine⟩ =
        .matched node after) :
    ∃ fewer story ended,
      files = fewer + 1 ∧
        readText library maxDepth (fewer + 1) content (some name)
            ((machine.host.session.request (library.resolve name)).enter
              (library.resolve name)) =
          .ok (story, ended) ∧
        after.host.draft.kind? node = some (.includedFile (some story)) ∧
        after.delivered = ended.delivered := by
  simp only [Site.outcome, Grammar.includedNode, Grammar.includedStory, bind,
    Rule.run, performs, Workshop.handle, inclusions, includeFile,
    List.contains_eq_mem, notOpen, decide_false, Bool.false_eq_true,
    ↓reduceIte, found] at matched
  cases files with
  | zero =>
      cases matched
  | succ fewer =>
      cases reads :
          readText library maxDepth (fewer + 1) content (some name)
            ((machine.host.session.request (library.resolve name)).enter
              (library.resolve name)) with
      | error fault =>
          simp [reads, Outcome.andThen] at matched
      | ok pair =>
          obtain ⟨story, ended⟩ := pair
          simp only [reads, Outcome.andThen, pure, Rule.run, Grammar.make,
            Workshop.handle, Workshop.redraft, Outcome.matched.injEq] at matched
          obtain ⟨rfl, rfl⟩ := matched
          refine ⟨fewer, story, ended, rfl, reads, ?_, rfl⟩
          simp [Draft.kind?_eq_getElem?, Draft.kinds, Draft.add, Draft.size]

/-- An included file has the story, and the diagnostics, that it has when read alone. -/
theorem exists_reading_of_includedNode
    {files levels : Nat}
    {name content : String}
    {machine after : Machine Workshop}
    {node : NodeId}
    (visits :
      Visits library options text file
        ⟨files, levels, Grammar.includedNode name, machine⟩)
    (found : library.read (library.resolve name) = some content)
    (apart :
      ∀ inner,
        Site.Reaches library options.maxStackDepth
          ⟨files, levels, .effect (.include name), machine⟩ inner →
        ¬ inner.DetectsRecursion library)
    (matched :
      Site.outcome library options.maxStackDepth
          ⟨files, levels, Grammar.includedNode name, machine⟩ =
        .matched node after) :
    ∃ reading,
      readScript library options content (some name) = .ok reading ∧
        after.host.draft.kind? node =
          some (.includedFile (some reading.story)) ∧
        after.delivered = machine.delivered ++ reading.diagnostics := by
  have notOpen :
      library.resolve name ∉ machine.host.session.openFiles :=
    fun isOpen => apart _ .refl ⟨name, rfl, isOpen⟩
  obtain ⟨fewer, story, ended, rfl, reads, isNode, delivered⟩ :=
    exists_readText_of_includedNode notOpen found matched
  have isContinued :
      Session.Continues machine.delivered
        ((machine.host.session.request (library.resolve name)).enter
          (library.resolve name))
        (firstSession library options (some name)) :=
    { warningsAsErrors := visits.warningsAsErrors.symm
      delivered := (List.append_nil _).symm
      openFiles := List.cons_subset_cons _ (List.nil_subset _) }
  have enoughFiles : fewer + 1 ≤ library.size + 1 := by
    obtain ⟨script, -, reaches⟩ := visits
    exact reaches.files_le
  have followed :
      Followed library options.maxStackDepth options.maxStackDepth
        (Session.Continues machine.delivered) fewer
        (options.maxStackDepth + 2) :=
    .of_matches (Session.matches_continues _) (Nat.le_refl _) _ _
  obtain ⟨aloneEnded, aloneReads, continues⟩ :=
    followed.exists_readText (Nat.le_of_succ_le enoughFiles) (Nat.le_refl _)
      (fun script stripped =>
        Site.opensAlike_of_apart fun inner reaches =>
          apart inner
            (.head (.inclusion (by simpa using notOpen) found stripped)
              reaches))
      isContinued reads
  refine
    ⟨⟨story, aloneEnded.delivered, aloneEnded.requested⟩, ?_, isNode, ?_⟩
  · rw [firstSession] at aloneReads
    simp only [readScript, bind, Except.bind, aloneReads]
    rfl
  · rw [delivered, continues.delivered]

section Passing

variable
    {files levels : Nat}
    {α : Type}
    [StandsFor α]

/-- The machine behind rules that are tried one after the other and all fail. -/
def Site.passed?
    (library : Library)
    (maxDepth files levels : Nat) :
    List (GrammarRule α) → Machine Workshop → Option (Machine Workshop)
  | [], machine => some machine
  | rule :: others, machine =>
      match Site.outcome library maxDepth
          ⟨files, levels, .attempt (Rule.parse rule), machine⟩ with
      | .matched none after =>
          Site.passed? library maxDepth files levels others after
      | _ => none

/-- Behind rules that fail, the others are tried. -/
theorem Site.Reaches.passed
    {rules : List (GrammarRule α)}
    {machine : Machine Workshop}
    (count : Nat)
    (reaches :
      Reaches library maxDepth site
        ⟨files, levels, Rule.oneOf.firstOf rules, machine⟩)
    (passes :
      (Site.passed? library maxDepth files levels (rules.take count)
        machine).isSome = true) :
    Reaches library maxDepth site
      ⟨files, levels, Rule.oneOf.firstOf (rules.drop count),
        (Site.passed? library maxDepth files levels (rules.take count)
          machine).getD machine⟩ := by
  obtain ⟨after, isAfter⟩ := Option.isSome_iff_exists.mp passes
  rw [isAfter, Option.getD_some]
  clear passes
  induction rules generalizing count machine with
  | nil =>
      simp only [List.take_nil, Site.passed?, Option.some.injEq] at isAfter
      rw [List.drop_nil, ← isAfter]
      exact reaches
  | cons rule others inductionHypothesis =>
      cases count with
      | zero =>
          cases isAfter
          exact reaches
      | succ count =>
          simp only [List.take_succ_cons, Site.passed?] at isAfter
          split at isAfter
          · next between matched =>
              exact
                inductionHypothesis count (reaches.tail (.next matched))
                  isAfter
          · cases isAfter

end Passing

section Part

/-- One file, with a complaint about its text. -/
def partLibrary : Library :=
  .ofFiles [("part.ink", "Hello \x7bx\n")]

/-- The depth of the stack unless options say otherwise. -/
abbrev usualDepth : Nat :=
  ({} : Options).maxStackDepth

/-- A line that includes the file comes by the node for it. -/
private theorem exists_visit_of_part :
    ∃ levels machine,
      Visits partLibrary {} "INCLUDE part.ink\n" none
          ⟨partLibrary.size + 1, levels, Grammar.includedNode "part.ink",
            machine⟩ ∧
        machine.host.session.openFiles.contains
            (partLibrary.resolve "part.ink") =
          false ∧
        ((Site.ofScript usualDepth partLibrary.size "Hello \x7bx\n"
              (some "part.ink")
              ((machine.host.session.request
                    (partLibrary.resolve "part.ink")).enter
                (partLibrary.resolve "part.ink"))).outcomeAlone
            usualDepth).after?.isSome =
          true ∧
        Site.yields partLibrary usualDepth
            ⟨partLibrary.size + 1, levels, Grammar.includedNode "part.ink",
              machine⟩
            (fun _ => true) =
          true ∧
        (Site.after partLibrary usualDepth
            ⟨partLibrary.size + 1, levels, Grammar.includedNode "part.ink",
              machine⟩).delivered.isEmpty =
          false := by
  have rounds :=
    Site.Reaches.rounds (by decide)
      (firstSite_reaches_statements partLibrary {} none "INCLUDE part.ink\n")
      (by decide +kernel) (by decide +kernel)
  obtain ⟨stops, goesOn, piece⟩ :=
    Site.Reaches.yielded (!·) (rounds.tail .round) (by decide +kernel)
  obtain rfl : stops = false := by
    simpa using goesOn
  have piece :=
    Site.Reaches.parsed ((piece.tail .first).tail .attempted)
      (by decide +kernel)
  -- Ten kinds of statements are tried in vain before inclusions.
  have kinds :=
    Site.Reaches.parsed ((piece.tail .first).tail .first) (by decide +kernel)
  have tried := Site.Reaches.passed 10 kinds (by decide +kernel)
  have line :=
    Site.Reaches.parsed ((tried.tail .first).tail .attempted)
      (by decide +kernel)
  have inclusion :=
    Site.Reaches.parsed ((line.tail .first).tail .first) (by decide +kernel)
  obtain ⟨_, -, word⟩ :=
    Site.Reaches.yielded (fun _ => true) inclusion (by decide +kernel)
  obtain ⟨_, -, blanks⟩ :=
    Site.Reaches.yielded (fun _ => true) word (by decide +kernel)
  obtain ⟨_, -, name⟩ :=
    Site.Reaches.yielded (fun _ => true) blanks (by decide +kernel)
  obtain ⟨written, isName, named⟩ :=
    Site.Reaches.yielded (· == some "part.ink") name (by decide +kernel)
  obtain rfl : written = some "part.ink" := by
    simpa using isName
  have trimmed : trimEnd "part.ink" = "part.ink" := by
    decide +kernel
  have visits :
      Visits partLibrary {} "INCLUDE part.ink\n" none
        ⟨_, _, Grammar.includedNode (trimEnd "part.ink"), _⟩ :=
    .of_reaches (by decide +kernel) named
  rw [trimmed] at visits
  refine ⟨_, _, visits, ?_, ?_, ?_, ?_⟩
  · decide +kernel
  · decide +kernel
  · decide +kernel
  · decide +kernel

/-- A file is included with its complaint as it is read alone. -/
theorem exists_reading_of_includedNode_with_complaint :
    ∃ levels machine node after reading,
      Visits partLibrary {} "INCLUDE part.ink\n" none
          ⟨partLibrary.size + 1, levels, Grammar.includedNode "part.ink",
            machine⟩ ∧
        Site.outcome partLibrary usualDepth
            ⟨partLibrary.size + 1, levels, Grammar.includedNode "part.ink",
              machine⟩ =
          .matched node after ∧
        after.delivered ≠ [] ∧
        readScript partLibrary {} "Hello \x7bx\n" (some "part.ink") =
          .ok reading ∧
        after.host.draft.kind? node =
          some (.includedFile (some reading.story)) ∧
        after.delivered = machine.delivered ++ reading.diagnostics := by
  obtain ⟨levels, machine, visits, notOpen, alone, yields, complains⟩ :=
    exists_visit_of_part
  obtain ⟨node, -, matched⟩ := Site.exists_matched_of_yields yields
  have found :
      partLibrary.read (partLibrary.resolve "part.ink") =
        some "Hello \x7bx\n" := by
    decide +kernel
  have stripped : Comment.strip "Hello \x7bx\n" = .ok "Hello \x7bx\n" :=
    Comment.strip_eq_ok_iff.mpr (by decide +kernel)
  have isClosed :
      partLibrary.resolve "part.ink" ∉ machine.host.session.openFiles := by
    simpa using notOpen
  obtain ⟨reading, reads, isNode, delivered⟩ :=
    exists_reading_of_includedNode visits found
      (fun inner =>
        Site.not_detectsRecursion_of_include isClosed found stripped alone)
      matched
  refine
    ⟨levels, machine, node, _, reading, visits, matched, ?_, reads, isNode,
      delivered⟩
  intro empty
  rw [empty] at complains
  cases complains

end Part

end Reading

end InkSyntax
