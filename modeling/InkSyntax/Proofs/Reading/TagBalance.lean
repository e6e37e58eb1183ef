import InkSyntax.Proofs.Grammar.TagStatements
import InkSyntax.Proofs.Reading.Deliveries
import InkSyntax.Proofs.Reading.StoryTrees

namespace InkSyntax.Reading

/-!
# Readings in which tags are balanced

Constructs carry tags on at every depth, since their rules do at the depth below, and
so do files, as their scripts come to trees in which tags begin and end in turn.  A
reading that delivers nothing comes by no report.  So in its stories tags alternate,
unless it comes by one of the places where a tag is lost.
-/

variable
    {library : Library}
    {options : Options}
    {maxDepth files : Nat}
    {text script : String}
    {file : Option String}
    {session ended : Session}
    {story : Story}

/-- Constructs are read so that tags are carried on if those one level down are. -/
theorem balances_of_fewer
    {levels : Nat}
    (fewer :
      ∀ {fewer},
        levels = fewer + 1 →
        Grammar.Balances library maxDepth files fewer)
    (include_ :
      ∀ (file : String) (machine : Machine Workshop),
        Grammar.EnsuresCleanly library maxDepth files levels
          (.effect (.include file)) machine
          (fun inclusion after =>
            machine.Rests after ∧
              ∀ story, inclusion = .story story → story.TagsAlternateThroughout)
          fun _ => False) :
    Grammar.Balances library maxDepth files levels where
  expression weakerThan calm machine _ passes toggles :=
    .construct fun same =>
      (Grammar.carries_expressionAbove calm weakerThan).carrying (fewer same)
        machine passes toggles
  operand calm machine _ passes toggles :=
    .construct fun same =>
      (Grammar.carries_operand calm).carrying (fewer same) machine passes toggles
  prose machine _ passes toggles :=
    .construct fun same =>
      Grammar.carries_mixedProse.carrying (fewer same) machine passes toggles
  quoted machine _ passes toggles :=
    .construct fun same =>
      Grammar.carries_mixedProse_quoted.carrying (fewer same) machine passes
        toggles
  statements suits machine _ passes toggles :=
    .construct fun same =>
      (Grammar.carries_statementRun suits).carrying (fewer same) machine passes
        toggles
  recovers suits machine passes :=
    .construct fun same =>
      Grammar.recovers_statementRun suits (fewer same) machine passes
  include_ := include_

/-- Tags alternate in what is read of a text in a clean run. -/
theorem tagsAlternateThroughout_of_clean
    (balances : ∀ levels, Grammar.Balances library maxDepth files levels)
    (reads :
      readText library maxDepth (files + 1) text file session =
        .ok (story, ended))
    (stripped : Comment.strip text = .ok script)
    (clean :
      (Site.ofScript maxDepth files script file session).Clean library
        maxDepth) :
    story.TagsAlternateThroughout := by
  obtain ⟨_, root, after, isScript, matched, rfl⟩ :=
    exists_frozen_of_readText reads
  obtain rfl := Except.ok.inj (stripped.symm.trans isScript)
  let machine : Machine Workshop :=
    .start script.toList maxDepth { file := file, session := session }
  have noTag : Flag.marksTag 0 = false := by decide
  have begins : Flag.Closed machine.top.flags false := ⟨noTag, rfl⟩
  have carried :=
    Grammar.carries_script.carrying (balances (maxDepth + 2)) machine begins .nil
      clean
  obtain ⟨-, _, ⟨-, rfl⟩, toggles⟩ :=
    (Outcome.ensures_iff.mp carried).1 root after matched
  have ran :
      (Workshop.readScript maxDepth (inclusions library maxDepth files)
        _).Guarantees _ _ :=
    guarantees_readScript isExhaustion_of_readText script.toList file session
  rw [matched] at ran
  obtain ⟨-, nodes, holds, -⟩ := ran
  obtain ⟨entries, frozen, freezes, -, isFrozen⟩ :=
    holds.exists_freezes (.between (.atStart script.toList) after.cursor)
  rw [isFrozen]
  exact freezes.tagsAlternateThroughout toggles

/-- Tags alternate in a file that is included in a clean run. -/
theorem ensures_include
    {levels : Nat}
    (fewer :
      ∀ {fewer} levels,
        files = fewer + 1 →
        Grammar.Balances library maxDepth fewer levels)
    (name : String)
    (machine : Machine Workshop) :
    Grammar.EnsuresCleanly library maxDepth files levels
      (.effect (.include name)) machine
      (fun inclusion after =>
        machine.Rests after ∧
          ∀ story, inclusion = .story story → story.TagsAlternateThroughout)
      fun _ => False := by
  intro clean
  simp only [Grammar.Ensures, Site.outcome, Rule.run, performs,
    Workshop.handle, inclusions, includeFile]
  split
  · exact ⟨.refl machine, by simp⟩
  next notOpen =>
    cases found : library.read (library.resolve name) with
    | none =>
        exact ⟨⟨rfl, rfl⟩, by simp⟩
    | some text =>
        simp only
        split
        · trivial
        next story ended reads =>
          refine ⟨⟨rfl, rfl⟩, ?_⟩
          rintro _ ⟨⟩
          cases files with
          | zero =>
              cases reads
          | succ files =>
              obtain ⟨script, stripped⟩ := Comment.exists_strip text
              refine
                tagsAlternateThroughout_of_clean (fun levels => fewer levels rfl)
                  reads stripped (clean.enters ?_)
              exact .inclusion (by simpa using notOpen) found stripped

theorem balances_of_fewerFiles
    (fewer :
      ∀ {fewer} levels,
        files = fewer + 1 →
        Grammar.Balances library maxDepth fewer levels)
    (levels : Nat) :
    Grammar.Balances library maxDepth files levels := by
  induction levels with
  | zero =>
      exact balances_of_fewer nofun (ensures_include fewer)
  | succ levels inductionHypothesis =>
      refine balances_of_fewer ?_ (ensures_include fewer)
      rintro _ ⟨⟩
      exact inductionHypothesis

/-- Tags are carried on however deep constructs and files may still nest. -/
theorem balances
    (levels : Nat) :
    Grammar.Balances library maxDepth files levels := by
  induction files generalizing levels with
  | zero =>
      refine balances_of_fewerFiles ?_ levels
      rintro _ _ ⟨⟩
  | succ files inductionHypothesis =>
      refine balances_of_fewerFiles ?_ levels
      rintro _ levels ⟨⟩
      exact inductionHypothesis levels

/-- A reading that delivers nothing comes by no report. -/
theorem not_visits_report
    {reading : Reading}
    (completes : readScript library options text file = .ok reading)
    (silent : reading.diagnostics = [])
    {files levels line : Nat}
    {severity : Severity}
    {message : String}
    {machine : Machine Workshop} :
    ¬ Visits library options text file
      ⟨files, levels, .report severity line message, machine⟩ := by
  intro visits
  obtain ⟨after, ends, delivered⟩ := visits.delivered_prefix completes
  cases ends
  rw [silent, List.prefix_nil, Machine.delivered_report] at delivered
  split at delivered
  next reported =>
    exact visits.markedByDelivery _ List.mem_cons_self reported delivered
  next =>
    exact List.append_ne_nil_of_right_ne_nil _ (List.cons_ne_nil _ _) delivered

/-- In the stories of a reading that delivers nothing every tag that begins ends, and
tags do so in turn, unless the reading comes by a place where a tag is lost. -/
theorem tagsAlternate_or_exists_losesTag
    {reading : Reading}
    (completes : readScript library options text file = .ok reading)
    (silent : reading.diagnostics = []) :
    (∀ story,
        story = reading.story ∨ reading.story.Includes story →
        story.TagsAlternate) ∨
      ∃ site,
        Visits library options text file site ∧
          site.LosesTag library options.maxStackDepth := by
  refine Classical.or_iff_not_imp_right.mpr fun loses => ?_
  obtain ⟨script, stripped⟩ := Comment.exists_strip text
  have clean :
      (firstSite library options file script).Clean library
        options.maxStackDepth :=
    { silent := fun reaches =>
        not_visits_report completes silent ⟨script, stripped, reaches⟩
      marked := fun inner reaches isLost =>
        loses ⟨inner, ⟨script, stripped, reaches⟩, isLost⟩ }
  have alternates : reading.story.TagsAlternateThroughout := by
    simp only [readScript, bind, Except.bind] at completes
    split at completes
    · cases completes
    · next pair reads =>
        cases completes
        exact tagsAlternateThroughout_of_clean balances reads stripped clean
  intro story included
  apply alternates
  rcases included with rfl | includes
  · exact .refl
  · exact includes.to_reflTransGen

/-- A tag in a file, and one that ends in front of a divert. -/
theorem tagsAlternate_or_exists_losesTag_of_inclusion :
    ∃ reading,
      readScript (.ofFiles [("a.ink", "b # c\n")]) {}
            "INCLUDE a.ink\nd # e -> DONE\n" none =
          .ok reading ∧
        reading.diagnostics = [] ∧
        ((∀ story,
            story = reading.story ∨ reading.story.Includes story →
            story.TagsAlternate) ∨
          ∃ site,
            Visits (.ofFiles [("a.ink", "b # c\n")]) {}
                "INCLUDE a.ink\nd # e -> DONE\n" none site ∧
              site.LosesTag (.ofFiles [("a.ink", "b # c\n")]) 200) := by
  have delivers :
      (readScript (.ofFiles [("a.ink", "b # c\n")]) {}
            "INCLUDE a.ink\nd # e -> DONE\n" none).toOption.any
          (·.diagnostics.isEmpty) =
        true := by
    decide +kernel
  obtain ⟨reading, completes, isEmpty⟩ := exists_reading_of_any delivers
  have silent := List.isEmpty_iff.mp isEmpty
  exact
    ⟨reading, completes, silent,
      tagsAlternate_or_exists_losesTag completes silent⟩

end InkSyntax.Reading
