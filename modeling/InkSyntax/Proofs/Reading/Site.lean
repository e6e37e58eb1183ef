import InkSyntax.Proofs.Machine.Outcome
import InkSyntax.Reading
import Mathlib.Logic.Relation

namespace InkSyntax.Reading

/-!
# Where a reading comes by

A site is a rule about to run on a machine, somewhere inside the reading of a
script or of a file that it includes.  One site enters another if running its
rule runs the other's rule there.  The sites that a reading visits are those that
its first site reaches, so a statement about every site is one about every call
of a rule, in every state that a reading can be in.

What holds along a whole run is shown here once: a relation between machines that
every step respects relates the machine at a site with the one that the run at
this site ends with.
-/

variable
    (library : Library)
    (maxDepth : Nat)

/-- How a script includes files, with inclusions inside these so deep. -/
def inclusions (files : Nat) : String → Action Workshop Inclusion :=
  includeFile library fun text name =>
    readText library maxDepth files text (some name)

/-- What operations do where files and constructs may still nest so deep. -/
def performs (files levels : Nat) {α : Type} : Craft α → Action Workshop α :=
  Workshop.handle
    (Workshop.readWithin maxDepth (inclusions library maxDepth files) levels)
    (inclusions library maxDepth files)

/-- A rule about to run on a machine. -/
structure Site where
  /-- How deep inclusions may still nest. -/
  files : Nat
  /-- How deep constructs may still nest. -/
  levels : Nat
  {Result : Type}
  rule : GrammarRule Result
  machine : Machine Workshop

namespace Site

/-- What running the rule of a site comes to. -/
def outcome (site : Site) : Outcome Workshop site.Result :=
  site.rule.run (performs library maxDepth site.files site.levels)
    site.machine

/-- The site at which the text of a script begins to be read. -/
def ofScript
    (files : Nat)
    (script : String)
    (file : Option String)
    (session : Session) :
    Site where
  files := files
  levels := maxDepth + 2
  rule := Grammar.script
  machine := .start script.toList maxDepth { file := file, session := session }

/-- Running the rule of the first site runs the rule of the second one there. -/
inductive Enters : Site → Site → Prop where
  | first
      {files levels : Nat}
      {α β : Type}
      {first : GrammarRule α}
      {next : α → GrammarRule β}
      {machine : Machine Workshop} :
      Enters
        ⟨files, levels, .bind first next, machine⟩
        ⟨files, levels, first, machine⟩
  | next
      {files levels : Nat}
      {α β : Type}
      {first : GrammarRule α}
      {next : α → GrammarRule β}
      {machine after : Machine Workshop}
      {value : α}
      (matched :
        outcome library maxDepth ⟨files, levels, first, machine⟩ =
          .matched value after) :
      Enters
        ⟨files, levels, .bind first next, machine⟩
        ⟨files, levels, next value, after⟩
  | attempted
      {files levels : Nat}
      {α : Type}
      {rule : GrammarRule α}
      {machine : Machine Workshop} :
      Enters
        ⟨files, levels, .attempt rule, machine⟩
        ⟨files, levels, rule, machine⟩
  | inScope
      {files levels : Nat}
      {α : Type}
      {fate : α → Fate}
      {rule : GrammarRule α}
      {machine opened : Machine Workshop}
      {number : RuleId}
      (opens : machine.openScope = .ok (number, opened)) :
      Enters
        ⟨files, levels, .scope fate rule, machine⟩
        ⟨files, levels, rule, opened⟩
  | round
      {files levels : Nat}
      {σ α : Type}
      {state : σ}
      {round : σ → GrammarRule (σ ⊕ α)}
      {machine : Machine Workshop} :
      Enters
        ⟨files, levels, .loop state round, machine⟩
        ⟨files, levels, round state, machine⟩
  | again
      {files levels : Nat}
      {σ α : Type}
      {state next : σ}
      {round : σ → GrammarRule (σ ⊕ α)}
      {machine after : Machine Workshop}
      (matched :
        outcome library maxDepth ⟨files, levels, round state, machine⟩ =
          .matched (.inl next) after) :
      Enters
        ⟨files, levels, .loop state round, machine⟩
        ⟨files, levels, .loop next round, after⟩
  | construct
      {files levels : Nat}
      {α : Type}
      {construct : Construct α}
      {machine : Machine Workshop} :
      Enters
        ⟨files, levels + 1, .effect (.read construct), machine⟩
        ⟨files, levels, Grammar.rule construct, machine⟩
  | inclusion
      {files levels : Nat}
      {name text script : String}
      {machine : Machine Workshop}
      (notOpen :
        machine.host.session.openFiles.contains
          (library.resolve name) = false)
      (found : library.read (library.resolve name) = some text)
      (stripped : Comment.strip text = .ok script) :
      Enters
        ⟨files + 1, levels, .effect (.include name), machine⟩
        (ofScript maxDepth files script (some name)
          ((machine.host.session.request (library.resolve name)).enter
            (library.resolve name)))

/-- One site is entered from another, directly or through others. -/
abbrev Reaches : Site → Site → Prop :=
  Relation.ReflTransGen (Enters library maxDepth)

/-- The machine in the end, or that of the site if its run faults. -/
def after (site : Site) : Machine Workshop :=
  (site.outcome library maxDepth).after?.getD site.machine

/-- The rule of a site matches with a value that passes a test. -/
def yields (site : Site) (test : site.Result → Bool) : Bool :=
  match site.outcome library maxDepth with
  | .matched value _ => test value
  | _ => false

section Reaching

variable
    {library : Library}
    {maxDepth files levels : Nat}
    {site : Site}
    {machine : Machine Workshop}
    {α β : Type}

theorem exists_matched_of_yields
    {test : site.Result → Bool}
    (yields : site.yields library maxDepth test = true) :
    ∃ value,
      test value = true ∧
        site.outcome library maxDepth =
          .matched value (site.after library maxDepth) := by
  unfold Site.yields at yields
  unfold after
  cases ran : site.outcome library maxDepth with
  | matched value after =>
      rw [ran] at yields
      exact ⟨value, yields, rfl⟩
  | failed after =>
      rw [ran] at yields
      cases yields
  | faulted fault =>
      rw [ran] at yields
      cases yields

theorem after?_eq_some_after
    (ends : (site.outcome library maxDepth).after?.isSome = true) :
    (site.outcome library maxDepth).after? =
      some (site.after library maxDepth) := by
  obtain ⟨after, isAfter⟩ := Option.isSome_iff_exists.mp ends
  rw [Site.after, isAfter, Option.getD_some]

namespace Reaches

theorem parsed
    [StandsFor α]
    {rule : GrammarRule α}
    (reaches :
      Reaches library maxDepth site
        ⟨files, levels, Rule.parse rule, machine⟩)
    (room : machine.stack.height < machine.stack.maxDepth) :
    Reaches library maxDepth site
      ⟨files, levels, rule, machine.opened⟩ :=
  reaches.tail (.inScope (Machine.openScope_eq_ok_iff.mpr ⟨room, rfl, rfl⟩))

/-- What follows a rule that matches is come by with some value of the rule. -/
theorem yielded
    {first : GrammarRule α}
    {next : α → GrammarRule β}
    (test : α → Bool)
    (reaches :
      Reaches library maxDepth site
        ⟨files, levels, first >>= next, machine⟩)
    (yields :
      Site.yields library maxDepth ⟨files, levels, first, machine⟩ test =
        true) :
    ∃ value,
      test value = true ∧
        Reaches library maxDepth site
          ⟨files, levels, next value,
            Site.after library maxDepth ⟨files, levels, first, machine⟩⟩ := by
  obtain ⟨value, passes, matched⟩ := exists_matched_of_yields yields
  exact ⟨value, passes, reaches.tail (.next matched)⟩

/-- A loop goes on behind a round that asks for another. -/
theorem again
    {σ : Type}
    {state : σ}
    {round : σ → GrammarRule (σ ⊕ β)}
    (reaches :
      Reaches library maxDepth site
        ⟨files, levels, .loop state round, machine⟩)
    (yields :
      Site.yields library maxDepth ⟨files, levels, round state, machine⟩
          (·.isLeft) =
        true) :
    ∃ next,
      Reaches library maxDepth site
        ⟨files, levels, .loop next round,
          Site.after library maxDepth
            ⟨files, levels, round state, machine⟩⟩ := by
  obtain ⟨result, isNext, matched⟩ := exists_matched_of_yields yields
  obtain ⟨next, rfl⟩ := Sum.isLeft_iff.mp isNext
  exact ⟨next, reaches.tail (.again matched)⟩

end Reaches

end Reaching

end Site

/-- What a reading of a whole script begins with. -/
def firstSession
    (options : Options)
    (file : Option String) :
    Session where
  warningsAsErrors := options.warningsAsErrors
  openFiles := (file.map library.resolve).toList

/-- The site at which a reading of a whole script begins. -/
def firstSite
    (options : Options)
    (file : Option String)
    (script : String) :
    Site :=
  .ofScript options.maxStackDepth (library.size + 1) script file
    (firstSession library options file)

/-- A script is read as statements first. -/
theorem firstSite_reaches_statements
    (options : Options)
    (file : Option String)
    (script : String) :
    Site.Reaches library options.maxStackDepth
      (firstSite library options file script)
      ⟨library.size + 1, options.maxStackDepth + 2, Grammar.statements .top,
        (firstSite library options file script).machine⟩ :=
  .head .first (.head .first (.single .attempted))

/-- Reading a text with these options comes by a site. -/
def Visits
    (options : Options)
    (text : String)
    (file : Option String)
    (site : Site) : Prop :=
  ∃ script,
    Comment.strip text = .ok script ∧
      Site.Reaches library options.maxStackDepth
        (firstSite library options file script) site

/-- A text without comments is read as it is. -/
theorem Visits.of_reaches
    {library : Library}
    {options : Options}
    {text : String}
    {file : Option String}
    {site : Site}
    (kept : (Comment.strip text).toOption = some text)
    (reaches :
      Site.Reaches library options.maxStackDepth
        (firstSite library options file text) site) :
    Visits library options text file site := by
  refine ⟨text, ?_, reaches⟩
  cases strips : Comment.strip text with
  | error fault =>
      rw [strips] at kept
      cases kept
  | ok script =>
      rw [strips] at kept
      cases kept
      rfl

/-- A reading that can be checked is one that came to an end. -/
theorem exists_reading_of_any
    {library : Library}
    {options : Options}
    {text : String}
    {file : Option String}
    {check : Reading → Bool}
    (checked :
      (readScript library options text file).toOption.any check = true) :
    ∃ reading,
      readScript library options text file = .ok reading ∧
        check reading = true := by
  cases reads : readScript library options text file with
  | error fault =>
      rw [reads] at checked
      cases checked
  | ok reading =>
      rw [reads] at checked
      exact ⟨reading, rfl, checked⟩

/-- A text that is read to its end was read from the site of its script. -/
theorem exists_site_of_readText
    {library : Library}
    {maxDepth files : Nat}
    {text : String}
    {file : Option String}
    {session ended : Session}
    {story : Story}
    (reads :
      readText library maxDepth (files + 1) text file session =
        .ok (story, ended)) :
    ∃ script after,
      Comment.strip text = .ok script ∧
        (Site.outcome library maxDepth
            (.ofScript maxDepth files script file session)).after? =
          some after ∧
        ended = after.host.session := by
  simp only [readText, Workshop.readScript, bind, Except.bind] at reads
  cases stripped : Comment.strip text with
  | error fault =>
      simp [stripped] at reads
  | ok script =>
      simp only [stripped] at reads
      refine ⟨script, ?_⟩
      split at reads
      · next root after matched =>
          cases reads
          exact ⟨after, rfl, congrArg Outcome.after? matched, rfl⟩
      · next after failed =>
          cases reads
          exact ⟨after, rfl, congrArg Outcome.after? failed, rfl⟩
      · cases reads

end InkSyntax.Reading
