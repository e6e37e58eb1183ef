import InkSyntax.Proofs.Comments
import InkSyntax.Proofs.Reading.Faults
import InkSyntax.Proofs.Reading.IncludedReadings
import InkSyntax.Proofs.Reading.PlainDepth
import InkSyntax.Proofs.Reading.Signs

namespace InkSyntax

/-!
# Plain prose fits on the stack

Where a rule begins with room for the scopes that it opens, it never finds the stack
full: a scope takes one place and leaves the others to what runs inside, and whatever
ran before gave back what it took.  The scopes of plain prose do not depend on the
length of the text, so a small stack holds them all.  Every text is read on a stack of
its own, that of an included file as well.
-/

/-- A run does not break off for want of room on the stack. -/
def Outcome.Fits
    {H α : Type}
    (outcome : Outcome H α) : Prop :=
  match outcome with
  | .faulted fault => ∀ height, fault ≠ .stackOverflow height
  | _ => True

/-- Work on the workshop takes no room. -/
theorem Workshop.Works.fits
    {machine : Machine Workshop}
    {α : Type}
    {outcome : Outcome Workshop α}
    (works : Works machine outcome) :
    outcome.Fits := by
  obtain ⟨index, rfl⟩ | ⟨value, host, rfl, same⟩ := works
  · exact fun height => Fault.noConfusion
  · trivial

/-- Without its comments the text holds none of the barriers. -/
def IsPlainProse (text : String) : Prop :=
  ∀ script, Comment.strip text = .ok script → Grammar.IsPlain script.toList

/-- It is enough to look at what is left of the text. -/
theorem IsPlainProse.of_strip
    {text : String}
    (plain :
      (Comment.strip text).toOption.all (Grammar.IsPlain ·.toList) = true) :
    IsPlainProse text := by
  intro script stripped
  simpa [stripped, Except.toOption] using plain

namespace Reading

/-- The text in front is plain, and there is room for some scopes. -/
structure HasStack
    (depth : Nat)
    (machine : Machine Workshop) : Prop where
  plain : Grammar.IsPlain machine.cursor.rest
  room : machine.stack.height + depth ≤ machine.stack.maxDepth

variable
    {library : Library}
    {maxDepth files levels depth : Nat}
    {machine after : Machine Workshop}
    {α : Type}

/-- What ran before gave back the room that it took. -/
theorem HasStack.proceeds
    (hasStack : HasStack depth machine)
    (proceeds : machine.Proceeds after) :
    HasStack depth after where
  plain := hasStack.plain.of_reaches proceeds.cursor
  room := by
    rw [proceeds.height, proceeds.maxDepth]
    exact hasStack.room

theorem HasStack.opened
    (hasStack : HasStack (depth + 1) machine) :
    HasStack depth machine.opened where
  plain := hasStack.plain
  room := by
    have room := hasStack.room
    rw [Machine.height_opened]
    change machine.stack.height + 1 + depth ≤ machine.stack.maxDepth
    omega

/-- A rule fits where it has room for the scopes that it opens, if operations do. -/
theorem fits_run
    (effects :
      ∀ {γ : Type} {depth : Nat} {machine : Machine Workshop}
        (operation : Craft γ),
        operation.OpensAtMost depth →
        depth ≤ levels →
        HasStack depth machine →
        (performs library maxDepth files levels operation machine).Fits)
    (rule : GrammarRule α)
    (opens : Rule.OpensAtMost depth rule)
    (enough : depth ≤ levels)
    (hasStack : HasStack depth machine) :
    (rule.run (performs library maxDepth files levels) machine).Fits := by
  induction rule generalizing depth machine with
  | bind first next firstHypothesis nextHypothesis =>
      obtain ⟨firstOpens, nextOpens⟩ := opens
      have fits := firstHypothesis firstOpens enough hasStack
      have moved :=
        Site.ends_proceeds library maxDepth ⟨files, levels, first, machine⟩
      simp only [Site.outcome] at moved
      simp only [Rule.run]
      cases ran :
          first.run (performs library maxDepth files levels) machine with
      | matched value middle =>
          rw [ran] at moved
          rcases nextOpens with barred | nextOpens
          · have never :=
              barred library maxDepth files levels machine hasStack.plain
            simp only [Grammar.Ensures, Site.outcome, ran] at never
            exact never.elim
          · exact
              nextHypothesis value (nextOpens value) enough
                (hasStack.proceeds moved)
      | failed after =>
          trivial
      | faulted fault =>
          rw [ran] at fits
          exact fits
  | attempt rule inductionHypothesis =>
      have fits := inductionHypothesis opens enough hasStack
      simp only [Rule.run]
      cases ran :
          rule.run (performs library maxDepth files levels) machine with
      | faulted fault =>
          rw [ran] at fits
          exact fits
      | _ =>
          trivial
  | scope fate rule inductionHypothesis =>
      obtain ⟨inner, rfl, innerOpens⟩ := opens
      have fits :=
        inductionHypothesis innerOpens (Nat.le_of_succ_le enough)
          hasStack.opened
      have moved :=
        Site.ends_proceeds library maxDepth
          ⟨files, levels, rule, machine.opened⟩
      have room : machine.stack.height < machine.stack.maxDepth := by
        have := hasStack.room
        omega
      cases ran :
          (Rule.scope fate rule).run (performs library maxDepth files levels)
            machine with
      | faulted fault =>
          rw [Rule.faulted_of_scope room moved ran] at fits
          exact fits
      | _ =>
          trivial
  | @loop σ _ state round inductionHypothesis =>
      have rounds
          (count : Nat)
          (state : σ)
          (machine : Machine Workshop)
          (hasStack : HasStack depth machine) :
          (Action.iterate
              (fun state =>
                (round state).run (performs library maxDepth files levels))
              count state machine).Fits := by
        induction count generalizing state machine with
        | zero =>
            exact fun height => Fault.noConfusion
        | succ count countHypothesis =>
            have fits :=
              inductionHypothesis state (opens state) enough hasStack
            have moved :=
              Site.ends_proceeds library maxDepth
                ⟨files, levels, round state, machine⟩
            simp only [Site.outcome] at moved
            simp only [Action.iterate]
            cases ran :
                (round state).run (performs library maxDepth files levels)
                  machine with
            | faulted fault =>
                rw [ran] at fits
                exact fits
            | failed after =>
                trivial
            | matched result after =>
                rw [ran] at moved
                cases result with
                | inl next =>
                    exact countHypothesis next after (hasStack.proceeds moved)
                | inr value =>
                    trivial
      exact rounds machine.rounds state machine hasStack
  | scan scanner =>
      simp only [Rule.run]
      split <;> trivial
  | effect operation =>
      exact effects operation opens enough hasStack
  | _ =>
      trivial

/-- An operation fits where it has room, if inclusions fit on stacks of their own. -/
theorem fits_performs
    (includes :
      ∀ name machine, (inclusions library maxDepth files name machine).Fits)
    (levels : Nat)
    (operation : Craft α)
    (opens : operation.OpensAtMost depth)
    (enough : depth ≤ levels)
    (hasStack : HasStack depth machine) :
    (performs library maxDepth files levels operation machine).Fits := by
  induction levels generalizing α depth machine with
  | zero =>
      refine
        Workshop.handle_cases_of
          (motive := fun operation outcome =>
            operation.OpensAtMost depth → outcome.Fits)
          (fun _ _ works _ => works.fits)
          (fun name _ => includes name machine) ?_ operation opens
      rintro β construct ⟨inner, -, shallower⟩
      omega
  | succ levels levelsHypothesis =>
      refine
        Workshop.handle_cases_of
          (motive := fun operation outcome =>
            operation.OpensAtMost depth → outcome.Fits)
          (fun _ _ works _ => works.fits)
          (fun name _ => includes name machine) ?_ operation opens
      rintro β construct ⟨inner, isDepth, shallower⟩
      exact
        fits_run levelsHypothesis (Grammar.rule construct)
          (Grammar.opensAtMost_rule isDepth) (by omega)
          { hasStack with room := by have := hasStack.room; omega }

section Texts

variable
    {options : Options}
    {text : String}
    {file : Option String}
    {session : Session}

/-- The stack that plain prose fits on, with the checkpoint that is always there. -/
def plainStack : Nat := 32

/-- A plain text and all that it includes fit, if all files are plain. -/
theorem readText_ne_stackOverflow
    (room : plainStack ≤ maxDepth)
    (included :
      ∀ path text, library.read path = some text → IsPlainProse text)
    (plain : IsPlainProse text)
    (height : Nat) :
    readText library maxDepth files text file session ≠
      .error (.stackOverflow height) := by
  induction files generalizing text file session height with
  | zero =>
      exact nofun
  | succ files inductionHypothesis =>
      have includes
          (name : String)
          (machine : Machine Workshop) :
          (inclusions library maxDepth files name machine).Fits := by
        simp only [inclusions, includeFile]
        split
        · trivial
        · split
          · trivial
          · next content found =>
              split
              · next fault broken =>
                  rintro height rfl
                  exact
                    inductionHypothesis (included _ _ found) height broken
              · trivial
      intro broken
      obtain ⟨script, stripped⟩ := Comment.exists_strip text
      simp only [readText, stripped, bind, Except.bind] at broken
      have hasStack :
          HasStack 31
            (Machine.start script.toList maxDepth
              ({ file := file, session := session } : Workshop)) :=
        { plain := plain script stripped
          room := by
            have := Nat.le_max_left maxDepth 1
            simp only [plainStack] at room
            change 1 + 31 ≤ max maxDepth 1
            omega }
      have fits :
          (Workshop.readScript maxDepth (inclusions library maxDepth files)
            _).Fits :=
        fits_run (fits_performs includes (maxDepth + 2)) Grammar.script
          Grammar.opensAtMost_script
          (by simp only [plainStack] at room; omega) hasStack
      split at broken
      · cases broken
      · cases broken
      · next fault faults =>
          cases broken
          rw [inclusions, faults] at fits
          exact fits height rfl

/-- Plain prose of any length fits on the stack, and any comment fits on its own. -/
theorem plainProse_fits :
    (∀ (library : Library) (options : Options) (text : String)
        (file : Option String),
      plainStack ≤ options.maxStackDepth →
      (∀ path content,
        library.read path = some content → IsPlainProse content) →
      IsPlainProse text →
      ∀ height,
        readScript library options text file ≠
            .error (.stackOverflow height) ∧
          readScriptStrictly library options text file ≠
            .error (.fault (.stackOverflow height))) ∧
      ∀ text height, Comment.strip text ≠ .error (.stackOverflow height) := by
  refine ⟨fun library options text file room included plain height => ?_, ?_⟩
  · have never
        {session : Session} :
        readText library options.maxStackDepth (library.size + 2) text file
            session ≠
          .error (.stackOverflow height) :=
      readText_ne_stackOverflow room included plain height
    constructor
    · intro broken
      simp only [readScript, bind, Except.bind] at broken
      split at broken
      · next fault breaks =>
          cases broken
          exact never breaks
      · cases broken
    · intro broken
      unfold readScriptStrictly at broken
      dsimp only at broken
      generalize read : readText library _ _ text file _ = result at broken
      rcases result with fault | ⟨story, ended⟩
      · simp only [Except.error.injEq, Failure.fault.injEq] at broken
        rw [broken] at read
        exact never read
      · cases unheard : ended.unheardError <;> simp [unheard] at broken
  · intro text height overflows
    obtain ⟨script, stripped⟩ := Comment.exists_strip text
    cases stripped.symm.trans overflows

/-- A file of plain prose. -/
def proseLibrary : Library :=
  .ofFiles [("part.ink", "=== knot\n- - gather\n")]

/-- A page of plain prose and the file that it includes fit on the usual stack. -/
theorem plainProse_fits_with_included_file :
    ∀ height,
      readScript proseLibrary {} "INCLUDE part.ink\n* choice [x] -> knot\n"
          none ≠
        .error (.stackOverflow height) := by
  intro height
  refine
    (plainProse_fits.1 proseLibrary {} _ none (by decide) ?_
      (.of_strip (by decide +kernel)) height).1
  intro path content found
  obtain ⟨name, member⟩ := exists_file_of_read found
  simp only [List.mem_singleton, Prod.mk.injEq] at member
  obtain ⟨-, rfl⟩ := member
  exact .of_strip (by decide +kernel)

end Texts

section Signs

/-- Behind more signs than there is room for scopes, a reading overflows. -/
theorem readScript_overflows_behind_signs
    {options : Options}
    {sources : List (String × String)}
    {text : String}
    {file : Option String}
    {room : Nat}
    (paired : ReturnsArePaired text)
    (included :
      ∀ path content,
        (Library.ofFiles sources).read path = some content →
        ReturnsArePaired content)
    (visits :
      Visits (.ofFiles sources) options text file
        ⟨files, levels, Grammar.operand, machine⟩)
    (hasSigns : Grammar.HasSigns room (room + 1) machine) :
    ∃ height,
      readScript (.ofFiles sources) options text file =
        .error (.stackOverflow height) := by
  have never :=
    readScript_ne_stalled sources options file paired included
  have ensures :
      Grammar.Ensures (.ofFiles sources) options.maxStackDepth files levels
        Grammar.operand machine (fun _ _ => False) fun _ => False :=
    Grammar.ensures_operand_behind_signs hasSigns
  simp only [Grammar.Ensures] at ensures
  cases ran :
      Site.outcome (.ofFiles sources) options.maxStackDepth
        ⟨files, levels, Grammar.operand, machine⟩ with
  | matched value after =>
      rw [ran] at ensures
      exact ensures.elim
  | failed after =>
      rw [ran] at ensures
      exact ensures.elim
  | faulted fault =>
      have broken :=
        (visits.readScript_eq_error ran).resolve_right never
      obtain ⟨height, rfl⟩ | rfl := isExhaustion_of_readScript broken
      · exact ⟨height, broken⟩
      · exact (never broken).elim

/-- A line that declares a variable, with many signs before its value. -/
def signedDeclaration : List Char :=
  "VAR x = ".toList ++ List.replicate 200 '!' ++ ['1', '\n']

/-- The machine that reads the line on the usual stack. -/
def signedMachine : Machine Workshop :=
  .start signedDeclaration usualDepth
    { file := none, session := firstSession (.ofFiles []) {} none }

/-- The value of the variable is read behind all of the signs. -/
private theorem exists_visit_of_signs
    {text : String}
    (strips : Comment.strip text = .ok (String.ofList signedDeclaration)) :
    ∃ levels machine,
      Visits (.ofFiles []) {} text none
          ⟨1, levels, Grammar.operand, machine⟩ ∧
        Grammar.HasSigns 199 200 machine := by
  have statements :=
    firstSite_reaches_statements (.ofFiles []) {} none
      (String.ofList signedDeclaration)
  have begins :
      (firstSite (.ofFiles []) {} none
          (String.ofList signedDeclaration)).machine =
        signedMachine := by
    simp only [firstSite, Site.ofScript, String.toList_ofList, signedMachine]
  rw [begins] at statements
  have rounds :=
    Site.Reaches.rounds (by decide) statements (by decide +kernel)
      (by decide +kernel)
  obtain ⟨stops, goesOn, piece⟩ :=
    Site.Reaches.yielded (!·) (rounds.tail .round) (by decide +kernel)
  obtain rfl : stops = false := by
    simpa using goesOn
  have piece :=
    Site.Reaches.parsed ((piece.tail .first).tail .attempted)
      (by decide +kernel)
  -- Seven kinds of statements are tried in vain before variables.
  have kinds :=
    Site.Reaches.parsed ((piece.tail .first).tail .first) (by decide +kernel)
  have tried := Site.Reaches.passed 7 kinds (by decide +kernel)
  have line :=
    Site.Reaches.parsed ((tried.tail .first).tail .attempted)
      (by decide +kernel)
  have declaration :=
    Site.Reaches.parsed ((line.tail .first).tail .first) (by decide +kernel)
  obtain ⟨_, -, word⟩ :=
    Site.Reaches.yielded (fun _ => true) declaration (by decide +kernel)
  obtain ⟨name, isName, named⟩ :=
    Site.Reaches.yielded (· == ⟨0⟩) word (by decide +kernel)
  obtain rfl : name = ⟨0⟩ := by
    simpa using isName
  obtain ⟨_, -, behindName⟩ :=
    Site.Reaches.yielded (fun _ => true) named (by decide +kernel)
  obtain ⟨_, -, mark⟩ :=
    Site.Reaches.yielded (fun _ => true) behindName (by decide +kernel)
  obtain ⟨_, -, behindMark⟩ :=
    Site.Reaches.yielded (fun _ => true) mark (by decide +kernel)
  obtain ⟨written, -, value⟩ :=
    Site.Reaches.yielded (fun _ => true) (behindMark.tail .first)
      (by decide +kernel)
  have expression :=
    Site.Reaches.parsed ((value.tail .first).tail .attempted)
      (by decide +kernel)
  obtain ⟨_, -, behindBlanks⟩ :=
    Site.Reaches.yielded (fun _ => true) (expression.tail .construct)
      (by decide +kernel)
  have operand :=
    Site.Reaches.parsed (behindBlanks.tail .first) (by decide +kernel)
  refine
    ⟨_, _, ⟨_, strips, operand.tail .construct⟩,
      ⟨by decide +kernel, ['1', '\n'], by decide +kernel⟩⟩

/-- The line with a comment inside the word that makes it a declaration. -/
def gluedDeclaration : List Char :=
  "V/**/AR x = ".toList ++ List.replicate 200 '!' ++ ['1', '\n']

/-- A text that is plain only by its comments overflows the usual stack. -/
theorem word_behind_comment_overflows :
    Grammar.IsPlain (String.ofList gluedDeclaration).toList ∧
      ReturnsArePaired (String.ofList gluedDeclaration) ∧
      ∃ height,
        readScript (.ofFiles []) {} (String.ofList gluedDeclaration) none =
          .error (.stackOverflow height) := by
  have strips :
      Comment.strip (String.ofList gluedDeclaration) =
        .ok (String.ofList signedDeclaration) := by
    rw [Comment.strip_eq_ok_iff, String.toList_ofList, String.toList_ofList]
    decide +kernel
  have paired : ReturnsArePaired (String.ofList gluedDeclaration) := by
    intro script stripped
    rw [strips, Except.ok.injEq] at stripped
    rw [← stripped, String.toList_ofList]
    decide +kernel
  refine ⟨?_, paired, ?_⟩
  · rw [String.toList_ofList]
    decide +kernel
  · obtain ⟨levels, machine, visits, hasSigns⟩ := exists_visit_of_signs strips
    refine readScript_overflows_behind_signs paired ?_ visits hasSigns
    intro path content found
    obtain ⟨name, member⟩ := exists_file_of_read found
    cases member

end Signs

end Reading

end InkSyntax
