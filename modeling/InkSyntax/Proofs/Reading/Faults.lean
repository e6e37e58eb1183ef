import InkSyntax.Proofs.Reading.StoryShapes
import InkSyntax.Proofs.Reading.Termination

namespace InkSyntax

/-!
# Faults of readings

A fault inside a reading is a fault of the reading, and the whole reading breaks
off only for want of stack or of rounds.  So scopes are closed in order wherever a
reading comes by, and no node is looked for that is not there.  The nodes that a
finished story mentions are nodes of that story.
-/

namespace Story.IsTree

variable
    {story : Story}
    (isTree : story.IsTree)

include isTree

end Story.IsTree

namespace Reading

section Scopes

variable
    (library : Library)
    (maxDepth files levels : Nat)
    {α : Type}
    (fate : α → Fate)
    (rule : GrammarRule α)
    (machine : Machine Workshop)

end Scopes

section Faults

variable
    {library : Library}
    {options : Options}
    {maxDepth : Nat}
    {text : String}
    {file : Option String}
    {fault : Fault}

/-- With fewer rounds a repetition breaks off with the same fault, or for want of rounds. -/
theorem iterate_faults_of_le
    {α σ : Type}
    {round : σ → Action Workshop (σ ⊕ α)}
    {fewer more : Nat}
    (le : fewer ≤ more)
    {state : σ}
    {machine : Machine Workshop}
    (faults : Action.iterate round more state machine = .faulted fault) :
    Action.iterate round fewer state machine = .faulted fault ∨
      Action.iterate round fewer state machine = .faulted .stalled := by
  induction fewer generalizing more state machine with
  | zero =>
      exact .inr rfl
  | succ fewer inductionHypothesis =>
      obtain ⟨more, rfl⟩ := Nat.exists_eq_add_of_le' (by omega : 1 ≤ more)
      simp only [Action.iterate] at faults ⊢
      cases ran : round state machine with
      | faulted other =>
          rw [ran] at faults
          exact .inl faults
      | failed after =>
          rw [ran] at faults
          cases faults
      | matched result between =>
          rw [ran] at faults
          cases result with
          | inl next =>
              exact inductionHypothesis (Nat.le_of_succ_le_succ le) faults
          | inr value =>
              cases faults

/-- A text breaks off with the fault that its script breaks off with. -/
theorem readText_eq_error_of_faulted
    {files : Nat}
    {script : String}
    {session : Session}
    (stripped : Comment.strip text = .ok script)
    (faults :
      Site.outcome library maxDepth
          (.ofScript maxDepth files script file session) =
        .faulted fault) :
    readText library maxDepth (files + 1) text file session =
      .error fault := by
  simp only [Site.outcome, Site.ofScript, performs] at faults
  simp only [readText, stripped, bind, Except.bind, Workshop.readScript]
  rw [← inclusions, faults]
  rfl

/-- A fault inside a run breaks it off too, unless its rounds run out before. -/
theorem Site.Enters.faults
    {outer inner : Site}
    (enters : Enters library maxDepth outer inner)
    (faults : inner.outcome library maxDepth = .faulted fault) :
    outer.outcome library maxDepth = .faulted fault ∨
      outer.outcome library maxDepth = .faulted .stalled := by
  cases enters with
  | first =>
      simp only [outcome] at faults
      exact .inl (by simp only [outcome, Rule.run, faults, Outcome.andThen])
  | next matched =>
      simp only [outcome] at matched faults
      exact
        .inl (by simp only [outcome, Rule.run, matched, Outcome.andThen, faults])
  | attempted =>
      simp only [outcome] at faults
      exact .inl (by simp only [outcome, Rule.run, faults])
  | inScope opens =>
      simp only [outcome] at faults
      exact
        .inl (by simp only [outcome, Rule.run, Action.inScope, opens, faults])
  | @round files levels _ _ state round machine =>
      simp only [outcome] at faults
      simp only [outcome, Rule.run]
      cases machine.rounds with
      | zero =>
          exact .inr rfl
      | succ rounds =>
          exact .inl (by simp only [Action.iterate, faults])
  | @again files levels _ _ state next round machine after matched =>
      have sameRounds : after.rounds = machine.rounds :=
        (proceeds_of_matched matched).rounds
      simp only [outcome] at matched
      simp only [outcome, Rule.run, sameRounds] at faults ⊢
      cases rounds : machine.rounds with
      | zero =>
          exact .inr rfl
      | succ fewer =>
          rw [rounds] at faults
          simp only [Action.iterate, matched]
          exact iterate_faults_of_le (Nat.le_succ fewer) faults
  | construct =>
      exact .inl faults
  | inclusion notOpen found stripped =>
      refine .inl ?_
      simp only [outcome, Rule.run, performs, Workshop.handle, inclusions,
        includeFile]
      rw [if_neg (by simpa using notOpen), found]
      simp only [readText_eq_error_of_faulted stripped faults]

/-- A fault further inside breaks off a run too, unless its rounds run out before. -/
theorem Site.Reaches.faults
    {outer inner : Site}
    (reaches : Reaches library maxDepth outer inner)
    (faults : inner.outcome library maxDepth = .faulted fault) :
    outer.outcome library maxDepth = .faulted fault ∨
      outer.outcome library maxDepth = .faulted .stalled := by
  induction reaches using Relation.ReflTransGen.head_induction_on with
  | refl =>
      exact .inl faults
  | head enters _ inductionHypothesis =>
      rcases inductionHypothesis with same | stalls
      · exact enters.faults same
      · exact .inr ((enters.faults stalls).elim id id)

/-- A fault anywhere in a reading breaks it off, unless its rounds run out before. -/
theorem Visits.readScript_eq_error
    {site : Site}
    (visits : Visits library options text file site)
    (faults :
      site.outcome library options.maxStackDepth = .faulted fault) :
    readScript library options text file = .error fault ∨
      readScript library options text file = .error .stalled := by
  obtain ⟨script, stripped, reaches⟩ := visits
  have breaks
      {other : Fault}
      (faults :
        (firstSite library options file script).outcome library
            options.maxStackDepth =
          .faulted other) :
      readScript library options text file = .error other := by
    have broken := readText_eq_error_of_faulted stripped faults
    simp only [firstSession] at broken
    simp only [readScript, broken, bind, Except.bind]
  have reached :
      (firstSite library options file script).outcome library
            options.maxStackDepth =
          .faulted fault ∨
        (firstSite library options file script).outcome library
            options.maxStackDepth =
          .faulted .stalled :=
    reaches.faults faults
  exact reached.imp breaks breaks

end Faults

end Reading

end InkSyntax
