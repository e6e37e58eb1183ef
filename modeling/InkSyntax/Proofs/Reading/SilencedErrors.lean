import InkSyntax.Proofs.Reading.Deliveries
import Mathlib.Tactic.ByContra

namespace InkSyntax

/-!
# Errors behind warnings

A scope that reported a warning is as silent as one that reported an error.  An
error that is raised in such a scope is lost, unless an error was delivered
before.  No error is lost in any other way, so a reading in which an error is
raised ends without one exactly if every error was raised behind warnings only.
-/

namespace Machine

/-- A report here is suppressed, and no error has been delivered in its place. -/
def Silenced (machine : Machine Workshop) : Prop :=
  machine.top.reported = true ∧
    ∀ diagnostic ∈ machine.delivered, diagnostic.isError = false

/-- After an error is raised, some error is delivered unless it was silenced. -/
theorem exists_error_report_iff
    (machine : Machine Workshop)
    (line : Nat)
    (message : String) :
    (∃ diagnostic ∈ (machine.report .error line message).delivered,
        diagnostic.isError = true) ↔
      ¬ machine.Silenced := by
  rw [delivered_report]
  by_cases told : machine.stack.top.reported = true
  · rw [if_pos told]
    constructor
    · rintro ⟨diagnostic, member, isError⟩ silenced
      have notError := silenced.2 diagnostic member
      rw [isError] at notError
      exact Bool.noConfusion notError
    · intro notSilenced
      by_contra noError
      refine notSilenced ⟨told, fun diagnostic member => ?_⟩
      by_contra isError
      exact noError ⟨diagnostic, member, Bool.of_not_eq_false isError⟩
  · rw [if_neg told]
    constructor
    · intro _ silenced
      exact told silenced.1
    · intro _
      refine
        ⟨machine.diagnostic .error line message,
          List.mem_append_right _ (List.mem_singleton_self _), ?_⟩
      simp [diagnostic, Diagnostic.isError]

/-- What silences an error is a warning that was delivered before. -/
theorem Silenced.exists_warning
    {machine : Machine Workshop}
    (silenced : machine.Silenced)
    (marked : machine.MarkedByDelivery) :
    ∃ diagnostic ∈ machine.delivered, diagnostic.severity = .warning := by
  have delivers : machine.delivered ≠ [] :=
    marked machine.stack.top List.mem_cons_self silenced.1
  obtain ⟨diagnostic, member⟩ := List.exists_mem_of_ne_nil _ delivers
  have notError := silenced.2 diagnostic member
  refine ⟨diagnostic, member, ?_⟩
  cases severity : diagnostic.severity with
  | error =>
      simp [Diagnostic.isError, severity] at notError
  | warning =>
      rfl

end Machine

namespace Reading

/-- A session where warnings stay warnings gets no error, if it had none. -/
def KeepsErrorless (before after : Session) : Prop :=
  after.warningsAsErrors = before.warningsAsErrors ∧
    (before.warningsAsErrors = false →
      (∀ diagnostic ∈ before.delivered, diagnostic.isError = false) →
      ∀ diagnostic ∈ after.delivered, diagnostic.isError = false)

theorem KeepsErrorless.law :
    Law fun before after =>
      KeepsErrorless before.host.session after.host.session :=
  Law.ofSessions
    (fun _ => ⟨rfl, fun _ errorless => errorless⟩)
    (fun first second =>
      ⟨second.1.trans first.1, fun lenient errorless =>
        second.2 (first.1.trans lenient) (first.2 lenient errorless)⟩)
    (fun _ _ => ⟨rfl, fun _ errorless => errorless⟩)
    (fun _ _ => ⟨rfl, fun _ errorless => errorless⟩)
    (fun _ _ => ⟨rfl, fun _ errorless => errorless⟩)

/-- Only an error that is not silenced brings the first error. -/
theorem KeepsErrorless.report
    {machine : Machine Workshop}
    {severity : Severity}
    {line : Nat}
    {message : String}
    (silenced : severity = .error → machine.Silenced) :
    KeepsErrorless machine.host.session
      (machine.report severity line message).host.session := by
  rw [Machine.host_report]
  by_cases told : machine.stack.top.reported = true
  · rw [if_pos told]
    exact ⟨rfl, fun _ errorless => errorless⟩
  · rw [if_neg told]
    refine ⟨rfl, fun lenient errorless diagnostic member => ?_⟩
    rcases List.mem_append.mp member with earlier | new
    · exact errorless diagnostic earlier
    · cases severity with
      | error =>
          exact absurd (silenced rfl).1 told
      | warning =>
          rw [List.mem_singleton.mp new]
          simp [Diagnostic.isError, lenient]

/-- A machine that had no error raised gets one only by an error call. -/
theorem hadError_law :
    Law fun before after =>
      before.hadError = false → after.hadError = false where
  refl _ := id
  trans first second := second ∘ first
  moves _ _ := id
  flags _ _ _ := id
  closes {machine after closed fate} related closes := by
    cases fate with
    | keep nodes =>
        obtain ⟨_, _, _, _, rfl⟩ := Machine.commitScope_eq_ok_iff.mp closes
        exact related
    | undo =>
        obtain ⟨_, _, _, _, rfl⟩ := Machine.cancelScope_eq_ok_iff.mp closes
        exact related
  drafts _ _ := id
  choices _ _ := id
  requests _ _ := id
  includes _ _ := id

variable
    {library : Library}
    {options : Options}
    {text : String}
    {file : Option String}

/-- Reading a text raises an error in this state, at some line with some message. -/
def RaisesError
    (library : Library)
    (options : Options)
    (text : String)
    (file : Option String)
    (machine : Machine Workshop) : Prop :=
  ∃ files levels line message,
    Visits library options text file
      ⟨files, levels, .report .error line message, machine⟩

/-- An error that is not silenced leaves an error at the end of the reading. -/
theorem RaisesError.anyError_of_not_silenced
    {machine : Machine Workshop}
    (raises : RaisesError library options text file machine)
    (notSilenced : ¬ machine.Silenced)
    {reading : Reading}
    (completes : readScript library options text file = .ok reading) :
    Diagnostic.anyError reading.diagnostics = true := by
  obtain ⟨files, levels, line, message, visits⟩ := raises
  obtain ⟨after, ends, delivered⟩ := visits.delivered_prefix completes
  cases ends
  obtain ⟨diagnostic, member, isError⟩ :=
    (machine.exists_error_report_iff line message).mpr notSilenced
  exact List.any_eq_true.mpr ⟨diagnostic, delivered.subset member, isError⟩

/-- Whether the machine of a script remembers an error in the end. -/
def endsWithError
    (library : Library)
    (options : Options)
    (text : String)
    (file : Option String) :
    Bool :=
  (Comment.strip text).toOption.any fun script =>
    ((firstSite library options file script).outcome
        library options.maxStackDepth).after?.any
      (·.hadError)

/-- A script whose machine remembers an error had one raised somewhere in it. -/
theorem exists_raisesError_of_endsWithError
    {reading : Reading}
    (completes : readScript library options text file = .ok reading)
    (endsWithError : endsWithError library options text file = true) :
    ∃ machine, RaisesError library options text file machine := by
  obtain ⟨script, after, stripped, ends, _⟩ :=
    exists_end_of_readScript completes
  have hadError : after.hadError = true := by
    simpa [Reading.endsWithError, stripped, Except.toOption, ends]
      using endsWithError
  by_contra noneRaised
  have keeps :=
    Outcome.ends_iff.mp
      (hadError_law.ends _ fun {files levels severity line message machine}
          reaches noError => by
        cases severity with
        | error =>
            exact
              absurd
                ⟨machine, files, levels, line, message, script, stripped,
                  reaches⟩
                noneRaised
        | warning =>
            rw [Machine.hadError_report, noError]
            rfl)
      after ends rfl
  rw [keeps] at hadError
  exact Bool.noConfusion hadError

/-- Each error call, and the reading as a whole, deliver an error unless silenced. -/
theorem delivers_error_iff_not_silenced
    (lenient : options.warningsAsErrors = false)
    {reading : Reading}
    (completes : readScript library options text file = .ok reading) :
    (∀ files levels line message machine,
        Visits library options text file
          ⟨files, levels, .report .error line message, machine⟩ →
        ((∃ diagnostic ∈ (machine.report .error line message).delivered,
            diagnostic.isError = true) ↔
          ¬ machine.Silenced) ∧
        (machine.Silenced →
          ∃ diagnostic ∈ machine.delivered,
            diagnostic.severity = .warning)) ∧
      (Diagnostic.anyError reading.diagnostics = true ↔
        ∃ machine,
          RaisesError library options text file machine ∧
            ¬ machine.Silenced) := by
  refine ⟨?_, ?_, ?_⟩
  · intro files levels line message machine visits
    exact
      ⟨machine.exists_error_report_iff line message,
        fun silenced => silenced.exists_warning visits.markedByDelivery⟩
  · intro anyError
    by_contra noneHeard
    have silenced
        {files levels : Nat}
        {line : Nat}
        {message : String}
        {machine : Machine Workshop}
        (visits :
          Visits library options text file
            ⟨files, levels, .report .error line message, machine⟩) :
        machine.Silenced := by
      by_contra notSilenced
      exact
        noneHeard
          ⟨machine, ⟨files, levels, line, message, visits⟩, notSilenced⟩
    obtain ⟨script, after, stripped, ends, delivered⟩ :=
      exists_end_of_readScript completes
    have keeps :=
      Outcome.ends_iff.mp
        (KeepsErrorless.law.ends _ fun reaches =>
          KeepsErrorless.report fun isError =>
            silenced ⟨script, stripped, isError ▸ reaches⟩)
        after ends
    obtain ⟨diagnostic, member, isError⟩ := List.any_eq_true.mp anyError
    rw [delivered] at member
    have errorless :=
      keeps.2 lenient (fun _ none => absurd none List.not_mem_nil)
        diagnostic member
    rw [errorless] at isError
    exact Bool.noConfusion isError
  · rintro ⟨machine, raises, notSilenced⟩
    exact raises.anyError_of_not_silenced notSilenced completes

/-- An unclosed brace is an error that is delivered. -/
theorem delivers_error_of_unclosed_brace :
    ∃ machine,
      RaisesError (.ofFiles []) {} "\x7b a\n" none machine ∧
        ¬ machine.Silenced := by
  have reads :
      (readScript (.ofFiles []) {} "\x7b a\n" none).toOption.any
          (Diagnostic.anyError ·.diagnostics) =
        true := by
    decide +kernel
  cases completes : readScript (.ofFiles []) {} "\x7b a\n" none with
  | error fault =>
      rw [completes] at reads
      cases reads
  | ok reading =>
      rw [completes] at reads
      exact (delivers_error_iff_not_silenced rfl completes).2.mp reads

/-- A warning about a forgotten tilde hides the error about the rest of its line. -/
theorem silences_error_behind_warning :
    ∃ reading machine,
      readScript (.ofFiles []) {} "return \x7d\n" none = .ok reading ∧
        RaisesError (.ofFiles []) {} "return \x7d\n" none machine ∧
        machine.Silenced ∧
        Diagnostic.anyError reading.diagnostics = false := by
  have reads :
      (readScript (.ofFiles []) {} "return \x7d\n" none).toOption.any
          (!Diagnostic.anyError ·.diagnostics) =
        true := by
    decide +kernel
  have endsWithError :
      endsWithError (.ofFiles []) {} "return \x7d\n" none = true := by
    decide +kernel
  cases completes : readScript (.ofFiles []) {} "return \x7d\n" none with
  | error fault =>
      rw [completes] at reads
      cases reads
  | ok reading =>
      rw [completes] at reads
      have errorless : Diagnostic.anyError reading.diagnostics = false := by
        simpa [Except.toOption] using reads
      obtain ⟨machine, raises⟩ :=
        exists_raisesError_of_endsWithError completes endsWithError
      refine ⟨reading, machine, rfl, raises, ?_, errorless⟩
      by_contra notSilenced
      have anyError := raises.anyError_of_not_silenced notSilenced completes
      rw [errorless] at anyError
      exact Bool.noConfusion anyError

end Reading

end InkSyntax
