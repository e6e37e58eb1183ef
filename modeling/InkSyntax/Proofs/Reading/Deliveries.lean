import InkSyntax.Proofs.Reading.Law

namespace InkSyntax

/-!
# Diagnostics along a reading

Delivered diagnostics are only added to.  What is delivered somewhere inside a
reading is therefore among the diagnostics that the reading ends with, even if
the scope in which it was delivered is undone.
-/

namespace Machine

/-- The diagnostics delivered so far, in all files of the reading. -/
def delivered (machine : Machine Workshop) : List Diagnostic :=
  machine.host.session.delivered

/-- What is delivered in place of a report; warnings may count as errors. -/
def diagnostic
    (machine : Machine Workshop)
    (severity : Severity)
    (line : Nat)
    (message : String) :
    Diagnostic where
  message := message
  severity :=
    if machine.host.session.warningsAsErrors then .error else severity
  line := line
  file := machine.host.file

theorem delivered_report
    (machine : Machine Workshop)
    (severity : Severity)
    (line : Nat)
    (message : String) :
    (machine.report severity line message).delivered =
      if machine.stack.top.reported then machine.delivered
      else
        machine.delivered ++ [machine.diagnostic severity line message] := by
  simp only [delivered, host_report]
  by_cases told : machine.stack.top.reported
  · rw [if_pos told, if_pos told]
  · rw [if_neg told, if_neg told]
    rfl

/-- The end of a scope takes nothing back that was delivered. -/
theorem delivered_closes
    {fate : Fate}
    {number : RuleId}
    {after closed : Machine Workshop}
    (closes : Rule.Closes fate number after closed) :
    closed.delivered = after.delivered := by
  rw [delivered, delivered, closes.session]

/-- No open scope is marked as having reported before anything was delivered. -/
def MarkedByDelivery (machine : Machine Workshop) : Prop :=
  ∀ checkpoint ∈ machine.stack.top :: machine.stack.below,
    checkpoint.reported = true → machine.delivered ≠ []

theorem MarkedByDelivery.opened
    {machine : Machine Workshop}
    (marked : machine.MarkedByDelivery) :
    machine.opened.MarkedByDelivery := by
  intro checkpoint member reported
  rcases List.mem_cons.mp member with rfl | below
  · exact Bool.noConfusion reported
  · exact marked checkpoint below reported

theorem markedByDelivery_start
    (text : List Char)
    (depth : Nat)
    (host : Workshop) :
    (Machine.start text depth host).MarkedByDelivery := by
  intro checkpoint member reported
  rcases List.mem_cons.mp member with rfl | below
  · exact Bool.noConfusion reported
  · exact absurd below List.not_mem_nil

end Machine

namespace Reading

/-- Diagnostics were only added, and no scope is marked without any. -/
def Extends (before after : Machine Workshop) : Prop :=
  before.delivered <+: after.delivered ∧
    (before.MarkedByDelivery → after.MarkedByDelivery)

theorem Extends.law : Law Extends where
  refl _ := ⟨List.prefix_refl _, id⟩
  trans first second :=
    ⟨first.1.trans second.1, fun marked => second.2 (first.2 marked)⟩
  moves machine cursor := by
    refine ⟨List.prefix_refl _, fun marked checkpoint member reported => ?_⟩
    rcases List.mem_cons.mp member with rfl | below
    · exact marked machine.stack.top List.mem_cons_self reported
    · exact marked checkpoint (List.mem_cons_of_mem _ below) reported
  flags machine mask on := by
    refine ⟨List.prefix_refl _, fun marked checkpoint member reported => ?_⟩
    rcases List.mem_cons.mp member with rfl | below
    · exact marked machine.stack.top List.mem_cons_self reported
    · exact marked checkpoint (List.mem_cons_of_mem _ below) reported
  closes {machine after closed fate} related closes := by
    obtain ⟨grows, marks⟩ := related
    cases fate with
    | keep nodes =>
        obtain ⟨parent, deeper, below, _, rfl⟩ :=
          Machine.commitScope_eq_ok_iff.mp closes
        refine ⟨grows, fun marked checkpoint member reported => ?_⟩
        have inside := marks marked.opened
        rcases List.mem_cons.mp member with rfl | deep
        · exact inside after.stack.top List.mem_cons_self reported
        · refine inside checkpoint ?_ reported
          rw [below]
          exact List.mem_cons_of_mem _ (List.mem_cons_of_mem _ deep)
    | undo =>
        obtain ⟨parent, deeper, below, _, rfl⟩ :=
          Machine.cancelScope_eq_ok_iff.mp closes
        refine ⟨grows, fun marked checkpoint member reported => ?_⟩
        refine marks marked.opened checkpoint ?_ reported
        rw [below]
        exact List.mem_cons_of_mem _ member
  drafts _ _ := ⟨List.prefix_refl _, id⟩
  choices _ _ := ⟨List.prefix_refl _, id⟩
  requests _ _ := ⟨List.prefix_refl _, id⟩
  includes {machine start after text depth file path} starts related := by
    subst starts
    have grows : machine.delivered <+: after.delivered := related.1
    refine ⟨grows, fun marked checkpoint member reported => ?_⟩
    have delivers := marked checkpoint member reported
    intro empty
    have delivered : after.delivered = [] := empty
    rw [delivered] at grows
    exact delivers (List.prefix_nil.mp grows)

/-- Every report extends what was delivered. -/
theorem Extends.report
    (machine : Machine Workshop)
    (severity : Severity)
    (line : Nat)
    (message : String) :
    Extends machine (machine.report severity line message) := by
  by_cases told : machine.stack.top.reported
  · have kept :
        (machine.report severity line message).delivered =
          machine.delivered := by
      rw [Machine.delivered_report, if_pos told]
    constructor
    · exact kept ▸ List.prefix_refl _
    · intro marked checkpoint member reported
      rw [Machine.stack_report, if_pos told] at member
      rw [kept]
      exact marked checkpoint member reported
  · have grown :
        (machine.report severity line message).delivered =
          machine.delivered ++ [machine.diagnostic severity line message] := by
      rw [Machine.delivered_report, if_neg told]
    constructor
    · rw [grown]
      exact List.prefix_append _ _
    · intro _ _ _ _
      rw [grown]
      exact List.append_ne_nil_of_right_ne_nil _ (List.cons_ne_nil _ _)

variable
    {library : Library}
    {maxDepth : Nat}

/-- A run only adds to what was delivered. -/
theorem Site.delivered_prefix
    (site : Site)
    {after : Machine Workshop}
    (ends : (site.outcome library maxDepth).after? = some after) :
    site.machine.delivered <+: after.delivered :=
  (Outcome.ends_iff.mp
    (Extends.law.ends site fun _ => Extends.report _ _ _ _) after ends).1

/-- Wherever a reading comes by, marked scopes were preceded by a delivery. -/
theorem Visits.markedByDelivery
    {options : Options}
    {text : String}
    {file : Option String}
    {site : Site}
    (visits : Visits library options text file site) :
    site.machine.MarkedByDelivery := by
  obtain ⟨script, _, reaches⟩ := visits
  exact
    Extends.law.holds_of_reaches Extends.report
      (fun _ _ related => related.2)
      (fun _ => Machine.MarkedByDelivery.opened)
      (fun _ _ _ _ _ _ => Machine.markedByDelivery_start _ _ _)
      reaches (Machine.markedByDelivery_start _ _ _)

/-- A completed reading ends with what its script delivered. -/
theorem exists_end_of_readScript
    {options : Options}
    {text : String}
    {file : Option String}
    {reading : Reading}
    (completes : readScript library options text file = .ok reading) :
    ∃ script after,
      Comment.strip text = .ok script ∧
        ((firstSite library options file script).outcome
            library options.maxStackDepth).after? =
          some after ∧
        reading.diagnostics = after.delivered := by
  simp only [readScript, bind, Except.bind] at completes
  split at completes
  · cases completes
  · next ended reads =>
      cases completes
      obtain ⟨script, after, stripped, ends, sessions⟩ :=
        exists_site_of_readText reads
      exact
        ⟨script, after, stripped, ends, congrArg Session.delivered sessions⟩

/-- More rounds do not change how a repetition ends. -/
theorem iterate_of_le
    {α σ : Type}
    {round : σ → Action Workshop (σ ⊕ α)}
    {fewer more : Nat}
    (enough : fewer ≤ more)
    {state : σ}
    {machine after : Machine Workshop}
    (ends :
      (Action.iterate round fewer state machine).after? = some after) :
    (Action.iterate round more state machine).after? = some after := by
  induction fewer generalizing more state machine with
  | zero =>
      cases ends
  | succ fewer inductionHypothesis =>
      obtain ⟨more, rfl⟩ := Nat.exists_eq_add_of_le' (by omega : 1 ≤ more)
      simp only [Action.iterate] at ends ⊢
      cases ran : round state machine with
      | faulted fault =>
          rw [ran] at ends
          cases ends
      | failed failedAfter =>
          rw [ran] at ends
          exact ends
      | matched result between =>
          rw [ran] at ends
          cases result with
          | inl next =>
              exact inductionHypothesis (by omega) ends
          | inr value =>
              exact ends

/-- A repetition that ends makes at least one round. -/
private theorem exists_rounds_of_loop
    {files levels : Nat}
    {α σ : Type}
    {state : σ}
    {round : σ → GrammarRule (σ ⊕ α)}
    {machine after : Machine Workshop}
    (ends :
      (Site.outcome library maxDepth
          ⟨files, levels, .loop state round, machine⟩).after? =
        some after) :
    ∃ fewer,
      machine.rounds = fewer + 1 ∧
        (Action.iterate
            (fun state => (round state).run (performs library maxDepth files levels))
            (fewer + 1) state machine).after? =
          some after := by
  simp only [Site.outcome, Rule.run] at ends
  cases bound : machine.rounds with
  | zero =>
      rw [bound] at ends
      cases ends
  | succ fewer =>
      rw [bound] at ends
      exact ⟨fewer, rfl, ends⟩

/-- A repetition goes on after a round as it would begin there. -/
private theorem loop_of_round
    {files levels : Nat}
    {α σ : Type}
    {state next : σ}
    {round : σ → GrammarRule (σ ⊕ α)}
    {machine between after : Machine Workshop}
    (matched :
      Site.outcome library maxDepth ⟨files, levels, round state, machine⟩ =
        .matched (.inl next) between)
    (ends :
      (Site.outcome library maxDepth
          ⟨files, levels, .loop state round, machine⟩).after? =
        some after) :
    (Site.outcome library maxDepth
        ⟨files, levels, .loop next round, between⟩).after? =
      some after := by
  have sameRounds : between.rounds = machine.rounds :=
    Outcome.ends_iff.mp
      (Law.rounds.ends _ fun _ => Machine.rounds_report _ _ _ _) _
      (congrArg Outcome.after? matched)
  obtain ⟨fewer, bound, rounds⟩ := exists_rounds_of_loop ends
  simp only [Site.outcome] at matched
  simp only [Action.iterate, matched] at rounds
  simp only [Site.outcome, Rule.run, sameRounds, bound]
  exact iterate_of_le (Nat.le_succ fewer) rounds

/-- If the run at a site ends, so do those that it enters, with no more delivered. -/
theorem Site.Enters.ends
    {outer inner : Site}
    (enters : Enters library maxDepth outer inner) :
    (outer.outcome library maxDepth).Ends fun after =>
      ∃ innerAfter,
        (inner.outcome library maxDepth).after? = some innerAfter ∧
          innerAfter.delivered <+: after.delivered := by
  cases enters with
  | @first files levels _ _ first next machine =>
      refine Rule.ensures_bind.mpr (Outcome.ensures_iff.mpr ⟨?_, ?_⟩)
      · intro value between ran
        refine Outcome.ends_iff.mpr fun after ends => ?_
        exact
          ⟨between, congrArg Outcome.after? ran,
            delivered_prefix ⟨files, levels, next value, between⟩ ends⟩
      · intro after ran
        exact ⟨after, congrArg Outcome.after? ran, List.prefix_refl _⟩
  | next matched =>
      refine Outcome.ends_iff.mpr fun after ends => ?_
      simp only [outcome] at matched
      simp only [outcome, Rule.run, matched] at ends
      exact ⟨after, ends, List.prefix_refl _⟩
  | attempted =>
      refine Rule.ensures_attempt.mpr (Outcome.ensures_iff.mpr ⟨?_, ?_⟩)
      · intro value after ran
        exact ⟨after, congrArg Outcome.after? ran, List.prefix_refl _⟩
      · intro after ran
        exact ⟨after, congrArg Outcome.after? ran, List.prefix_refl _⟩
  | inScope opens =>
      obtain ⟨_, rfl, rfl⟩ := Machine.openScope_eq_ok_iff.mp opens
      refine Rule.ensures_scope fun _ => Outcome.ensures_iff.mpr ⟨?_, ?_⟩
      · intro value inside ran closed closes
        refine ⟨inside, congrArg Outcome.after? ran, ?_⟩
        exact Machine.delivered_closes closes ▸ List.prefix_refl _
      · intro inside ran closed cancels
        have closes : Rule.Closes .undo _ inside closed :=
          cancels
        refine ⟨inside, congrArg Outcome.after? ran, ?_⟩
        exact Machine.delivered_closes closes ▸ List.prefix_refl _
  | @round files levels _ _ state round machine =>
      refine Outcome.ends_iff.mpr fun after ends => ?_
      obtain ⟨fewer, _, rounds⟩ := exists_rounds_of_loop ends
      simp only [Action.iterate] at rounds
      cases ran :
          outcome library maxDepth ⟨files, levels, round state, machine⟩ with
      | faulted fault =>
          simp only [outcome] at ran
          rw [ran] at rounds
          cases rounds
      | failed between =>
          simp only [outcome] at ran
          rw [ran] at rounds
          cases rounds
          exact ⟨after, rfl, List.prefix_refl _⟩
      | matched result between =>
          cases result with
          | inl next =>
              exact
                ⟨between, rfl,
                  delivered_prefix ⟨files, levels, .loop next round, between⟩
                    (loop_of_round ran ends)⟩
          | inr value =>
              simp only [outcome] at ran
              rw [ran] at rounds
              cases rounds
              exact ⟨after, rfl, List.prefix_refl _⟩
  | again matched =>
      refine Outcome.ends_iff.mpr fun after ends => ?_
      exact ⟨after, loop_of_round matched ends, List.prefix_refl _⟩
  | construct =>
      refine Outcome.ends_iff.mpr fun after ends => ?_
      exact ⟨after, ends, List.prefix_refl _⟩
  | inclusion notOpen found stripped =>
      refine Outcome.ends_iff.mpr fun after ends => ?_
      simp only [outcome, Rule.run, performs, Workshop.handle, inclusions,
        includeFile] at ends
      rw [if_neg (by simpa using notOpen), found] at ends
      simp only at ends
      split at ends
      · cases ends
      · next story ended reads =>
          obtain ⟨script, inside, stripped', insideEnds, rfl⟩ :=
            exists_site_of_readText reads
          cases ends
          cases stripped.symm.trans stripped'
          exact ⟨inside, insideEnds, List.prefix_refl _⟩

/-- Every run inside a completed reading ends, having delivered part of its diagnostics. -/
theorem Visits.delivered_prefix
    {options : Options}
    {text : String}
    {file : Option String}
    {site : Site}
    (visits : Visits library options text file site)
    {reading : Reading}
    (completes : readScript library options text file = .ok reading) :
    ∃ after,
      (site.outcome library options.maxStackDepth).after? = some after ∧
        after.delivered <+: reading.diagnostics := by
  obtain ⟨script, stripped, reaches⟩ := visits
  induction reaches with
  | refl =>
      obtain ⟨script', after, stripped', ends, delivered⟩ :=
        exists_end_of_readScript completes
      cases stripped.symm.trans stripped'
      exact ⟨after, ends, delivered ▸ List.prefix_refl _⟩
  | tail _ enters inductionHypothesis =>
      obtain ⟨outerAfter, outerEnds, outerPrefix⟩ := inductionHypothesis
      obtain ⟨after, ends, inner⟩ :=
        Outcome.ends_iff.mp enters.ends outerAfter outerEnds
      exact ⟨after, ends, inner.trans outerPrefix⟩

end Reading

end InkSyntax
