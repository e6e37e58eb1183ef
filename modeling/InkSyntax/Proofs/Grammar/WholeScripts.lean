import InkSyntax.Grammar.Workshop
import InkSyntax.Proofs.Grammar.Operations
import InkSyntax.Proofs.Story.Kinds

namespace InkSyntax

/-!
# Whole scripts

Whatever stands in a text, it is a script: statements are tried and lines that are
none are skipped, but nothing of this can fail.  So a reading that comes to its end
has a story as its root.
-/

namespace Rule

variable {α β σ : Type}

/-- A rule matches wherever its run comes to an end. -/
def NeverFails (rule : GrammarRule α) : Prop :=
  ∀ (read : {γ : Type} → Construct γ → Action Workshop γ)
    (include_ : String → Action Workshop Inclusion)
    (machine : Machine Workshop),
    (rule.run (Workshop.handle read include_) machine).Ensures
      (fun _ _ => True) fun _ => False

namespace NeverFails

theorem pure
    (value : α) :
    (Pure.pure value : GrammarRule α).NeverFails :=
  fun _ _ _ => trivial

theorem here :
    (Rule.here : GrammarRule Checkpoint).NeverFails :=
  fun _ _ _ => trivial

theorem setFlag
    (mask : UInt32)
    (on : Bool) :
    (Rule.setFlag mask on : GrammarRule Unit).NeverFails :=
  fun _ _ _ => trivial

theorem report
    (severity : Severity)
    (line : Nat)
    (message : String) :
    (Rule.report severity line message : GrammarRule Unit).NeverFails :=
  fun _ _ _ => trivial

/-- Trying a rule does not fail, even if the rule does. -/
theorem attempt
    (rule : GrammarRule α) :
    (Rule.attempt rule).NeverFails := by
  intro read include_ machine
  refine ensures_attempt.mpr ?_
  cases rule.run (Workshop.handle read include_) machine <;> trivial

theorem bind
    {first : GrammarRule α}
    {next : α → GrammarRule β}
    (neverFails : first.NeverFails)
    (then_ : ∀ value, (next value).NeverFails) :
    (first >>= next).NeverFails := by
  intro read include_ machine
  refine
    ensures_bind.mpr ((neverFails read include_ machine).mono ?_ fun _ => id)
  intro value after _
  exact then_ value read include_ after

theorem loop
    {round : σ → GrammarRule (σ ⊕ α)}
    (neverFails : ∀ state, (round state).NeverFails)
    (state : σ) :
    (Rule.loop state round).NeverFails := by
  intro read include_ machine
  refine ensures_loop (fun _ _ => True) trivial ?_
  intro state machine _
  refine (neverFails state read include_ machine).mono ?_ fun _ => id
  rintro (next | value) after _ <;> trivial

end NeverFails

end Rule

namespace Grammar

theorem neverFails_skipBlankSpace :
    skipBlankSpace.NeverFails := by
  refine .bind (.loop (fun _ => ?_) ()) fun _ => .pure _
  refine .bind (.attempt _) fun found => ?_
  cases found <;> exact .pure _

theorem neverFails_scriptContent :
    scriptContent.NeverFails := by
  refine .bind (.attempt _) fun first => .loop (fun content => ?_) _
  refine .bind neverFails_skipBlankSpace fun _ => ?_
  refine .bind (.bind .here fun _ => .pure _) fun isEnd => ?_
  split
  · exact .pure _
  · refine .bind (.attempt _) fun _ => ?_
    exact .bind (.attempt _) fun _ => .pure _

/-- A script does not fail, and the node that it gives is that of a story. -/
theorem ensures_script
    (read : {γ : Type} → Construct γ → Action Workshop γ)
    (include_ : String → Action Workshop Inclusion)
    (machine : Machine Workshop) :
    (script.run (Workshop.handle read include_) machine).Ensures
      (fun root after =>
        ∃ content, after.host.draft.kind? root = some (.story content))
      fun _ => False := by
  refine Rule.ensures_bind.mpr ?_
  refine (neverFails_scriptContent read include_ machine).mono ?_ fun _ => id
  intro content middle _
  let woven := middle.host.draft.weaveAndFlows content
  have isStory :
      (woven.2.add (.story woven.1)).2.kind? ⟨woven.2.size⟩ =
        some (.story woven.1) := by
    rw [Draft.kind?_eq_getElem?, Draft.kinds_add, ← Draft.length_kinds]
    exact List.getElem?_concat_length
  refine Rule.ensures_bind.mpr ?_
  simp only [Rule.run, Workshop.handle, Workshop.unlessMissing]
  split
  · trivial
  · exact ⟨woven.1, isStory⟩

end Grammar

end InkSyntax
