import InkSyntax.Proofs.Grammar.Additions
import InkSyntax.Proofs.Reading.Supplies

namespace InkSyntax.Reading

/-!
# Failed rules leave no trace

A scope that is undone takes the cursor and the flags back and forgets all nodes
that were made in it.  As no rule of the grammar changes an older node, nothing is
left of a rule that fails: neither in any state that a reading can be in, nor in any
other one.
-/

variable
    {library : Library}
    {maxDepth files levels : Nat}

/-- A rule of the grammar that fails leaves cursor, flags and draft as they were. -/
theorem restores_of_failed
    {α : Type}
    [StandsFor α]
    {rule : GrammarRule α}
    (isRule : Grammar.IsRule rule)
    {machine after : Machine Workshop}
    (fails :
      (Rule.parse rule).run (performs library maxDepth files levels) machine =
        .failed after) :
    after.cursor = machine.cursor ∧
      after.top.flags = machine.top.flags ∧
      after.host.draft = machine.host.draft := by
  have supplied
      (origin : Cursor) :
      Workshop.Supplies origin (IsOfFile library maxDepth)
        (Workshop.readWithin maxDepth (inclusions library maxDepth files) levels)
        (inclusions library maxDepth files) :=
    supplies isExhaustion_of_readText levels
  have restores := isRule.adds.restores supplied machine
  have failed :
      (Rule.parse rule).run (Workshop.handle _ _) machine = .failed after :=
    fails
  rw [failed] at restores
  exact restores

/-- The machine behind the name and the equals sign of an assignment. -/
def behindEqualsSign : Machine Workshop :=
  let library : Library := .ofFiles []
  let start : Machine Workshop :=
    .start "a = b".toList 10 { file := none, session := {} }
  let behindName := Site.after library 10 ⟨0, 3, Rule.parse Grammar.identifier, start⟩
  Site.after library 10 ⟨0, 3, Grammar.spaced (Rule.literal "="), behindName⟩

/-- A name that is not called is read by another rule; the older name is still there. -/
theorem restores_behind_equals_sign :
    ∃ after,
      behindEqualsSign.host.draft.size = 1 ∧
        (Rule.parse Grammar.functionCall).run
            (performs (.ofFiles []) 10 0 3) behindEqualsSign =
          .failed after ∧
        after.cursor = behindEqualsSign.cursor ∧
        after.top.flags = behindEqualsSign.top.flags ∧
        after.host.draft = behindEqualsSign.host.draft := by
  have size : behindEqualsSign.host.draft.size = 1 := by
    decide +kernel
  have failed :
      (match
          (Rule.parse Grammar.functionCall).run
            (performs (.ofFiles []) 10 0 3) behindEqualsSign with
        | .failed _ => true
        | _ => false) =
        true := by
    decide +kernel
  split at failed
  · next after fails =>
      exact ⟨after, size, fails, restores_of_failed .functionCall fails⟩
  · cases failed

end InkSyntax.Reading
