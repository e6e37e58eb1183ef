import InkSyntax.Proofs.Grammar.ConsumingRules
import InkSyntax.Proofs.Reading.Quiet

namespace InkSyntax

/-!
# Texts that bar a rule

Some rules never match where certain texts follow.  What stands behind such a rule is
never come to, and where it is one among others, the next one is tried at the same
place.
-/

namespace Grammar

/-- What arbitrarily deep nesting begins with. -/
def barriers : List String := ["\x7b", "(", "~", "VAR", "CONST"]

/-- Text that holds none of the barriers. -/
def IsPlain (text : List Char) : Prop :=
  ∀ barrier ∈ barriers, ¬ barrier.toList <:+: text

instance : DecidablePred IsPlain := fun _ =>
  inferInstanceAs (Decidable (∀ barrier ∈ barriers, ¬ _))

variable
    {text : List Char}
    {start later : Cursor}
    {word : String}
    {α : Type}

theorem IsPlain.drop
    (plain : IsPlain text)
    (count : Nat) :
    IsPlain (text.drop count) :=
  fun barrier member within =>
    plain barrier member (within.trans (List.drop_suffix count text).isInfix)

/-- Reading on in plain text, what follows is plain. -/
theorem IsPlain.of_reaches
    (plain : IsPlain start.rest)
    (reaches : start.Reaches later) :
    IsPlain later.rest := by
  obtain ⟨count, rfl⟩ := reaches
  rw [Cursor.rest_advance]
  exact plain.drop count

/-- Where such a text follows, a rule never matches. -/
def Barred (texts : List Char → Prop) (rule : GrammarRule α) : Prop :=
  ∀ library maxDepth files levels (machine : Machine Workshop),
    texts machine.cursor.rest →
    Ensures library maxDepth files levels rule machine
      (fun _ _ => False) fun _ => True

theorem barred_literal
    (isBarrier : word ∈ barriers) :
    Barred IsPlain (Rule.literal word) := by
  intro library maxDepth files levels machine plain
  refine ensures_literal ?_ fun _ => trivial
  intro rest after follows _
  simp only [following?, List.isPrefixOf_iff_prefix] at follows
  split at follows
  · next isPrefix =>
      exact plain word isBarrier isPrefix.isInfix
  · cases follows

theorem barred_declarationWord
    (isBarrier : word ∈ barriers) :
    Barred IsPlain (declarationWord word) := by
  intro library maxDepth files levels machine plain
  refine ensures_bind (ensures_skipBlanks fun after read => ?_)
  have plainAfter : IsPlain after.cursor.rest := by
    rw [read.rest, withoutBlanks, ← drop_length_takeWhile]
    exact plain.drop _
  refine ensures_bind (ensures_parse (ensures_bind (ensures_name ?_ ?_)))
  · intro found rest named isName _
    refine ensures_require ?_ fun _ _ _ => trivial
    intro isWord
    obtain rfl : found = word := by simpa using isWord
    simp only [nameAt?] at isName
    split at isName
    · cases isName
    · cases isName
      refine (plainAfter _ isBarrier ?_).elim
      rw [String.toList_ofList]
      exact (List.takeWhile_prefix _).isInfix
  · exact fun _ _ _ _ _ => trivial

section Combinators

variable
    {texts : List Char → Prop}
    {library : Library}
    {maxDepth files levels : Nat}
    {machine : Machine Workshop}
    {rule : GrammarRule α}
    {β : Type}

/-- Whatever a rule ensures, it stays in its scope. -/
theorem Ensures.proceeds
    {onMatch : α → Machine Workshop → Prop}
    {onFailure : Machine Workshop → Prop}
    (ensures :
      Ensures library maxDepth files levels rule machine onMatch onFailure) :
    Ensures library maxDepth files levels rule machine
      (fun value after => onMatch value after ∧ machine.Proceeds after)
      (fun after => onFailure after ∧ machine.Proceeds after) :=
  Outcome.Ensures.and ensures
    (Reading.Site.ends_proceeds library maxDepth ⟨files, levels, rule, machine⟩)

theorem Barred.bind
    {next : α → GrammarRule β}
    (barred : Barred texts rule) :
    Barred texts (rule >>= next) :=
  fun library maxDepth files levels machine follows =>
    ensures_bind
      ((barred library maxDepth files levels machine follows).mono
        (fun _ _ => False.elim) fun _ _ => trivial)

theorem Barred.parse
    [StandsFor α]
    (barred : Barred texts rule) :
    Barred texts (Rule.parse rule) :=
  fun library maxDepth files levels machine follows =>
    ensures_parse
      ((barred library maxDepth files levels machine.opened follows).mono
        (fun _ _ => False.elim) fun _ _ _ _ => trivial)

/-- After a rule that is barred, the text is where it was. -/
theorem Barred.ensures_attempt
    [StandsFor α]
    {onMatch : Option α → Machine Workshop → Prop}
    {onFailure : Machine Workshop → Prop}
    (barred : Barred texts rule)
    (follows : texts machine.cursor.rest)
    (otherwise :
      ∀ after,
        machine.Proceeds after →
        after.cursor = machine.cursor →
        onMatch none after) :
    Ensures library maxDepth files levels (.attempt (Rule.parse rule)) machine
      onMatch onFailure := by
  refine Grammar.ensures_attempt (ensures_parse ?_)
  have never :=
    barred library maxDepth files levels machine.opened follows
  refine never.proceeds.mono (fun _ _ impossible => impossible.1.elim) ?_
  rintro inside ⟨-, proceeds⟩ after closes
  obtain ⟨_, cancels, undoes⟩ := proceeds.exists_undoes
  cases cancels.symm.trans closes
  exact otherwise after undoes.toProceeds undoes.closed_cursor

/-- Where one rule is barred and what is tried instead is too, both are. -/
theorem Barred.orElse
    [StandsFor α]
    {next : Option α → GrammarRule β}
    (barred : Barred texts rule)
    (others : Barred texts (next none)) :
    Barred texts (.attempt (Rule.parse rule) >>= next) := by
  intro library maxDepth files levels machine follows
  refine ensures_bind (barred.ensures_attempt follows ?_)
  intro after _ same
  rw [← same] at follows
  exact others library maxDepth files levels after follows

theorem barred_firstOf
    [StandsFor α]
    {rules : List (GrammarRule α)}
    (barred : ∀ rule ∈ rules, Barred texts rule) :
    Barred texts (Rule.oneOf.firstOf rules) := by
  induction rules with
  | nil =>
      exact fun _ _ _ _ _ _ => trivial
  | cons rule others inductionHypothesis =>
      obtain ⟨barredFirst, barredOthers⟩ := List.forall_mem_cons.mp barred
      exact .orElse barredFirst (inductionHypothesis barredOthers)

/-- Alternating pieces begin with an outer one. -/
theorem Barred.alternate
    [StandsFor (Step α)]
    [StandsFor (List α)]
    {outer inner : GrammarRule (Step α)}
    (barred : Barred texts outer) :
    Barred texts (Rule.alternate outer inner) :=
  .parse (.bind (.parse barred))

end Combinators

end Grammar

end InkSyntax
