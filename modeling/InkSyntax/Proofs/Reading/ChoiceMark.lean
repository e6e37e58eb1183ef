import InkSyntax.Proofs.Grammar.ChoiceMark
import InkSyntax.Proofs.Reading.SilentLookahead

namespace InkSyntax.Reading

/-!
# Where the mark of choices stands

A choice marks the workshop while its parts are read.  Braces inside the parts may
hold choices of their own, and each of these takes the mark away when it is read to
its end.  So what is read of the outer choice after that is read without a mark: at
every moment the mark stands exactly if no choice was read to its end since the
parts were begun.
-/

variable
    (library : Library)
    (maxDepth : Nat)

namespace Site

/-- The rule of the site is that of choices. -/
def IsChoice (site : Site) : Prop :=
  ∃ files levels machine, site = ⟨files, levels, Grammar.choice, machine⟩

/-- The run at the first site begins with the one at the second. -/
inductive Begins : Site → Site → Prop where
  | first
      {files levels : Nat}
      {α β : Type}
      {first : GrammarRule α}
      {next : α → GrammarRule β}
      {machine : Machine Workshop} :
      Begins
        ⟨files, levels, .bind first next, machine⟩
        ⟨files, levels, first, machine⟩
  | attempted
      {files levels : Nat}
      {α : Type}
      {rule : GrammarRule α}
      {machine : Machine Workshop} :
      Begins
        ⟨files, levels, .attempt rule, machine⟩
        ⟨files, levels, rule, machine⟩
  | inScope
      {files levels : Nat}
      {α : Type}
      {fate : α → Fate}
      {rule : GrammarRule α}
      {machine opened : Machine Workshop}
      {number : RuleId}
      (opens : machine.openScope = .ok (number, opened)) :
      Begins
        ⟨files, levels, .scope fate rule, machine⟩
        ⟨files, levels, rule, opened⟩
  | round
      {files levels : Nat}
      {σ α : Type}
      {state : σ}
      {round : σ → GrammarRule (σ ⊕ α)}
      {machine : Machine Workshop} :
      Begins
        ⟨files, levels, .loop state round, machine⟩
        ⟨files, levels, round state, machine⟩
  | construct
      {files levels : Nat}
      {α : Type}
      {construct : Construct α}
      {machine : Machine Workshop} :
      Begins
        ⟨files, levels + 1, .effect (.read construct), machine⟩
        ⟨files, levels, Grammar.rule construct, machine⟩

/-- The run at the first site goes on at the last one, once that at the second matched. -/
inductive Continues : Site → Site → Site → Prop where
  | next
      {files levels : Nat}
      {α β : Type}
      {first : GrammarRule α}
      {next : α → GrammarRule β}
      {machine after : Machine Workshop}
      {value : α}
      (matched :
        outcome library maxDepth ⟨files, levels, first, machine⟩ =
          .matched value after) :
      Continues
        ⟨files, levels, .bind first next, machine⟩
        ⟨files, levels, first, machine⟩
        ⟨files, levels, next value, after⟩
  | again
      {files levels : Nat}
      {σ α : Type}
      {state next : σ}
      {round : σ → GrammarRule (σ ⊕ α)}
      {machine after : Machine Workshop}
      (matched :
        outcome library maxDepth ⟨files, levels, round state, machine⟩ =
          .matched (.inl next) after) :
      Continues
        ⟨files, levels, .loop state round, machine⟩
        ⟨files, levels, round state, machine⟩
        ⟨files, levels, .loop next round, after⟩

/-- A site is entered in the same file by a run that begins or goes on there. -/
theorem enters_same_file_iff
    {site inner : Site} :
    Enters library maxDepth site inner ∧ inner.files = site.files ↔
      Begins site inner ∨ ∃ passed, Continues library maxDepth site passed inner := by
  constructor
  · rintro ⟨enters, sameFile⟩
    cases enters with
    | first =>
        exact .inl .first
    | next matched =>
        exact .inr ⟨_, .next matched⟩
    | attempted =>
        exact .inl .attempted
    | inScope opens =>
        exact .inl (.inScope opens)
    | round =>
        exact .inl .round
    | again matched =>
        exact .inr ⟨_, .again matched⟩
    | construct =>
        exact .inl .construct
    | inclusion notOpen found stripped =>
        exact absurd sameFile (Nat.ne_of_lt (Nat.lt_succ_self _))
  · rintro (begins | ⟨passed, continues⟩)
    · cases begins with
      | first =>
          exact ⟨.first, rfl⟩
      | attempted =>
          exact ⟨.attempted, rfl⟩
      | inScope opens =>
          exact ⟨.inScope opens, rfl⟩
      | round =>
          exact ⟨.round, rfl⟩
      | construct =>
          exact ⟨.construct, rfl⟩
    · cases continues with
      | next matched =>
          exact ⟨.next matched, rfl⟩
      | again matched =>
          exact ⟨.again matched, rfl⟩

/-- The run at a site comes by another one when the runs at some sites are over.

It stays in its file, and outside the choices that it reads. -/
inductive ComesBy (site : Site) : Site → List Site → Prop where
  | here : ComesBy site site []
  | begins
      {inner deeper : Site}
      {past : List Site}
      (comesBy : ComesBy site inner past)
      (outside : ¬inner.IsChoice)
      (begins : Begins inner deeper) :
      ComesBy site deeper past
  | continues
      {inner passed next : Site}
      {past : List Site}
      (comesBy : ComesBy site inner past)
      (outside : ¬inner.IsChoice)
      (continues : Continues library maxDepth inner passed next) :
      ComesBy site next (past ++ [passed])

/-- The run at the site reads a choice to its end. -/
def ReadsChoice (site : Site) : Prop :=
  ∃ files levels machine past node after,
    ComesBy library maxDepth site ⟨files, levels, Grammar.choice, machine⟩ past ∧
      outcome library maxDepth ⟨files, levels, Grammar.choice, machine⟩ =
        .matched node after

/-- A choice has read its head, set the mark, and begins to read its parts. -/
inductive BeginsParts : Site → Site → Prop where
  | intro
      {files levels : Nat}
      {machine headed started : Machine Workshop}
      {head : Grammar.ChoiceHead}
      (headRead :
        outcome library maxDepth ⟨files, levels, Grammar.choiceHead, machine⟩ =
          .matched head headed)
      (marked :
        outcome library maxDepth
            ⟨files, levels, .effect (.setInChoice true), headed⟩ =
          .matched () started) :
      BeginsParts
        ⟨files, levels, Grammar.choice, machine⟩
        ⟨files, levels, Grammar.choiceParts, started⟩

variable
    {library : Library}
    {maxDepth : Nat}
    {site inner : Site}
    {past : List Site}

namespace ComesBy

theorem reaches
    (comesBy : ComesBy library maxDepth site inner past) :
    Reaches library maxDepth site inner := by
  induction comesBy with
  | here =>
      exact .refl
  | begins comesBy outside begins inductionHypothesis =>
      exact
        inductionHypothesis.tail
          ((enters_same_file_iff library maxDepth).mpr (.inl begins)).1
  | continues comesBy outside continues inductionHypothesis =>
      exact
        inductionHypothesis.tail
          ((enters_same_file_iff library maxDepth).mpr
            (.inr ⟨_, continues⟩)).1

/-- A site is come by at once, or behind a first step into the run. -/
theorem cases_head
    (comesBy : ComesBy library maxDepth site inner past) :
    inner = site ∨
      ¬site.IsChoice ∧
        ∃ deeper rest,
          (Begins site deeper ∨
              ∃ passed, Continues library maxDepth site passed deeper) ∧
            ComesBy library maxDepth deeper inner rest := by
  induction comesBy with
  | here =>
      exact .inl rfl
  | begins comesBy outside begins inductionHypothesis =>
      obtain rfl | ⟨outsideHead, deeper, rest, step, comesByThen⟩ :=
        inductionHypothesis
      · exact .inr ⟨outside, _, _, .inl begins, .here⟩
      · exact
          .inr ⟨outsideHead, deeper, _, step, comesByThen.begins outside begins⟩
  | continues comesBy outside continues inductionHypothesis =>
      obtain rfl | ⟨outsideHead, deeper, rest, step, comesByThen⟩ :=
        inductionHypothesis
      · exact .inr ⟨outside, _, _, .inr ⟨_, continues⟩, .here⟩
      · exact
          .inr
            ⟨outsideHead, deeper, _, step,
              comesByThen.continues outside continues⟩

/-- A first step into a run leads to all that is come by behind it. -/
theorem exists_of_step
    {deeper : Site}
    (outside : ¬site.IsChoice)
    (step :
      Begins site deeper ∨
        ∃ passed, Continues library maxDepth site passed deeper)
    (comesBy : ComesBy library maxDepth deeper inner past) :
    ∃ more, ComesBy library maxDepth site inner more := by
  induction comesBy with
  | here =>
      rcases step with begins | ⟨passed, continues⟩
      · exact ⟨_, .begins .here outside begins⟩
      · exact ⟨_, .continues .here outside continues⟩
  | begins comesBy outsideThen begins inductionHypothesis =>
      obtain ⟨more, comesByAll⟩ := inductionHypothesis
      exact ⟨_, comesByAll.begins outsideThen begins⟩
  | continues comesBy outsideThen continues inductionHypothesis =>
      obtain ⟨more, comesByAll⟩ := inductionHypothesis
      exact ⟨_, comesByAll.continues outsideThen continues⟩

end ComesBy

/-- Outside of choices, a run reads one to its end if some run inside does. -/
theorem readsChoice_iff_of_outside
    (outside : ¬site.IsChoice) :
    site.ReadsChoice library maxDepth ↔
      (∃ inner, Begins site inner ∧ inner.ReadsChoice library maxDepth) ∨
        ∃ passed next,
          Continues library maxDepth site passed next ∧
            next.ReadsChoice library maxDepth := by
  constructor
  · rintro ⟨files, levels, machine, past, node, after, comesBy, matched⟩
    obtain rfl | ⟨-, deeper, rest, begins | ⟨passed, continues⟩, comesByThen⟩ :=
      comesBy.cases_head
    · exact absurd ⟨files, levels, machine, rfl⟩ outside
    · exact
        .inl ⟨deeper, begins, _, _, _, _, _, _, comesByThen, matched⟩
    · exact
        .inr ⟨passed, deeper, continues, _, _, _, _, _, _, comesByThen, matched⟩
  · rintro
      (⟨inner, begins, _, _, _, past, _, _, comesBy, matched⟩ |
        ⟨passed, next, continues, _, _, _, past, _, _, comesBy, matched⟩)
    · obtain ⟨more, comesByAll⟩ := comesBy.exists_of_step outside (.inl begins)
      exact ⟨_, _, _, _, _, _, comesByAll, matched⟩
    · obtain ⟨more, comesByAll⟩ :=
        comesBy.exists_of_step outside (.inr ⟨passed, continues⟩)
      exact ⟨_, _, _, _, _, _, comesByAll, matched⟩

/-- A choice reads a choice to its end if it is one itself. -/
theorem readsChoice_choice_iff
    {files levels : Nat}
    {machine : Machine Workshop} :
    ReadsChoice library maxDepth ⟨files, levels, Grammar.choice, machine⟩ ↔
      ∃ node after,
        outcome library maxDepth ⟨files, levels, Grammar.choice, machine⟩ =
          .matched node after := by
  constructor
  · rintro ⟨otherFiles, otherLevels, other, past, node, after, comesBy, matched⟩
    obtain same | ⟨outside, -⟩ := comesBy.cases_head
    · cases same
      exact ⟨node, after, matched⟩
    · exact absurd ⟨files, levels, machine, rfl⟩ outside
  · rintro ⟨node, after, matched⟩
    exact ⟨_, _, _, _, node, after, .here, matched⟩

/-- Whether a rule is a sequence of two, as that of choices is. -/
private def isSequence {α : Type} : GrammarRule α → Bool
  | .bind _ _ => true
  | _ => false

private theorem not_isChoice_of_isSequence
    (notSequence : isSequence site.rule = false) :
    ¬site.IsChoice := by
  rintro ⟨files, levels, machine, rfl⟩
  cases notSequence

/-- The rule that a rule tries, if it tries one. -/
private def tried? : {α : Type} → GrammarRule α → Option ((β : Type) × GrammarRule β)
  | _, .attempt rule => some ⟨_, rule⟩
  | _, _ => none

/-- The result of a trial tells its type, so the rule that it tries is known. -/
private theorem eq_of_begins_attempt
    {files levels : Nat}
    {α : Type}
    {rule : GrammarRule α}
    {machine : Machine Workshop}
    (begins : Begins ⟨files, levels, .attempt rule, machine⟩ inner) :
    inner = ⟨files, levels, rule, machine⟩ := by
  generalize same : (⟨files, levels, .attempt rule, machine⟩ : Site) = outer at begins
  have tries := congrArg (fun site => tried? site.rule) same
  cases begins with
  | @attempted otherFiles otherLevels β otherRule otherMachine =>
      have sameFiles := congrArg Site.files same
      have sameLevels := congrArg Site.levels same
      have sameMachine := congrArg Site.machine same
      simp only [tried?, Option.some.injEq] at tries sameFiles sameLevels sameMachine
      cases tries
      subst sameFiles sameLevels sameMachine
      rfl
  | _ =>
      cases tries

section Steps

variable
    {files levels : Nat}
    {α β σ : Type}
    {machine : Machine Workshop}

theorem readsChoice_bind_iff
    {first : GrammarRule α}
    {next : α → GrammarRule β}
    (outside : ¬IsChoice ⟨files, levels, .bind first next, machine⟩) :
    ReadsChoice library maxDepth ⟨files, levels, .bind first next, machine⟩ ↔
      ReadsChoice library maxDepth ⟨files, levels, first, machine⟩ ∨
        ∃ value after,
          outcome library maxDepth ⟨files, levels, first, machine⟩ =
              .matched value after ∧
            ReadsChoice library maxDepth ⟨files, levels, next value, after⟩ := by
  rw [readsChoice_iff_of_outside outside]
  refine or_congr ⟨?_, fun reads => ⟨_, .first, reads⟩⟩ ⟨?_, ?_⟩
  · rintro ⟨inner, ⟨⟩, reads⟩
    exact reads
  · rintro ⟨passed, inner, continues, reads⟩
    cases continues with
    | next matched =>
        exact ⟨_, _, matched, reads⟩
  · rintro ⟨value, after, matched, reads⟩
    exact ⟨_, _, .next matched, reads⟩

theorem readsChoice_attempt_iff
    {rule : GrammarRule α} :
    ReadsChoice library maxDepth ⟨files, levels, .attempt rule, machine⟩ ↔
      ReadsChoice library maxDepth ⟨files, levels, rule, machine⟩ := by
  rw [readsChoice_iff_of_outside (not_isChoice_of_isSequence rfl)]
  constructor
  · rintro (⟨inner, begins, reads⟩ | ⟨passed, inner, continues, -⟩)
    · exact eq_of_begins_attempt begins ▸ reads
    · generalize same :
        (⟨files, levels, .attempt rule, machine⟩ : Site) = outer at continues
      have tries := congrArg (fun site => tried? site.rule) same
      cases continues <;> cases tries
  · exact fun reads => .inl ⟨_, .attempted, reads⟩

theorem readsChoice_scope_iff
    {fate : α → Fate}
    {rule : GrammarRule α}
    (room : machine.stack.height < machine.stack.maxDepth) :
    ReadsChoice library maxDepth ⟨files, levels, .scope fate rule, machine⟩ ↔
      ReadsChoice library maxDepth ⟨files, levels, rule, machine.opened⟩ := by
  rw [readsChoice_iff_of_outside (not_isChoice_of_isSequence rfl)]
  constructor
  · rintro (⟨inner, begins, reads⟩ | ⟨passed, inner, ⟨⟩, -⟩)
    cases begins with
    | inScope opens =>
        obtain ⟨-, -, rfl⟩ := Machine.openScope_eq_ok_iff.mp opens
        exact reads
  · intro reads
    exact
      .inl
        ⟨_, .inScope (Machine.openScope_eq_ok_iff.mpr ⟨room, rfl, rfl⟩), reads⟩

theorem readsChoice_loop_iff
    {state : σ}
    {round : σ → GrammarRule (σ ⊕ α)} :
    ReadsChoice library maxDepth ⟨files, levels, .loop state round, machine⟩ ↔
      ReadsChoice library maxDepth ⟨files, levels, round state, machine⟩ ∨
        ∃ next after,
          outcome library maxDepth ⟨files, levels, round state, machine⟩ =
              .matched (.inl next) after ∧
            ReadsChoice library maxDepth
              ⟨files, levels, .loop next round, after⟩ := by
  rw [readsChoice_iff_of_outside (not_isChoice_of_isSequence rfl)]
  refine or_congr ⟨?_, fun reads => ⟨_, .round, reads⟩⟩ ⟨?_, ?_⟩
  · rintro ⟨inner, ⟨⟩, reads⟩
    exact reads
  · rintro ⟨passed, inner, continues, reads⟩
    cases continues with
    | again matched =>
        exact ⟨_, _, matched, reads⟩
  · rintro ⟨next, after, matched, reads⟩
    exact ⟨_, _, .again matched, reads⟩

theorem readsChoice_read_iff
    {construct : Construct α} :
    ReadsChoice library maxDepth
        ⟨files, levels + 1, .effect (.read construct), machine⟩ ↔
      ReadsChoice library maxDepth
        ⟨files, levels, Grammar.rule construct, machine⟩ := by
  rw [readsChoice_iff_of_outside (not_isChoice_of_isSequence rfl)]
  constructor
  · rintro (⟨inner, ⟨⟩, reads⟩ | ⟨passed, inner, ⟨⟩, -⟩)
    exact reads
  · exact fun reads => .inl ⟨_, .construct, reads⟩

end Steps

/-- The mark stands in the end if it did before and no choice was read to its end. -/
def KeepsMark
    (library : Library)
    (maxDepth : Nat)
    (site : Site) : Prop :=
  (site.outcome library maxDepth).Ends fun after =>
    after.host.inChoice = true ↔
      site.machine.host.inChoice = true ∧ ¬site.ReadsChoice library maxDepth

theorem IsChoice.keepsMark
    (isChoice : site.IsChoice) :
    site.KeepsMark library maxDepth := by
  obtain ⟨files, levels, machine, rfl⟩ := isChoice
  have ran :
      (outcome library maxDepth
          ⟨files, levels, Grammar.choice, machine⟩).Ensures
        (fun _ after => after.host.inChoice = false)
        (·.host.inChoice = machine.host.inChoice) :=
    Grammar.ensures_choice machine
  obtain ⟨onMatch, onFailure⟩ := Outcome.ensures_iff.mp ran
  refine Outcome.ensures_iff.mpr ⟨fun node after matched => ?_, fun after failed => ?_⟩
  · simp [onMatch node after matched, readsChoice_choice_iff, matched]
  · simp [onFailure after failed, readsChoice_choice_iff, failed]

/-- Whether the run of a rule enters others in its file. -/
private def hasParts {α : Type} : GrammarRule α → Bool
  | .bind _ _ => true
  | .attempt _ => true
  | .scope _ _ => true
  | .loop _ _ => true
  | .effect (.read _) => true
  | _ => false

/-- A run that enters nothing in its file keeps the mark if it leaves it alone. -/
private theorem keepsMark_of_alone
    (alone : hasParts site.rule = false)
    (ends :
      (site.outcome library maxDepth).Ends
        (·.host.inChoice = site.machine.host.inChoice)) :
    site.KeepsMark library maxDepth := by
  have outside : ¬site.IsChoice := by
    rintro ⟨files, levels, machine, rfl⟩
    cases alone
  have readsNone : ¬site.ReadsChoice library maxDepth := by
    rw [readsChoice_iff_of_outside outside]
    rintro (⟨inner, begins, -⟩ | ⟨passed, next, continues, -⟩)
    · cases begins <;> cases alone
    · cases continues <;> cases alone
  exact ends.mono (by simp_all) (by simp_all)

section Steps

variable
    {files levels : Nat}
    {α β σ : Type}
    {machine : Machine Workshop}

theorem keepsMark_bind
    {first : GrammarRule α}
    {next : α → GrammarRule β}
    (keeps : KeepsMark library maxDepth ⟨files, levels, first, machine⟩)
    (then_ :
      ∀ value after,
        KeepsMark library maxDepth ⟨files, levels, next value, after⟩) :
    KeepsMark library maxDepth ⟨files, levels, .bind first next, machine⟩ := by
  by_cases isChoice : IsChoice ⟨files, levels, .bind first next, machine⟩
  · exact isChoice.keepsMark
  obtain ⟨onMatch, onFailure⟩ := Outcome.ensures_iff.mp keeps
  refine Rule.ensures_bind.mpr (Outcome.ensures_iff.mpr ⟨?_, ?_⟩)
  · intro value middle matched
    have marked := onMatch value middle matched
    change outcome library maxDepth ⟨files, levels, first, machine⟩ = _ at matched
    refine (then_ value middle).mono ?_ ?_
    all_goals
      intros
      simp_all [readsChoice_bind_iff isChoice, and_assoc]
  · intro after failed
    change outcome library maxDepth ⟨files, levels, first, machine⟩ = _ at failed
    simp [onFailure after failed, readsChoice_bind_iff isChoice, failed]

theorem keepsMark_attempt
    {rule : GrammarRule α}
    (keeps : KeepsMark library maxDepth ⟨files, levels, rule, machine⟩) :
    KeepsMark library maxDepth ⟨files, levels, .attempt rule, machine⟩ := by
  refine Rule.ensures_attempt.mpr (keeps.mono ?_ ?_)
  · simp [readsChoice_attempt_iff]
  · simp [readsChoice_attempt_iff]

omit library maxDepth in
private theorem inChoice_of_closes
    {fate : Fate}
    {number : RuleId}
    {after closed : Machine Workshop}
    (closes : Rule.Closes fate number after closed) :
    closed.host.inChoice = after.host.inChoice := by
  cases fate with
  | keep nodes =>
      obtain ⟨parent, deeper, -, -, rfl⟩ :=
        Machine.commitScope_eq_ok_iff.mp closes
      rfl
  | undo =>
      obtain ⟨parent, deeper, -, -, rfl⟩ :=
        Machine.cancelScope_eq_ok_iff.mp closes
      rfl

theorem keepsMark_scope
    {fate : α → Fate}
    {rule : GrammarRule α}
    (keeps : KeepsMark library maxDepth ⟨files, levels, rule, machine.opened⟩) :
    KeepsMark library maxDepth ⟨files, levels, .scope fate rule, machine⟩ := by
  refine Rule.ensures_scope fun room => keeps.mono ?_ ?_
  · intro value after marked closed closes
    rw [inChoice_of_closes closes, readsChoice_scope_iff room]
    exact marked
  · intro after marked closed cancels
    have unmade : Rule.Closes .undo machine.nextRule after closed := cancels
    rw [inChoice_of_closes unmade, readsChoice_scope_iff room]
    exact marked

theorem keepsMark_loop
    {round : σ → GrammarRule (σ ⊕ α)}
    (keeps :
      ∀ state machine,
        KeepsMark library maxDepth ⟨files, levels, round state, machine⟩)
    (state : σ)
    (machine : Machine Workshop) :
    KeepsMark library maxDepth ⟨files, levels, .loop state round, machine⟩ := by
  refine
    Rule.ensures_loop
      (fun next after =>
        (machine.host.inChoice = true ∧
            ¬ReadsChoice library maxDepth
              ⟨files, levels, .loop state round, machine⟩) ↔
          (after.host.inChoice = true ∧
            ¬ReadsChoice library maxDepth
              ⟨files, levels, .loop next round, after⟩))
      Iff.rfl ?_
  intro other middle invariant
  obtain ⟨onMatch, onFailure⟩ := Outcome.ensures_iff.mp (keeps other middle)
  refine Outcome.ensures_iff.mpr ⟨?_, ?_⟩
  · rintro (next | value) after matched
    · have marked := onMatch _ after matched
      change outcome library maxDepth ⟨files, levels, round other, middle⟩ = _ at matched
      simp only [invariant]
      rw [readsChoice_loop_iff]
      simp_all [and_assoc]
    · have marked := onMatch _ after matched
      change outcome library maxDepth ⟨files, levels, round other, middle⟩ = _ at matched
      simp only [invariant]
      rw [readsChoice_loop_iff]
      simp_all
  · intro after failed
    have marked := onFailure after failed
    change outcome library maxDepth ⟨files, levels, round other, middle⟩ = _ at failed
    simp only [invariant]
    rw [readsChoice_loop_iff]
    simp_all

private theorem keepsMark_drafting
    {operation : Craft α}
    (isDrafting : operation.IsDrafting) :
    KeepsMark library maxDepth ⟨files, levels, .effect operation, machine⟩ := by
  have alone : hasParts (.effect operation : GrammarRule α) = false := by
    cases operation <;> first | rfl | exact isDrafting.elim
  exact
    keepsMark_of_alone alone
      ((Workshop.ensures_drafting isDrafting machine).mono (fun _ _ => id)
        fun _ => False.elim)

/-- An operation that sets no mark keeps it, if the constructs that it reads do. -/
theorem keepsMark_effect
    {operation : Craft α}
    (spares : operation.SparesMark)
    (constructs :
      ∀ (construct : Construct α) (fewer : Nat),
        fewer < levels →
        KeepsMark library maxDepth
          ⟨files, fewer, Grammar.rule construct, machine⟩) :
    KeepsMark library maxDepth ⟨files, levels, .effect operation, machine⟩ := by
  cases operation with
  | setInChoice inChoice =>
      exact spares.elim
  | read construct =>
      cases levels with
      | zero =>
          trivial
      | succ levels =>
          have keeps := constructs construct levels (Nat.lt_succ_self levels)
          unfold KeepsMark at keeps ⊢
          simp only [readsChoice_read_iff]
          exact keeps
  | «include» name =>
      refine keepsMark_of_alone rfl ?_
      change (inclusions library maxDepth files name machine).Ends _
      simp only [inclusions, includeFile]
      split
      · rfl
      · split
        · rfl
        · split
          · trivial
          · rfl
  | _ =>
      exact keepsMark_drafting trivial

end Steps

/-- A rule that sets the mark in whole choices only keeps it otherwise. -/
theorem keepsMark_of_sparesMark
    (files levels : Nat)
    {α : Type}
    {rule : GrammarRule α}
    (spares : rule.SparesMark)
    (machine : Machine Workshop) :
    KeepsMark library maxDepth ⟨files, levels, rule, machine⟩ := by
  induction levels using Nat.strongRecOn generalizing α rule machine with
  | ind levels nested =>
      induction spares generalizing machine with
      | choice =>
          exact IsChoice.keepsMark ⟨files, levels, machine, rfl⟩
      | bind spares then_ firstHypothesis nextHypothesis =>
          exact
            keepsMark_bind (firstHypothesis machine) fun value after =>
              nextHypothesis value after
      | attempt spares inductionHypothesis =>
          exact keepsMark_attempt (inductionHypothesis machine)
      | scope fate spares inductionHypothesis =>
          exact keepsMark_scope (inductionHypothesis machine.opened)
      | loop state spares inductionHypothesis =>
          exact
            keepsMark_loop (fun state machine => inductionHypothesis state machine)
              state machine
      | effect spares =>
          exact
            keepsMark_effect spares fun construct fewer less =>
              nested fewer less (Grammar.sparesMark_rule construct) machine
      | scan scanner =>
          refine keepsMark_of_alone rfl ?_
          refine Rule.ensures_scan.mpr ?_
          split <;> rfl
      | report severity line message =>
          refine keepsMark_of_alone rfl ?_
          change (machine.report severity line message).host.inChoice = _
          rw [Machine.host_report]
          split <;> rfl
      | _ =>
          exact keepsMark_of_alone rfl rfl

theorem BeginsParts.reaches
    {parts : Site}
    (begins : BeginsParts library maxDepth site parts) :
    Reaches library maxDepth site parts := by
  obtain ⟨headRead, marked⟩ := begins
  exact .head (.next headRead) (.head (.next marked) (.single .first))

/-- The parts of a rule set the mark in whole choices only. -/
private def PartsSpareMark : {α : Type} → GrammarRule α → Prop
  | _, .bind first next =>
      first.SparesMark ∧ ∀ value, (next value).SparesMark
  | _, .attempt rule => rule.SparesMark
  | _, .scope _ rule => rule.SparesMark
  | _, .loop _ round => ∀ state, (round state).SparesMark
  | _, _ => True

private theorem partsSpareMark
    (spares : site.rule.SparesMark)
    (outside : ¬site.IsChoice) :
    PartsSpareMark site.rule := by
  obtain ⟨files, levels, rule, machine⟩ := site
  simp only at spares
  cases spares with
  | choice =>
      exact absurd ⟨files, levels, machine, rfl⟩ outside
  | bind spares then_ =>
      exact ⟨spares, then_⟩
  | attempt spares =>
      exact spares
  | scope fate spares =>
      exact spares
  | loop state spares =>
      exact spares
  | _ =>
      trivial

/-- Along a run, the mark stands if it did at first and no choice was read so far. -/
theorem ComesBy.inChoice_iff
    (comesBy : ComesBy library maxDepth site inner past)
    (spares : site.rule.SparesMark) :
    inner.rule.SparesMark ∧
      (inner.machine.host.inChoice = true ↔
        site.machine.host.inChoice = true ∧
          ∀ passed ∈ past, ¬passed.ReadsChoice library maxDepth) := by
  induction comesBy with
  | here =>
      exact ⟨spares, by simp⟩
  | begins comesBy outside begins inductionHypothesis =>
      obtain ⟨sparesInner, marked⟩ := inductionHypothesis
      have parts := partsSpareMark sparesInner outside
      cases begins with
      | first =>
          exact ⟨parts.1, marked⟩
      | attempted =>
          exact ⟨parts, marked⟩
      | inScope opens =>
          obtain ⟨-, -, rfl⟩ := Machine.openScope_eq_ok_iff.mp opens
          exact ⟨parts, marked⟩
      | round =>
          exact ⟨parts _, marked⟩
      | construct =>
          exact ⟨Grammar.sparesMark_rule _, marked⟩
  | @continues inner passed next past comesBy outside continues inductionHypothesis =>
      obtain ⟨sparesInner, marked⟩ := inductionHypothesis
      have parts := partsSpareMark sparesInner outside
      suffices kept :
          next.rule.SparesMark ∧
            (next.machine.host.inChoice = true ↔
              inner.machine.host.inChoice = true ∧
                ¬passed.ReadsChoice library maxDepth) by
        refine ⟨kept.1, ?_⟩
        rw [kept.2, marked, and_assoc, List.forall_mem_append]
        simp
      cases continues with
      | @next files levels _ _ _ _ machine _ _ matched =>
          have keeps : KeepsMark library maxDepth _ :=
            keepsMark_of_sparesMark files levels parts.1 machine
          exact ⟨parts.2 _, (Outcome.ensures_iff.mp keeps).1 _ _ matched⟩
      | @again files levels _ _ state _ _ machine _ matched =>
          have keeps : KeepsMark library maxDepth _ :=
            keepsMark_of_sparesMark files levels (parts state) machine
          exact ⟨.loop _ parts, (Outcome.ensures_iff.mp keeps).1 _ _ matched⟩

end Site

open Site

/-- A choice is read under its own mark but for choices inside.

Its run leaves the mark as it was exactly if there was none or no choice is there.
While its parts are read, in braces or outside, the mark stands exactly as long as
no choice inside was read to its end. -/
theorem mark_stands_iff_no_choice_read
    (library : Library)
    (maxDepth files levels : Nat)
    (machine : Machine Workshop) :
    (∀ after,
        (outcome library maxDepth
            ⟨files, levels, Grammar.choice, machine⟩).after? =
          some after →
        (after.host.inChoice = machine.host.inChoice ↔
          machine.host.inChoice = false ∨
            outcome library maxDepth
                ⟨files, levels, Grammar.choice, machine⟩ =
              .failed after)) ∧
      ∀ parts inner past,
        BeginsParts library maxDepth
            ⟨files, levels, Grammar.choice, machine⟩ parts →
        ComesBy library maxDepth parts inner past →
        (inner.machine.host.inChoice = true ↔
          ∀ passed ∈ past, ¬passed.ReadsChoice library maxDepth) := by
  constructor
  · intro after ends
    have ran :
        (outcome library maxDepth
            ⟨files, levels, Grammar.choice, machine⟩).Ensures
          (fun _ after => after.host.inChoice = false)
          (·.host.inChoice = machine.host.inChoice) :=
      Grammar.ensures_choice machine
    obtain ⟨onMatch, onFailure⟩ := Outcome.ensures_iff.mp ran
    cases came :
        outcome library maxDepth ⟨files, levels, Grammar.choice, machine⟩ with
    | matched node end_ =>
        rw [came] at ends
        cases ends
        rw [onMatch node after came]
        cases machine.host.inChoice <;> simp
    | failed end_ =>
        rw [came] at ends
        cases ends
        simp [onFailure after came]
    | faulted fault =>
        rw [came] at ends
        cases ends
  · intro parts inner past begins comesBy
    obtain ⟨headRead, marked⟩ := begins
    rw [(comesBy.inChoice_iff Grammar.sparesMark_choiceParts).2]
    cases marked
    simp

namespace Site

variable
    {library : Library}
    {maxDepth files levels : Nat}

/-- How many sequences stand in front of a trial, if that is what a rule begins with. -/
private def trialDepth? : {α : Type} → GrammarRule α → Option Nat
  | _, .bind first _ => (trialDepth? first).map (· + 1)
  | _, .attempt _ => some 0
  | _, _ => none

private theorem not_isChoice_of_trialDepth
    {site : Site}
    (depth : Option Nat)
    (isDepth : trialDepth? site.rule = depth)
    (others : depth ≠ some 3) :
    ¬site.IsChoice := by
  rintro ⟨files, levels, machine, rfl⟩
  exact others isDepth.symm

/-- Closing a tag begins with a flag and not with a trial. -/
private theorem trialDepth_closeLastTag
    (parts : Grammar.ChoiceText) :
    trialDepth? (Grammar.closeLastTag parts) = none := by
  obtain ⟨start, hasBrackets, choiceOnly, inner⟩ := parts
  cases inner <;> cases start <;> rfl

/-- The rule matches, whatever stands there, and leaves the mark alone. -/
private def Passes {α : Type} (rule : GrammarRule α) : Prop :=
  ∀ (library : Library) (maxDepth files levels : Nat) (machine : Machine Workshop),
    ∃ value after,
      outcome library maxDepth ⟨files, levels, rule, machine⟩ =
          .matched value after ∧
        after.host.inChoice = machine.host.inChoice

section Passing

variable {α β : Type}

private theorem Passes.pure
    (value : α) :
    Passes (Pure.pure value : GrammarRule α) :=
  fun _ _ _ _ _ => ⟨_, _, rfl, rfl⟩

private theorem Passes.bind
    {first : GrammarRule α}
    {next : α → GrammarRule β}
    (passes : Passes first)
    (then_ : ∀ value, Passes (next value)) :
    Passes (first >>= next) := by
  intro library maxDepth files levels machine
  obtain ⟨value, middle, matched, same⟩ :=
    passes library maxDepth files levels machine
  obtain ⟨result, after, matchedThen, sameThen⟩ :=
    then_ value library maxDepth files levels middle
  refine ⟨result, after, ?_, sameThen.trans same⟩
  simp only [outcome] at matched matchedThen
  simp only [outcome, Bind.bind, Rule.run, matched, Outcome.andThen, matchedThen]

private theorem passes_skipBlanks :
    Passes Grammar.skipBlanks := by
  refine .bind ?_ fun _ => .pure _
  intro library maxDepth files levels machine
  simp only [outcome, Grammar.blanks, Rule.run, Rule.chars, bind, Outcome.andThen]
  cases machine.cursor.scan (.chars isInlineBlank) with
  | none =>
      exact ⟨_, _, rfl, rfl⟩
  | some found =>
      exact ⟨_, _, rfl, rfl⟩

private theorem passes_closeTag :
    Passes Grammar.closeTag := by
  refine .bind (fun _ _ _ _ _ => ⟨_, _, rfl, rfl⟩) fun isOpen => ?_
  split
  · refine .bind (fun _ _ _ _ _ => ⟨_, _, rfl, rfl⟩) fun marker => ?_
    exact .bind (fun _ _ _ _ _ => ⟨_, _, rfl, rfl⟩) fun _ => .pure _
  · exact .pure _

private theorem passes_closeTagIn
    (content : Option (List NodeId)) :
    Passes (Grammar.closeTagIn content) := by
  cases content with
  | none =>
      exact .bind (fun _ _ _ _ _ => ⟨_, _, rfl, rfl⟩) fun _ => .pure _
  | some content =>
      exact .bind passes_closeTag fun _ => .pure _

private theorem passes_closeLastTag
    (parts : Grammar.ChoiceText) :
    Passes (Grammar.closeLastTag parts) := by
  unfold Grammar.closeLastTag
  split
  · exact .bind (passes_closeTagIn _) fun _ => .pure _
  · exact .bind (passes_closeTagIn _) fun _ => .pure _

end Passing

/-- A choice that has read its text comes by its diverts, under the same mark. -/
theorem exists_comesBy_diverts
    {started told : Machine Workshop}
    {text : Grammar.ChoiceText}
    (textRead :
      outcome library maxDepth ⟨files, levels, Grammar.choiceText, started⟩ =
        .matched text told) :
    ∃ ended past,
      ComesBy library maxDepth ⟨files, levels, Grammar.choiceParts, started⟩
          ⟨files, levels, Rule.attempt (Rule.parse Grammar.diverts), ended⟩
          past ∧
        ended.host.inChoice = told.host.inChoice := by
  obtain ⟨⟨⟩, spaced, blanksRead, sameThen⟩ :=
    passes_skipBlanks library maxDepth files levels told
  obtain ⟨closed, ended, tagClosed, same⟩ :=
    passes_closeLastTag text library maxDepth files levels spaced
  have behindTag :
      ComesBy library maxDepth
        ⟨files, levels, Grammar.choiceParts, started⟩ _ _ :=
    ((ComesBy.here.continues
            (not_isChoice_of_trialDepth (some 2) rfl (by decide))
            (.next textRead)).continues
          (not_isChoice_of_trialDepth (some 2) rfl (by decide))
          (.next blanksRead)).continues
        (not_isChoice_of_trialDepth none
          (congrArg (Option.map (· + 1)) (trialDepth_closeLastTag text))
          (by decide))
        (.next tagClosed)
  exact
    ⟨ended, _,
      behindTag.begins (not_isChoice_of_trialDepth (some 1) rfl (by decide))
        .first,
      same.trans sameThen⟩

end Site

/-- A choice whose text holds, in braces, another one in front of brackets. -/
def nestedChoice : String :=
  "* a \x7bx:\n* b\n\x7d [c]\n"

private theorem exists_site_of_nestedChoice :
    ∃ levels machine,
      Visits (.ofFiles []) {} nestedChoice none
          ⟨1, levels, Grammar.choice, machine⟩ ∧
        machine.host.inChoice = false ∧
          (outcome (.ofFiles []) 200
                ⟨1, levels, Grammar.choice, machine⟩).after?.isSome =
              true ∧
            yields (.ofFiles []) 200 ⟨1, levels, Grammar.choiceHead, machine⟩
                (fun _ => true) =
              true ∧
              let headed :=
                Site.after (.ofFiles []) 200
                  ⟨1, levels, Grammar.choiceHead, machine⟩
              let started :=
                { headed with host := { headed.host with inChoice := true } }
              yields (.ofFiles []) 200 ⟨1, levels, Grammar.choiceText, started⟩
                    (fun _ => true) =
                  true ∧
                (Site.after (.ofFiles []) 200
                      ⟨1, levels, Grammar.choiceText, started⟩).host.inChoice =
                  false := by
  have rounds :=
    Site.Reaches.rounds (by decide)
      (firstSite_reaches_statements (.ofFiles []) {} none nestedChoice)
      (by decide +kernel) (by decide +kernel)
  obtain ⟨stops, goesOn, piece⟩ :=
    Site.Reaches.yielded (!·) (rounds.tail .round) (by decide +kernel)
  obtain rfl : stops = false := by
    simpa using goesOn
  have statements :=
    (Site.Reaches.parsed ((piece.tail .first).tail .attempted)
      (by decide +kernel)).tail .first
  -- No line of diverts and no knot stands here, so the next rule is for choices.
  obtain ⟨diverts, isNone, others⟩ :=
    Site.Reaches.yielded (fun diverts => diverts.isNone)
      (Site.Reaches.parsed (statements.tail .first) (by decide +kernel))
      (by decide +kernel)
  obtain rfl : diverts = none := by
    simpa using isNone
  obtain ⟨knot, isNone, others⟩ :=
    Site.Reaches.yielded (fun knot => knot.isNone) others (by decide +kernel)
  obtain rfl : knot = none := by
    simpa using isNone
  have line :=
    Site.Reaches.parsed ((others.tail .first).tail .attempted)
      (by decide +kernel)
  have choice :=
    Site.Reaches.parsed ((line.tail .first).tail .first) (by decide +kernel)
  exact
    ⟨_, _, .of_reaches (by decide +kernel) choice, by decide +kernel,
      by decide +kernel, by decide +kernel, by decide +kernel,
      by decide +kernel⟩

/-- In a plain reading of it, the outer choice loses its mark behind the inner one. -/
private theorem exists_unmarked_diverts :
    ∃ levels machine after parts ended past,
      Visits (.ofFiles []) {} nestedChoice none
          ⟨1, levels, Grammar.choice, machine⟩ ∧
        machine.host.inChoice = false ∧
          (outcome (.ofFiles []) 200
              ⟨1, levels, Grammar.choice, machine⟩).after? =
            some after ∧
            BeginsParts (.ofFiles []) 200
                ⟨1, levels, Grammar.choice, machine⟩ parts ∧
              ComesBy (.ofFiles []) 200 parts
                  ⟨1, levels, Rule.attempt (Rule.parse Grammar.diverts),
                    ended⟩
                  past ∧
                ended.host.inChoice = false := by
  obtain ⟨levels, machine, visits, unmarked, ends, headRead, textRead, lost⟩ :=
    exists_site_of_nestedChoice
  obtain ⟨head, -, headRead⟩ := exists_matched_of_yields headRead
  obtain ⟨text, -, textRead⟩ := exists_matched_of_yields textRead
  obtain ⟨ended, past, comesBy, same⟩ := exists_comesBy_diverts textRead
  exact
    ⟨levels, machine, _, _, ended, past, visits, unmarked,
      after?_eq_some_after ends, ⟨headRead, rfl⟩, comesBy, same.trans lost⟩

/-- Where the mark is gone, a choice inside was read to its end. -/
theorem mark_lost_as_nested_choice_read :
    ∃ levels machine after parts ended past,
      Visits (.ofFiles []) {} nestedChoice none
          ⟨1, levels, Grammar.choice, machine⟩ ∧
        (outcome (.ofFiles []) 200
              ⟨1, levels, Grammar.choice, machine⟩).after? =
            some after ∧
          after.host.inChoice = machine.host.inChoice ∧
            BeginsParts (.ofFiles []) 200
                ⟨1, levels, Grammar.choice, machine⟩ parts ∧
              ComesBy (.ofFiles []) 200 parts
                  ⟨1, levels, Rule.attempt (Rule.parse Grammar.diverts),
                    ended⟩
                  past ∧
                ∃ passed ∈ past, passed.ReadsChoice (.ofFiles []) 200 := by
  obtain
    ⟨levels, machine, after, parts, ended, past, visits, unmarked, ends, begins,
      comesBy, lost⟩ :=
    exists_unmarked_diverts
  obtain ⟨around, inside⟩ :=
    mark_stands_iff_no_choice_read (.ofFiles []) 200 1 levels machine
  refine
    ⟨levels, machine, after, parts, ended, past, visits, ends,
      (around after ends).mpr (.inl unmarked), begins, comesBy, ?_⟩
  by_contra none
  have stands : ended.host.inChoice = true :=
    (inside parts _ past begins comesBy).mpr (by simpa using none)
  rw [lost] at stands
  cases stands

/-- The diverts of a choice are read without a mark if its text holds a choice. -/
theorem diverts_read_unmarked_behind_nested_choice :
    ∃ levels machine parts ended past,
      Visits (.ofFiles []) {} nestedChoice none
          ⟨1, levels, Grammar.choice, machine⟩ ∧
        BeginsParts (.ofFiles []) 200
            ⟨1, levels, Grammar.choice, machine⟩ parts ∧
          ComesBy (.ofFiles []) 200 parts
              ⟨1, levels, Rule.attempt (Rule.parse Grammar.diverts), ended⟩
              past ∧
            ended.host.inChoice = false := by
  obtain
    ⟨levels, machine, -, parts, ended, past, visits, -, -, begins, comesBy,
      lost⟩ :=
    exists_unmarked_diverts
  exact ⟨levels, machine, parts, ended, past, visits, begins, comesBy, lost⟩

end InkSyntax.Reading
