import InkSyntax.Proofs.Grammar.Operations
import InkSyntax.Proofs.Machine.Allocation
import InkSyntax.Proofs.Reading.Pages

namespace InkSyntax

/-!
# Following a rule on a sheet

Some rules look at more than their page: they ask for a flag, or they warn.  A sheet
holds the page together with the flags of the innermost scope and the session.  A rule
brings about something on a sheet if every run that starts where one condition holds
of the sheet ends with the same result where another one does.

What is known of a rule on its page carries over, because such a rule is silent; only
the flags are not known behind it, unless its scope was undone.
-/

/-- A page, the flags of the innermost scope and what all files have in common. -/
structure Sheet where
  page : Page
  flags : UInt32
  session : Session

/-- A sheet with a given page and a session of some kind. -/
structure Sheet.On
    (page : Page)
    (told : Session → Prop)
    (sheet : Sheet) : Prop where
  page_eq : sheet.page = page
  told : told sheet.session

/-- A sheet on which no tag is open, besides. -/
structure Sheet.Untagged
    (page : Page)
    (told : Session → Prop)
    (sheet : Sheet) : Prop extends Sheet.On page told sheet where
  closed : sheet.flags &&& Flag.tagOpen = 0

/-- The nodes of a workshop by what they are, the newest last. -/
def Workshop.kinds (workshop : Workshop) : List StoryKind :=
  workshop.draft.kinds

/-- Marks count the nodes that were made. -/
theorem Workshop.allocates_kinds :
    Host.Allocates Workshop.kinds where
  mark workshop := (Draft.length_kinds workshop.draft).symm
  rewind workshop mark := Draft.kinds_keepOldest workshop.draft mark
  commit workshop nodes _ _ := Draft.kinds_setSpans workshop.draft _ nodes
  deliver _ _ _ _ := rfl

namespace Machine

variable
    {machine after closed : Machine Workshop}
    {depth levels : Nat}

def sheet (machine : Machine Workshop) : Sheet :=
  ⟨machine.page, machine.top.flags, machine.host.session⟩

/-- A machine grows when it stays in its scope, moves on and adds nodes. -/
abbrev Grows (before after : Machine Workshop) : Prop :=
  before.Extends Workshop.kinds after

theorem Silent.grows
    (silent : Silent machine after) :
    Grows machine after :=
  ⟨silent.toProceeds, silent.kinds⟩

/-- Where a machine was ready, it is so further on. -/
theorem IsReady.onwards
    (ready : machine.IsReady depth levels machine.page)
    (proceeds : machine.Proceeds after) :
    after.IsReady depth levels after.page where
  at_ := rfl
  room := by
    rw [proceeds.height, proceeds.maxDepth]
    exact ready.room
  levels := ready.levels
  rounds := by
    have shorter := proceeds.cursor.length_le
    have enough := ready.rounds
    rw [proceeds.rounds]
    exact Nat.lt_of_le_of_lt shorter enough

/-- A scope that is kept keeps the sheet on which its rule ended. -/
theorem Extends.exists_kept
    (grows : Grows machine.opened after)
    (nodes : List NodeId) :
    ∃ closed,
      after.commitScope machine.nextRule nodes = .ok closed ∧
        Grows machine closed ∧
        closed.sheet = after.sheet := by
  obtain ⟨closed, commits, keeps⟩ := grows.exists_keeps nodes
  obtain ⟨growsClosed, place⟩ := grows.kept Workshop.allocates_kinds commits
  have kinds : closed.host.draft.kinds = after.host.draft.kinds := place.allocated
  have session : closed.host.session = after.host.session := by
    rw [keeps.host]
    rfl
  refine ⟨closed, commits, growsClosed, ?_⟩
  rw [sheet, sheet, page, page, place.cursor, place.flags, kinds, session]

/-- A scope that is undone restores page and flags, and the session if its rule was silent. -/
theorem Silent.exists_restored
    (silent : Silent machine.opened after) :
    ∃ closed,
      after.cancelScope machine.nextRule = .ok closed ∧
        Grows machine closed ∧
        closed.sheet = machine.sheet := by
  obtain ⟨closed, cancels, undoes⟩ := silent.exists_undoes
  obtain ⟨growsClosed, place⟩ := silent.grows.undone Workshop.allocates_kinds cancels
  have kinds : closed.host.draft.kinds = machine.host.draft.kinds := place.allocated
  have session : closed.host.session = machine.host.session := by
    rw [undoes.host]
    exact silent.session
  refine ⟨closed, cancels, growsClosed, ?_⟩
  rw [sheet, sheet, page, page, place.cursor, place.flags, kinds, session]

end Machine

namespace Grammar

open Machine (Silent IsReady Grows)
open Reading (Site)

variable
    {α β σ : Type}
    {rule : GrammarRule α}
    {depth : Nat}
    {held between holds : Sheet → Prop}
    {page last : Page}
    {value : α}
    {result : Option α}

/-- Every run of a rule from a sheet of one kind ends with the same result on one of another. -/
def Brings
    (rule : GrammarRule α)
    (depth : Nat)
    (held : Sheet → Prop)
    (result : Option α)
    (holds : Sheet → Prop) : Prop :=
  ∀ library maxDepth files levels machine,
    machine.IsReady depth levels machine.page →
    held machine.sheet →
    ∃ after,
      Grows machine after ∧
        holds after.sheet ∧
        Site.outcome library maxDepth ⟨files, levels, rule, machine⟩ =
          .ended result after

section Combinators

/-- What silent runs do not change holds behind a rule that is known on its page. -/
theorem ComesTo.brings
    (comes : ComesTo rule depth page result last)
    (starts : ∀ sheet, held sheet → sheet.page = page)
    (ends : ∀ sheet flags, held sheet → holds ⟨last, flags, sheet.session⟩) :
    Brings rule depth held result holds := by
  intro library maxDepth files levels machine ready atStart
  have at_ : machine.page = page := starts _ atStart
  obtain ⟨after, silent, atEnd, ran⟩ :=
    comes library maxDepth files levels machine (at_ ▸ ready)
  refine ⟨after, silent.grows, ?_, ran⟩
  have held := ends _ after.top.flags atStart
  rw [Machine.sheet, atEnd, silent.session]
  exact held

/-- Where flags do not matter, a rule is followed on a sheet as it is on its page. -/
theorem ComesTo.brings_on
    {told : Session → Prop}
    (comes : ComesTo rule depth page result last) :
    Brings rule depth (Sheet.On page told) result (Sheet.On last told) := by
  apply comes.brings
  · exact fun _ on => on.page_eq
  · exact fun _ _ on => ⟨rfl, on.told⟩

theorem brings_pure :
    Brings (pure value) depth held (some value) held := by
  intro library maxDepth files levels machine ready starts
  exact ⟨machine, .refl machine, starts, rfl⟩

theorem Brings.bind
    {next : α → GrammarRule β}
    {result : Option β}
    (first : Brings rule depth held (some value) between)
    (second : Brings (next value) depth between result holds) :
    Brings (rule >>= next) depth held result holds := by
  intro library maxDepth files levels machine ready starts
  obtain ⟨middle, grows, meets, ran⟩ :=
    first library maxDepth files levels machine ready starts
  obtain ⟨after, growsThen, ends, ranThen⟩ :=
    second library maxDepth files levels middle (ready.onwards grows.toProceeds) meets
  refine ⟨after, grows.trans growsThen, ends, ?_⟩
  change Outcome.andThen (Site.outcome library maxDepth
    ⟨files, levels, rule, machine⟩) _ = _
  rw [ran]
  exact ranThen

theorem Brings.attempt
    (brings : Brings rule depth held result holds) :
    Brings (Rule.attempt rule) depth held (some result) holds := by
  intro library maxDepth files levels machine ready starts
  obtain ⟨after, grows, ends, ran⟩ :=
    brings library maxDepth files levels machine ready starts
  refine ⟨after, grows, ends, ?_⟩
  simp only [Site.outcome, Rule.run] at ran ⊢
  rw [ran]
  cases result with
  | none =>
      rfl
  | some value =>
      rfl

/-- How a scope ends hangs on what its rule comes to. -/
theorem outcome_scope
    {library : Library}
    {maxDepth files levels : Nat}
    {machine after closed : Machine Workshop}
    {fate : α → Fate}
    (ready : machine.IsReady (depth + 1) levels page)
    (ran :
      Site.outcome library maxDepth ⟨files, levels, rule, machine.opened⟩ =
        .ended result after)
    (grows : Grows machine.opened after)
    (closes :
      Rule.Closes (result.elim .undo fate) machine.nextRule after closed) :
    Site.outcome library maxDepth ⟨files, levels, .scope fate rule, machine⟩ =
      .ended result closed := by
  simp only [Site.outcome, Rule.run, Action.inScope, ready.opens] at ran ⊢
  cases result with
  | none =>
      have cancels : after.cancelScope machine.nextRule = .ok closed := closes
      simp only [ran, Outcome.ended, Action.balanced, grows.height, ↓reduceIte,
        cancels, Outcome.ofExcept]
  | some value =>
      simp only [ran, Outcome.ended, Action.balanced, grows.height, ↓reduceIte]
      cases fated : fate value with
      | keep nodes =>
          rw [Option.elim_some, fated] at closes
          have commits : after.commitScope machine.nextRule nodes = .ok closed := closes
          simp only [commits, Outcome.ofExcept]
      | undo =>
          rw [Option.elim_some, fated] at closes
          have cancels : after.cancelScope machine.nextRule = .ok closed := closes
          simp only [cancels, Outcome.ofExcept]

/-- A scope of its own makes no difference to a rule that matches. -/
theorem Brings.parse
    [StandsFor α]
    (brings : Brings rule depth held (some value) holds) :
    Brings (Rule.parse rule) (depth + 1) held (some value) holds := by
  intro library maxDepth files levels machine ready starts
  obtain ⟨after, grows, ends, ran⟩ :=
    brings library maxDepth files levels machine.opened ready.opened starts
  obtain ⟨closed, commits, growsClosed, same⟩ :=
    grows.exists_kept (StandsFor.nodes value)
  exact ⟨closed, growsClosed, same ▸ ends, outcome_scope ready ran grows commits⟩

theorem Brings.tried
    [StandsFor α]
    (brings : Brings rule depth held (some value) holds) :
    Brings (Rule.attempt (Rule.parse rule)) (depth + 1) held (some (some value))
      holds :=
  brings.parse.attempt

/-- A scope that is undone leaves the sheet alone, if its rule is known on its page. -/
theorem ComesTo.brings_undone
    {fate : α → Fate}
    (comes : ComesTo rule depth page result last)
    (undone : result.elim .undo fate = .undo)
    (starts : ∀ sheet, held sheet → sheet.page = page) :
    Brings (.scope fate rule) (depth + 1) held result held := by
  intro library maxDepth files levels machine ready atStart
  have at_ : machine.page = page := starts _ atStart
  obtain ⟨after, silent, -, ran⟩ :=
    comes library maxDepth files levels machine.opened (at_ ▸ ready.opened)
  obtain ⟨closed, cancels, growsClosed, same⟩ := silent.exists_restored
  refine
    ⟨closed, growsClosed, same ▸ atStart, outcome_scope ready ran silent.grows ?_⟩
  rw [undone]
  exact cancels

/-- Trying a rule in a scope of its own, where it fails. -/
theorem Fails.brings_tried
    [StandsFor α]
    (fails : Fails rule depth page)
    (starts : ∀ sheet, held sheet → sheet.page = page) :
    Brings (Rule.attempt (Rule.parse rule)) (depth + 1) held (some none) held := by
  obtain ⟨last, comes⟩ := fails
  exact (comes.brings_undone rfl starts).attempt

/-- Looking ahead leaves the sheet alone. -/
theorem ComesTo.brings_peek
    (comes : ComesTo rule depth page result last)
    (starts : ∀ sheet, held sheet → sheet.page = page) :
    Brings (Rule.peek rule) (depth + 1) held (some result.isSome) held := by
  have looked :
      ComesTo (do return (← Rule.attempt rule).isSome) depth page
        (some result.isSome) last :=
    comes.attempt.bind comesTo_pure
  exact looked.brings_undone rfl starts

/-- The first of some rules that matches. -/
theorem Brings.firstOf
    [StandsFor α]
    (earlier : List (GrammarRule α))
    {later : List (GrammarRule α)}
    (brings : Brings rule depth held (some value) holds)
    (starts : ∀ sheet, held sheet → sheet.page = page)
    (fail : ∀ other ∈ earlier, Fails other depth page) :
    Brings (Rule.oneOf.firstOf (earlier ++ rule :: later)) (depth + 1) held
      (some value) holds := by
  induction earlier with
  | nil =>
      exact brings.tried.bind brings_pure
  | cons other others inductionHypothesis =>
      apply ((fail other List.mem_cons_self).brings_tried starts).bind
      apply inductionHypothesis
      intro another member
      exact fail another (List.mem_cons_of_mem other member)

/-- Reading a construct runs its rule, one level down. -/
theorem Brings.read
    (construct : Construct α)
    (brings : Brings (Grammar.rule construct) depth held result holds) :
    Brings (.effect (.read construct)) (depth + 1) held result holds := by
  intro library maxDepth files levels machine ready starts
  obtain ⟨levels, rfl⟩ :=
    Nat.exists_eq_succ_of_ne_zero (Nat.ne_zero_of_lt ready.levels)
  have inside : machine.IsReady depth levels machine.page :=
    { at_ := ready.at_
      room := Nat.le_of_succ_le ready.room
      levels := Nat.le_of_succ_le_succ ready.levels
      rounds := ready.rounds }
  exact brings library maxDepth files levels machine inside starts

end Combinators

section Loops

/-- Rounds of a loop, with how many of them go on. -/
inductive Turns
    (round : σ → GrammarRule (σ ⊕ α))
    (depth : Nat) :
    Nat → σ → (Sheet → Prop) → α → (Sheet → Prop) → Prop where
  | last
      {state : σ}
      {held holds : Sheet → Prop}
      {value : α}
      (ends : Brings (round state) depth held (some (.inr value)) holds) :
      Turns round depth 0 state held value holds
  | again
      {count : Nat}
      {state next : σ}
      {held between holds : Sheet → Prop}
      {value : α}
      (goesOn : Brings (round state) depth held (some (.inl next)) between)
      (others : Turns round depth count next between value holds) :
      Turns round depth (count + 1) state held value holds

/-- A loop makes as many rounds as there are characters left, and one more. -/
theorem Turns.loop
    {round : σ → GrammarRule (σ ⊕ α)}
    {count : Nat}
    {state : σ}
    (turns : Turns round depth count state held value holds)
    (enough : ∀ sheet, held sheet → count ≤ sheet.page.text.length) :
    Brings (.loop state round) depth held (some value) holds := by
  intro library maxDepth files levels
  have iterates
      (rounds : Nat)
      (machine : Machine Workshop)
      (ready : machine.IsReady depth levels machine.page)
      (starts : held machine.sheet)
      (within : count < rounds) :
      ∃ after,
        Grows machine after ∧
          holds after.sheet ∧
          Action.iterate
              (fun state =>
                (round state).run
                  (Reading.performs library maxDepth files levels))
              rounds state machine =
            .matched value after := by
    clear enough
    induction turns generalizing rounds machine with
    | last ends =>
        obtain ⟨rounds, rfl⟩ :=
          Nat.exists_eq_succ_of_ne_zero (Nat.ne_zero_of_lt within)
        obtain ⟨after, grows, ends, ran⟩ :=
          ends library maxDepth files levels machine ready starts
        refine ⟨after, grows, ends, ?_⟩
        simp only [Site.outcome] at ran
        simp only [Action.iterate, ran, Outcome.ended]
    | again goesOn others inductionHypothesis =>
        obtain ⟨rounds, rfl⟩ :=
          Nat.exists_eq_succ_of_ne_zero (Nat.ne_zero_of_lt within)
        obtain ⟨middle, grows, meets, ran⟩ :=
          goesOn library maxDepth files levels machine ready starts
        obtain ⟨after, growsThen, ends, ranThen⟩ :=
          inductionHypothesis rounds middle (ready.onwards grows.toProceeds) meets
            (Nat.lt_of_succ_lt_succ within)
        refine ⟨after, grows.trans growsThen, ends, ?_⟩
        simp only [Site.outcome] at ran
        simp only [Action.iterate, ran, Outcome.ended]
        exact ranThen
  intro machine ready starts
  have within : count < machine.rounds :=
    Nat.lt_of_le_of_lt (enough _ starts) ready.rounds
  exact iterates machine.rounds machine ready starts within

end Loops

section Flags

variable
    {told : Session → Prop}
    {kinds : List StoryKind}
    {text : List Char}

/-- Every run of a rule ends with the flags with which it started. -/
def KeepsFlags (rule : GrammarRule α) : Prop :=
  ∀ library maxDepth files levels machine,
    (Site.outcome library maxDepth ⟨files, levels, rule, machine⟩).Ends
      (·.top.flags = machine.top.flags)

theorem KeepsFlags.bind
    {next : α → GrammarRule β}
    (first : KeepsFlags rule)
    (second : ∀ value, KeepsFlags (next value)) :
    KeepsFlags (rule >>= next) := by
  intro library maxDepth files levels machine
  refine
    Rule.ensures_bind.mpr
      ((first library maxDepth files levels machine).mono ?_ fun _ => id)
  intro value middle same
  exact
    (second value library maxDepth files levels middle).mono
      (fun _ _ sameThen => sameThen.trans same)
      fun _ sameThen => sameThen.trans same

theorem KeepsFlags.attempt
    (keeps : KeepsFlags rule) :
    KeepsFlags (Rule.attempt rule) :=
  fun library maxDepth files levels machine =>
    Rule.ensures_attempt.mpr (keeps library maxDepth files levels machine)

theorem keepsFlags_pure :
    KeepsFlags (pure value : GrammarRule α) :=
  fun _ _ _ _ _ => rfl

theorem keepsFlags_scan
    (scanner : Scanner α) :
    KeepsFlags (.scan scanner) := by
  intro library maxDepth files levels machine
  refine Rule.ensures_scan.mpr ?_
  split <;> rfl

theorem keepsFlags_make
    (kind : StoryKind) :
    KeepsFlags (make kind) :=
  fun _ _ _ _ _ => rfl

theorem keepsFlags_kindOf
    (id : NodeId) :
    KeepsFlags (kindOf id) := by
  intro library maxDepth files levels machine
  simp only [kindOf, Site.outcome, Rule.run, Reading.performs, Workshop.handle]
  split
  · rfl
  · trivial

theorem keepsFlags_amend
    (id : NodeId)
    (amendment : Amendment) :
    KeepsFlags (amend id amendment) := by
  intro library maxDepth files levels machine
  simp only [amend, Site.outcome, Rule.run, Reading.performs, Workshop.handle]
  exact Workshop.ensures_unlessMissing rfl

/-- Nothing is known of the flags behind a rule that is known on its page alone. -/
theorem ComesTo.brings_flagged
    (comes : ComesTo rule depth page result last) :
    Brings rule depth (Sheet.Untagged page told) result (Sheet.On last told) := by
  apply comes.brings
  · exact fun _ untagged => untagged.page_eq
  · exact fun _ _ untagged => ⟨rfl, untagged.told⟩

/-- What keeps the flags is followed on a sheet as it is on its page. -/
theorem ComesTo.brings_untagged
    (comes : ComesTo rule depth page result last)
    (keeps : KeepsFlags rule) :
    Brings rule depth (Sheet.Untagged page told) result (Sheet.Untagged last told) := by
  intro library maxDepth files levels machine ready starts
  have at_ : machine.page = page := starts.page_eq
  obtain ⟨after, silent, atEnd, ran⟩ :=
    comes library maxDepth files levels machine (at_ ▸ ready)
  have flags : after.top.flags = machine.top.flags := by
    have ends := keeps library maxDepth files levels machine
    rw [ran] at ends
    cases result with
    | none =>
        exact ends
    | some value =>
        exact ends
  have told : told after.host.session := by
    rw [silent.session]
    exact starts.told
  have closed : after.top.flags &&& Flag.tagOpen = 0 := by
    rw [flags]
    exact starts.closed
  exact ⟨after, silent.grows, ⟨⟨atEnd, told⟩, closed⟩, ran⟩

theorem brings_hasFlag :
    Brings (Rule.hasFlag Flag.tagOpen) depth (Sheet.Untagged page told) (some false)
      (Sheet.Untagged page told) := by
  intro library maxDepth files levels machine ready starts
  have closed : machine.top.flags &&& Flag.tagOpen = 0 := starts.closed
  have clear : machine.top.hasFlag Flag.tagOpen = false := by
    simp [Checkpoint.hasFlag, closed]
  exact ⟨machine, .refl machine, starts, congrArg (Outcome.matched · machine) clear⟩

/-- Where no tag is open there is none to close. -/
theorem brings_closeTag :
    Brings closeTag depth (Sheet.Untagged page told) (some [])
      (Sheet.Untagged page told) :=
  brings_hasFlag.bind brings_pure

/-- A warning changes the session alone. -/
theorem brings_warning
    (message : String)
    (tells :
      ∀ (session : Session) (line : Nat) (file : Option String),
        told session → told (session.deliver ⟨message, .warning, line, file⟩)) :
    Brings (Rule.warning message) depth (Sheet.Untagged page told) (some ())
      (Sheet.Untagged page told) := by
  intro library maxDepth files levels machine ready starts
  let after := machine.report .warning (machine.top.cursor.line + 1) message
  have draft : after.host.draft = machine.host.draft := by
    rw [Machine.host_report]
    split <;> rfl
  have flags : after.top.flags = machine.top.flags := by
    rw [Machine.top, Machine.stack_report]
    split <;> rfl
  have page_eq : after.page = machine.page := by
    rw [Machine.page, Machine.page, Machine.cursor_report, draft]
  have toldAfter : told after.host.session := by
    rw [Machine.host_report]
    split
    · exact starts.told
    · exact tells _ _ _ starts.told
  have closed : after.top.flags &&& Flag.tagOpen = 0 := by
    rw [flags]
    exact starts.closed
  exact
    ⟨after, .report Workshop.allocates_kinds machine _ _ _,
      ⟨⟨page_eq.trans starts.page_eq, toldAfter⟩, closed⟩, rfl⟩

/-- Whether a choice is being read may make no difference. -/
theorem Brings.isInChoice
    {next : Bool → GrammarRule α}
    (brings : ∀ inChoice, Brings (next inChoice) depth held result holds) :
    Brings (.effect .isInChoice >>= next) depth held result holds := by
  intro library maxDepth files levels machine ready starts
  exact brings machine.host.inChoice library maxDepth files levels machine ready starts

end Flags

end Grammar

end InkSyntax
