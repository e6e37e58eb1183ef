import InkSyntax.Proofs.Machine.Completion
import InkSyntax.Proofs.Reading.Site
import InkSyntax.Proofs.Story.Kinds

namespace InkSyntax

/-!
# Following a rule on a page

What most rules do depends on two things only: the text that is still to be read,
and what the nodes made so far are, which settles the number of the next one.  Both
together are a page.  A rule comes to a result on a page if every run that starts
there, wherever in a reading and with room for so many scopes, ends with this result
on one and the same page and reports nothing.

A statement of this kind is put together from those of the parts of a rule, as the
rule is.  A part that fails counts as well: the scope around it restores the page.
-/

/-- The text still to be read, and what the nodes made so far are. -/
structure Page where
  text : List Char
  kinds : List StoryKind

namespace Machine

def page (machine : Machine Workshop) : Page :=
  ⟨machine.cursor.rest, machine.host.draft.kinds⟩

/-- The second machine comes from the first without a report; nodes were only added. -/
structure Silent
    (before after : Machine Workshop) : Prop extends Proceeds before after where
  hadError : after.hadError = before.hadError
  host : after.host = { before.host with draft := after.host.draft }
  kinds : before.host.draft.kinds <+: after.host.draft.kinds

/-- A machine on a page, with room for so many scopes, constructs and rounds. -/
structure IsReady
    (machine : Machine Workshop)
    (depth levels : Nat)
    (page : Page) : Prop where
  at_ : machine.page = page
  room : machine.stack.height + depth ≤ machine.stack.maxDepth
  levels : depth ≤ levels
  rounds : page.text.length < machine.rounds

variable {before middle after machine : Machine Workshop}

namespace Silent

theorem refl
    (machine : Machine Workshop) :
    Silent machine machine where
  toProceeds := .refl machine
  hadError := rfl
  host := rfl
  kinds := List.prefix_rfl

theorem trans
    (first : Silent before middle)
    (second : Silent middle after) :
    Silent before after where
  toProceeds := first.toProceeds.trans second.toProceeds
  hadError := second.hadError.trans first.hadError
  host := by rw [second.host, first.host]
  kinds := first.kinds.trans second.kinds

/-- No diagnostic is delivered, to anybody. -/
theorem session
    (silent : Silent before after) :
    after.host.session = before.host.session := by
  rw [silent.host]

/-- The rest of the text does not get longer. -/
theorem length_le
    (silent : Silent before after) :
    after.page.text.length ≤ before.page.text.length :=
  silent.cursor.length_le

/-- A scope that is kept keeps the page on which its rule ended. -/
theorem exists_kept
    (silent : Silent machine.opened after)
    (nodes : List NodeId) :
    ∃ closed,
      after.commitScope machine.nextRule nodes = .ok closed ∧
        Silent machine closed ∧
        closed.page = after.page := by
  obtain ⟨closed, commits, keeps⟩ := silent.exists_keeps nodes
  have kinds : closed.host.draft.kinds = after.host.draft.kinds := by
    rw [keeps.host]
    exact Draft.kinds_setSpans _ _ _
  have hadError : closed.hadError = after.hadError := by
    obtain ⟨_, _, _, _, rfl⟩ := commitScope_eq_ok_iff.mp commits
    rfl
  refine ⟨closed, commits, ?_, ?_⟩
  · exact
      { toProceeds := keeps.toProceeds
        hadError := hadError.trans silent.hadError
        host := by rw [keeps.host, silent.host]; rfl
        kinds := kinds ▸ silent.kinds }
  · rw [page, page, keeps.closed_cursor, kinds]

/-- A scope that is undone restores the page on which it was opened. -/
theorem exists_undone
    (silent : Silent machine.opened after) :
    ∃ closed,
      after.cancelScope machine.nextRule = .ok closed ∧
        Silent machine closed ∧
        closed.page = machine.page := by
  obtain ⟨closed, cancels, undoes⟩ := silent.exists_undoes
  have kinds : closed.host.draft.kinds = machine.host.draft.kinds := by
    have oldest :
        closed.host.draft.kinds =
          after.host.draft.kinds.take machine.host.draft.size := by
      rw [undoes.host]
      exact Draft.kinds_keepOldest _ _
    obtain ⟨younger, grown⟩ := silent.kinds
    rw [oldest, ← grown, ← Draft.length_kinds]
    exact List.take_left
  have hadError : closed.hadError = after.hadError := by
    obtain ⟨_, _, _, _, rfl⟩ := cancelScope_eq_ok_iff.mp cancels
    rfl
  refine ⟨closed, cancels, ?_, ?_⟩
  · exact
      { toProceeds := undoes.toProceeds
        hadError := hadError.trans silent.hadError
        host := by rw [undoes.host, silent.host]; rfl
        kinds := kinds ▸ List.prefix_rfl }
  · rw [page, page, undoes.closed_cursor, kinds]

end Silent

namespace IsReady

variable
    {depth levels : Nat}
    {page next : Page}

theorem mono
    {less : Nat}
    (ready : machine.IsReady depth levels page)
    (less_le : less ≤ depth) :
    machine.IsReady less levels page where
  at_ := ready.at_
  room := by have := ready.room; omega
  levels := Nat.le_trans less_le ready.levels
  rounds := ready.rounds

theorem behind
    {last : Machine Workshop}
    (ready : machine.IsReady depth levels page)
    (silent : Silent machine last)
    (at_ : last.page = next) :
    last.IsReady depth levels next where
  at_ := at_
  room := by
    rw [silent.height, silent.maxDepth]
    exact ready.room
  levels := ready.levels
  rounds := by
    have shorter := silent.length_le
    rw [at_, ready.at_] at shorter
    rw [silent.toProceeds.rounds]
    exact Nat.lt_of_le_of_lt shorter ready.rounds

theorem opened
    (ready : machine.IsReady (depth + 1) levels page) :
    machine.opened.IsReady depth levels page where
  at_ := ready.at_
  room := by
    have room := ready.room
    rw [Machine.height_opened]
    change _ ≤ machine.stack.maxDepth
    omega
  levels := Nat.le_of_succ_le ready.levels
  rounds := ready.rounds

/-- A reading begins with room for as many scopes as the stack holds. -/
theorem start
    (text : List Char)
    (host : Workshop)
    {maxDepth : Nat}
    (room : depth < maxDepth)
    (deep : depth ≤ levels) :
    (Machine.start text maxDepth host).IsReady depth levels
      (Machine.start text maxDepth host).page where
  at_ := rfl
  room := by
    simp only [Machine.start, RuleStack.start, RuleStack.height,
      List.length_nil]
    omega
  levels := deep
  rounds := by
    simp only [Machine.start, Machine.roundLimit, Machine.page,
      Machine.cursor, RuleStack.start, Cursor.atStart]
    omega

theorem opens
    (ready : machine.IsReady (depth + 1) levels page) :
    machine.openScope = .ok (machine.nextRule, machine.opened) := by
  have room := ready.room
  exact openScope_eq_ok_iff.mpr ⟨by omega, rfl, rfl⟩

end IsReady

end Machine

/-- A run that matches with a value, or fails if there is none. -/
def Outcome.ended
    {H α : Type}
    (result : Option α)
    (after : Machine H) :
    Outcome H α :=
  match result with
  | some value => .matched value after
  | none => .failed after

namespace Grammar

open Machine (Silent IsReady)
open Reading (Site)

variable
    {α β σ : Type}
    {rule : GrammarRule α}
    {depth : Nat}
    {page middle last : Page}
    {value : α}
    {result : Option α}

/-- Every run of a rule from a page ends silently with the same result on the same page. -/
def ComesTo
    (rule : GrammarRule α)
    (depth : Nat)
    (page : Page)
    (result : Option α)
    (last : Page) : Prop :=
  ∀ library maxDepth files levels machine,
    machine.IsReady depth levels page →
      ∃ after,
        Silent machine after ∧
          after.page = last ∧
          Site.outcome library maxDepth ⟨files, levels, rule, machine⟩ =
            .ended result after

/-- Every run of a rule from a page fails silently. -/
def Fails
    (rule : GrammarRule α)
    (depth : Nat)
    (page : Page) : Prop :=
  ∃ last, ComesTo rule depth page none last

theorem ComesTo.fails
    (comes : ComesTo rule depth page none last) :
    Fails rule depth page :=
  ⟨last, comes⟩

theorem ComesTo.mono
    {deeper : Nat}
    (comes : ComesTo rule depth page result last)
    (depth_le : depth ≤ deeper) :
    ComesTo rule deeper page result last := by
  intro library maxDepth files levels machine ready
  exact comes library maxDepth files levels machine (ready.mono depth_le)

theorem Fails.mono
    {deeper : Nat}
    (fails : Fails rule depth page)
    (depth_le : depth ≤ deeper) :
    Fails rule deeper page := by
  obtain ⟨last, comes⟩ := fails
  exact ⟨last, comes.mono depth_le⟩

section Combinators

theorem comesTo_pure :
    ComesTo (pure value) depth page (some value) page := by
  intro library maxDepth files levels machine ready
  exact ⟨machine, .refl machine, ready.at_, rfl⟩

theorem comesTo_fail :
    ComesTo (Rule.fail : GrammarRule α) depth page none page := by
  intro library maxDepth files levels machine ready
  exact ⟨machine, .refl machine, ready.at_, rfl⟩

theorem fails_fail :
    Fails (Rule.fail : GrammarRule α) depth page :=
  ⟨page, comesTo_fail⟩

/-- Behind a match the next rule goes on. -/
theorem ComesTo.bind
    {next : α → GrammarRule β}
    {result : Option β}
    (first : ComesTo rule depth page (some value) middle)
    (second : ComesTo (next value) depth middle result last) :
    ComesTo (rule >>= next) depth page result last := by
  intro library maxDepth files levels machine ready
  obtain ⟨between, silent, at_, ran⟩ :=
    first library maxDepth files levels machine ready
  obtain ⟨after, silentThen, atThen, ranThen⟩ :=
    second library maxDepth files levels between (ready.behind silent at_)
  refine ⟨after, silent.trans silentThen, atThen, ?_⟩
  change Outcome.andThen (Site.outcome library maxDepth
    ⟨files, levels, rule, machine⟩) _ = _
  rw [ran]
  exact ranThen

theorem ComesTo.bind_fails
    {next : α → GrammarRule β}
    (first : ComesTo rule depth page (some value) middle)
    (second : Fails (next value) depth middle) :
    Fails (rule >>= next) depth page := by
  obtain ⟨last, comes⟩ := second
  exact ⟨last, first.bind comes⟩

/-- Behind a failure nothing goes on. -/
theorem ComesTo.bind_none
    {next : α → GrammarRule β}
    (first : ComesTo rule depth page none last) :
    ComesTo (rule >>= next) depth page none last := by
  intro library maxDepth files levels machine ready
  obtain ⟨after, silent, at_, ran⟩ :=
    first library maxDepth files levels machine ready
  refine ⟨after, silent, at_, ?_⟩
  change Outcome.andThen (Site.outcome library maxDepth
    ⟨files, levels, rule, machine⟩) _ = _
  rw [ran]
  rfl

theorem Fails.bind
    {next : α → GrammarRule β}
    (first : Fails rule depth page) :
    Fails (rule >>= next) depth page := by
  obtain ⟨last, comes⟩ := first
  exact ⟨last, comes.bind_none⟩

theorem ComesTo.attempt
    (comes : ComesTo rule depth page result last) :
    ComesTo (Rule.attempt rule) depth page (some result) last := by
  intro library maxDepth files levels machine ready
  obtain ⟨after, silent, at_, ran⟩ :=
    comes library maxDepth files levels machine ready
  refine ⟨after, silent, at_, ?_⟩
  simp only [Site.outcome, Rule.run] at ran ⊢
  rw [ran]
  cases result with
  | none =>
      rfl
  | some value =>
      rfl

/-- A scope that is kept ends where its rule does. -/
theorem ComesTo.scope_keep
    {fate : α → Fate}
    {nodes : List NodeId}
    (comes : ComesTo rule depth page (some value) last)
    (kept : fate value = .keep nodes) :
    ComesTo (Rule.scope fate rule) (depth + 1) page (some value) last := by
  intro library maxDepth files levels machine ready
  obtain ⟨after, silent, at_, ran⟩ :=
    comes library maxDepth files levels machine.opened ready.opened
  obtain ⟨closed, commits, silentClosed, atClosed⟩ := silent.exists_kept nodes
  refine ⟨closed, silentClosed, atClosed.trans at_, ?_⟩
  simp only [Site.outcome, Rule.run, Action.inScope, ready.opens] at ran ⊢
  simp only [ran, Outcome.ended, Action.balanced, silent.height, ↓reduceIte,
    kept, commits, Outcome.ofExcept]

/-- A scope that is undone ends where it began. -/
theorem ComesTo.scope_undo
    (last : Page)
    {fate : α → Fate}
    (comes : ComesTo rule depth page (some value) last)
    (undone : fate value = .undo) :
    ComesTo (Rule.scope fate rule) (depth + 1) page (some value) page := by
  intro library maxDepth files levels machine ready
  obtain ⟨after, silent, at_, ran⟩ :=
    comes library maxDepth files levels machine.opened ready.opened
  obtain ⟨closed, cancels, silentClosed, atClosed⟩ := silent.exists_undone
  refine ⟨closed, silentClosed, atClosed.trans ready.at_, ?_⟩
  simp only [Site.outcome, Rule.run, Action.inScope, ready.opens] at ran ⊢
  simp only [ran, Outcome.ended, Action.balanced, silent.height, ↓reduceIte,
    undone, cancels, Outcome.ofExcept]

/-- A scope whose rule fails ends where it began. -/
theorem Fails.scope
    {fate : α → Fate}
    (fails : Fails rule depth page) :
    ComesTo (Rule.scope fate rule) (depth + 1) page none page := by
  intro library maxDepth files levels machine ready
  obtain ⟨last, comes⟩ := fails
  obtain ⟨after, silent, at_, ran⟩ :=
    comes library maxDepth files levels machine.opened ready.opened
  obtain ⟨closed, cancels, silentClosed, atClosed⟩ := silent.exists_undone
  refine ⟨closed, silentClosed, atClosed.trans ready.at_, ?_⟩
  simp only [Site.outcome, Rule.run, Action.inScope, ready.opens] at ran ⊢
  simp only [ran, Outcome.ended, Action.balanced, silent.height, ↓reduceIte,
    cancels, Outcome.ofExcept]

theorem ComesTo.parse
    [StandsFor α]
    (comes : ComesTo rule depth page (some value) last) :
    ComesTo (Rule.parse rule) (depth + 1) page (some value) last :=
  comes.scope_keep rfl

theorem Fails.parse
    [StandsFor α]
    (fails : Fails rule depth page) :
    ComesTo (Rule.parse rule) (depth + 1) page none page :=
  fails.scope

theorem Fails.parse_fails
    [StandsFor α]
    (fails : Fails rule depth page) :
    Fails (Rule.parse rule) (depth + 1) page :=
  ⟨page, fails.parse⟩

/-- Trying a rule in a scope of its own, where it matches. -/
theorem ComesTo.tried
    [StandsFor α]
    (comes : ComesTo rule depth page (some value) last) :
    ComesTo (Rule.attempt (Rule.parse rule)) (depth + 1) page
      (some (some value)) last :=
  comes.parse.attempt

/-- Trying a rule in a scope of its own, where it fails. -/
theorem Fails.tried
    [StandsFor α]
    (fails : Fails rule depth page) :
    ComesTo (Rule.attempt (Rule.parse rule)) (depth + 1) page
      (some none) page :=
  fails.parse.attempt

theorem ComesTo.peek
    (comes : ComesTo rule depth page result last) :
    ComesTo (Rule.peek rule) (depth + 1) page (some result.isSome) page := by
  have looked :
      ComesTo (do return (← Rule.attempt rule).isSome) depth page
        (some result.isSome) last :=
    comes.attempt.bind comesTo_pure
  exact looked.scope_undo _ rfl

/-- A rule that is expected and matches. -/
theorem ComesTo.expect
    [StandsFor α]
    {description : String}
    (comes : ComesTo rule depth page (some value) last) :
    ComesTo (Rule.expect rule description) (depth + 1) page
      (some value) last :=
  comes.tried.bind comesTo_pure

theorem comesTo_require :
    ComesTo (Rule.require true : GrammarRule Unit) depth page (some ()) page :=
  comesTo_pure

theorem fails_require :
    Fails (Rule.require false : GrammarRule Unit) depth page :=
  fails_fail

/-- The first of some rules that matches. -/
theorem ComesTo.firstOf
    [StandsFor α]
    (earlier : List (GrammarRule α))
    {later : List (GrammarRule α)}
    (comes : ComesTo rule depth page (some value) last)
    (fail : ∀ other ∈ earlier, Fails other depth page) :
    ComesTo (Rule.oneOf.firstOf (earlier ++ rule :: later)) (depth + 1) page
      (some value) last := by
  induction earlier with
  | nil =>
      exact comes.tried.bind comesTo_pure
  | cons other others inductionHypothesis =>
      apply (fail other List.mem_cons_self).tried.bind
      apply inductionHypothesis
      intro another member
      exact fail another (List.mem_cons_of_mem other member)

/-- None of some rules matches. -/
theorem comesTo_firstOf_none
    [StandsFor α]
    {rules : List (GrammarRule α)}
    (fail : ∀ rule ∈ rules, Fails rule depth page) :
    ComesTo (Rule.oneOf.firstOf rules) (depth + 1) page none page := by
  induction rules with
  | nil =>
      exact comesTo_fail
  | cons rule others inductionHypothesis =>
      apply (fail rule List.mem_cons_self).tried.bind
      apply inductionHypothesis
      intro other isOther
      exact fail other (List.mem_cons_of_mem rule isOther)

end Combinators

section Loops

/-- Rounds of a loop, each but the last one shortening the text. -/
inductive Rounds
    (round : σ → GrammarRule (σ ⊕ α))
    (depth : Nat) :
    σ → Page → Option α → Page → Prop where
  | last
      {state : σ}
      {page last : Page}
      {value : α}
      (ends : ComesTo (round state) depth page (some (.inr value)) last) :
      Rounds round depth state page (some value) last
  | fails
      {state : σ}
      {page last : Page}
      (ends : ComesTo (round state) depth page none last) :
      Rounds round depth state page none last
  | again
      {state next : σ}
      {page middle last : Page}
      {result : Option α}
      (goesOn : ComesTo (round state) depth page (some (.inl next)) middle)
      (shorter : middle.text.length < page.text.length)
      (others : Rounds round depth next middle result last) :
      Rounds round depth state page result last

theorem Rounds.loop
    {round : σ → GrammarRule (σ ⊕ α)}
    {state : σ}
    (rounds : Rounds round depth state page result last) :
    ComesTo (.loop state round) depth page result last := by
  intro library maxDepth files levels
  -- The text gets shorter with every round, so there are rounds enough.
  have iterates
      (count : Nat)
      (machine : Machine Workshop)
      (ready : machine.IsReady depth levels page)
      (enough : page.text.length < count) :
      ∃ after,
        Silent machine after ∧
          after.page = last ∧
          Action.iterate
              (fun state =>
                (round state).run
                  (Reading.performs library maxDepth files levels))
              count state machine =
            .ended result after := by
    induction rounds generalizing count machine with
    | last ends =>
        obtain ⟨count, rfl⟩ :=
          Nat.exists_eq_succ_of_ne_zero (Nat.ne_zero_of_lt enough)
        obtain ⟨after, silent, at_, ran⟩ :=
          ends library maxDepth files levels machine ready
        refine ⟨after, silent, at_, ?_⟩
        simp only [Site.outcome] at ran
        simp only [Action.iterate, ran, Outcome.ended]
    | fails ends =>
        obtain ⟨count, rfl⟩ :=
          Nat.exists_eq_succ_of_ne_zero (Nat.ne_zero_of_lt enough)
        obtain ⟨after, silent, at_, ran⟩ :=
          ends library maxDepth files levels machine ready
        refine ⟨after, silent, at_, ?_⟩
        simp only [Site.outcome] at ran
        simp only [Action.iterate, ran, Outcome.ended]
    | again goesOn shorter others inductionHypothesis =>
        obtain ⟨count, rfl⟩ :=
          Nat.exists_eq_succ_of_ne_zero (Nat.ne_zero_of_lt enough)
        obtain ⟨between, silent, at_, ran⟩ :=
          goesOn library maxDepth files levels machine ready
        obtain ⟨after, silentThen, atThen, ranThen⟩ :=
          inductionHypothesis count between (ready.behind silent at_)
            (by omega)
        refine ⟨after, silent.trans silentThen, atThen, ?_⟩
        simp only [Site.outcome] at ran
        simp only [Action.iterate, ran, Outcome.ended]
        exact ranThen
  intro machine ready
  exact iterates machine.rounds machine ready ready.rounds

end Loops

section Texts

variable
    {kinds : List StoryKind}
    {text rest : List Char}

theorem comesTo_scan
    (depth : Nat)
    (kinds : List StoryKind)
    {scanner : Scanner α}
    {length : Nat}
    (found : scanner text = some (value, length)) :
    ComesTo (.scan scanner) depth ⟨text, kinds⟩ (some value)
      ⟨text.drop length, kinds⟩ := by
  intro library maxDepth files levels machine ready
  obtain ⟨rfl, rfl⟩ := Page.mk.inj ready.at_
  refine
    ⟨machine.moveTo (machine.cursor.advance length), ?_, ?_, ?_⟩
  · exact ⟨.advance machine length, rfl, rfl, List.prefix_rfl⟩
  · exact
      congrArg (Page.mk · machine.host.draft.kinds)
        (Cursor.rest_advance machine.cursor length)
  · simp only [Site.outcome, Rule.run, Cursor.scan, found, Option.map_some,
      Outcome.ended]

theorem comesTo_scan_none
    {scanner : Scanner α}
    (missing : scanner text = none) :
    ComesTo (.scan scanner) depth ⟨text, kinds⟩ none ⟨text, kinds⟩ := by
  intro library maxDepth files levels machine ready
  obtain ⟨rfl, rfl⟩ := Page.mk.inj ready.at_
  refine ⟨machine, .refl machine, rfl, ?_⟩
  simp only [Site.outcome, Rule.run, Cursor.scan, missing, Option.map_none,
    Outcome.ended]

theorem comesTo_literal
    {expected : String}
    (stands : text = expected.toList ++ rest) :
    ComesTo (Rule.literal expected) depth ⟨text, kinds⟩ (some ())
      ⟨rest, kinds⟩ := by
  subst stands
  have found :
      Scanner.exactly expected.toList (expected.toList ++ rest) =
        some ((), expected.toList.length) := by
    simp [Scanner.exactly]
  have comes := comesTo_scan depth kinds found
  rwa [List.drop_left] at comes

theorem comesTo_literal_none
    (depth : Nat)
    (kinds : List StoryKind)
    {expected : String}
    (differs : ¬ expected.toList <+: text) :
    ComesTo (Rule.literal expected) depth ⟨text, kinds⟩ none
      ⟨text, kinds⟩ := by
  apply comesTo_scan_none
  simp [Scanner.exactly, differs]

theorem fails_literal
    {expected : String}
    (differs : ¬ expected.toList <+: text) :
    Fails (Rule.literal expected) depth ⟨text, kinds⟩ :=
  ⟨_, comesTo_literal_none _ _ differs⟩

/-- A run of accepted characters is taken as a whole. -/
theorem comesTo_chars
    (depth : Nat)
    (kinds : List StoryKind)
    {accept : Char → Bool}
    (nonempty : text.takeWhile accept ≠ []) :
    ComesTo (Rule.chars accept) depth ⟨text, kinds⟩
      (some (String.ofList (text.takeWhile accept)))
      ⟨text.dropWhile accept, kinds⟩ := by
  have found :
      Scanner.chars accept text =
        some
          (String.ofList (text.takeWhile accept),
            (text.takeWhile accept).length) := by
    unfold Scanner.chars
    split
    · next empty =>
        exact absurd empty nonempty
    · rfl
  have comes := comesTo_scan depth kinds found
  rwa [drop_length_takeWhile] at comes

theorem comesTo_chars_none
    {accept : Char → Bool}
    (empty : text.takeWhile accept = []) :
    ComesTo (Rule.chars accept) depth ⟨text, kinds⟩ none ⟨text, kinds⟩ := by
  apply comesTo_scan_none
  simp only [Scanner.chars, empty]

theorem comesTo_atEnd :
    ComesTo (Rule.atEnd : GrammarRule Bool) depth ⟨text, kinds⟩
      (some text.isEmpty) ⟨text, kinds⟩ := by
  intro library maxDepth files levels machine ready
  obtain ⟨rfl, rfl⟩ := Page.mk.inj ready.at_
  exact ⟨machine, .refl machine, rfl, rfl⟩

end Texts

section Nodes

variable
    {kinds : List StoryKind}
    {text : List Char}

/-- A new node gets the next number. -/
theorem comesTo_make
    {kind : StoryKind} :
    ComesTo (make kind) depth ⟨text, kinds⟩ (some ⟨kinds.length⟩)
      ⟨text, kinds ++ [kind]⟩ := by
  intro library maxDepth files levels machine ready
  obtain ⟨rfl, rfl⟩ := Page.mk.inj ready.at_
  refine
    ⟨{ machine with
        host :=
          { machine.host with draft := (machine.host.draft.add kind).2 } },
      ?_, ?_, ?_⟩
  · refine ⟨.work machine _, rfl, rfl, ?_⟩
    rw [Draft.kinds_add]
    exact List.prefix_append _ _
  · exact congrArg (Page.mk _) (Draft.kinds_add _ _ _)
  · rw [Draft.length_kinds]
    rfl

theorem comesTo_makeSpanning
    {kind : StoryKind} :
    ComesTo (.effect (.makeSpanning kind)) depth ⟨text, kinds⟩
      (some ⟨kinds.length⟩) ⟨text, kinds ++ [kind]⟩ := by
  intro library maxDepth files levels machine ready
  obtain ⟨rfl, rfl⟩ := Page.mk.inj ready.at_
  refine
    ⟨{ machine with
        host :=
          { machine.host with
            draft := (machine.host.draft.addSpanning kind).2 } },
      ?_, ?_, ?_⟩
  · refine ⟨.work machine _, rfl, rfl, ?_⟩
    rw [Draft.addSpanning, Draft.kinds_add]
    exact List.prefix_append _ _
  · exact congrArg (Page.mk _) (Draft.kinds_add _ _ _)
  · rw [Draft.length_kinds]
    rfl

theorem comesTo_kindOf
    {id : NodeId}
    {kind : StoryKind}
    (known : kinds[id.index]? = some kind) :
    ComesTo (kindOf id) depth ⟨text, kinds⟩ (some kind) ⟨text, kinds⟩ := by
  intro library maxDepth files levels machine ready
  obtain ⟨rfl, rfl⟩ := Page.mk.inj ready.at_
  rw [← Draft.kind?_eq_getElem?] at known
  refine ⟨machine, .refl machine, rfl, ?_⟩
  simp only [kindOf, Site.outcome, Rule.run, Reading.performs,
    Workshop.handle, known, Outcome.ended]

theorem comesTo_identifierName
    {id : NodeId}
    (name : String)
    (known : kinds[id.index]? = some (.identifier name)) :
    ComesTo (identifierName id) depth ⟨text, kinds⟩ (some name)
      ⟨text, kinds⟩ :=
  (comesTo_kindOf known).bind comesTo_pure

/-- Reading a construct runs its rule, one level down. -/
theorem ComesTo.read
    (construct : Construct α)
    (comes : ComesTo (Grammar.rule construct) depth page result last) :
    ComesTo (.effect (.read construct)) (depth + 1) page result last := by
  intro library maxDepth files levels machine ready
  obtain ⟨levels, rfl⟩ :=
    Nat.exists_eq_succ_of_ne_zero (Nat.ne_zero_of_lt ready.levels)
  have inside : machine.IsReady depth levels page :=
    { at_ := ready.at_
      room := Nat.le_of_succ_le ready.room
      levels := Nat.le_of_succ_le_succ ready.levels
      rounds := ready.rounds }
  exact comes library maxDepth files levels machine inside

end Nodes

end Grammar

end InkSyntax
