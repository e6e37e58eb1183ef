import InkSyntax.Proofs.Grammar.ConsumingRules
import InkSyntax.Proofs.Grammar.ExpressionTrees
import InkSyntax.Proofs.Reading.TagEnds

namespace InkSyntax

/-!
# Runs that lose no tag

A tag is lost at two places of the grammar.  Where there is no content to mark it in,
the end of a tag goes unmarked; and what is read of a divert comes behind the marker
that ends the tag in front of it, even if a tag began or ended in it.  A run is clean
if it comes by no such place and makes no report.  Whatever is shown of the parts of
clean runs may count on both.
-/

namespace Reading

variable
    (library : Library)
    (maxDepth : Nat)

/-- A tag is open here, and its markers will not be found where they belong. -/
inductive Site.LosesTag : Site → Prop where
  /-- There is no content in which the end of the tag could be marked. -/
  | unmarked
      {files levels : Nat}
      {machine : Machine Workshop}
      (isOpen : machine.isTagOpen = true) :
      LosesTag ⟨files, levels, Grammar.closeTagIn none, machine⟩
  /-- A tag begins or ends in a divert, in front of which the open one will be ended. -/
  | displaced
      {files levels : Nat}
      {machine after : Machine Workshop}
      {divert id : NodeId}
      {isStart : Bool}
      (isOpen : machine.isTagOpen = true)
      (matched :
        Site.outcome library maxDepth
            ⟨files, levels, Grammar.target, machine⟩ =
          .matched divert after)
      (reaches : after.host.draft.Reaches divert id)
      (isTag : after.host.draft.kind? id = some (.tag isStart)) :
      LosesTag ⟨files, levels, Grammar.target, machine⟩

/-- From here on no report is made and no tag is lost. -/
structure Site.Clean (site : Site) : Prop where
  silent :
    ∀ {files levels severity line message machine},
      ¬ Site.Reaches library maxDepth site
        ⟨files, levels, .report severity line message, machine⟩
  marked :
    ∀ inner,
      Site.Reaches library maxDepth site inner →
      ¬ inner.LosesTag library maxDepth

variable
    {library : Library}
    {maxDepth : Nat}

theorem Site.Clean.enters
    {site inner : Site}
    (clean : site.Clean library maxDepth)
    (enters : Site.Enters library maxDepth site inner) :
    inner.Clean library maxDepth where
  silent reaches := clean.silent (.head enters reaches)
  marked further reaches := clean.marked further (.head enters reaches)

end Reading

namespace Machine

/-- Flags and nodes are as they were. -/
structure Rests (before after : Machine Workshop) : Prop where
  flags : after.top.flags = before.top.flags
  kinds : after.host.draft.kinds = before.host.draft.kinds

namespace Rests

variable {before middle after : Machine Workshop}

theorem refl
    (machine : Machine Workshop) :
    Rests machine machine :=
  ⟨rfl, rfl⟩

theorem trans
    (first : Rests before middle)
    (second : Rests middle after) :
    Rests before after :=
  ⟨second.flags.trans first.flags, second.kinds.trans first.kinds⟩

theorem report
    (machine : Machine Workshop)
    (severity : Severity)
    (line : Nat)
    (message : String) :
    Rests machine (machine.report severity line message) := by
  constructor
  · rw [top, stack_report]
    split <;> rfl
  · rw [host_report]
    split <;> rfl

end Rests

variable {machine after closed : Machine Workshop}

/-- A scope that is kept hands on its flags and its nodes. -/
theorem rests_of_keep
    {nodes : List NodeId}
    (closes : Rule.Closes (.keep nodes) machine.nextRule after closed) :
    Rests after closed := by
  obtain ⟨parent, deeper, -, -, rfl⟩ := commitScope_eq_ok_iff.mp closes
  exact ⟨rfl, Draft.kinds_setSpans _ _ _⟩

/-- A scope that is undone leaves the flags and the older nodes as they were. -/
theorem flags_and_kinds_of_undo
    (proceeds : machine.opened.Proceeds after)
    (closes : Rule.Closes .undo machine.nextRule after closed) :
    closed.top.flags = machine.top.flags ∧
      closed.host.draft.kinds =
        after.host.draft.kinds.take machine.host.draft.size := by
  obtain ⟨undone, cancels, undoes⟩ := proceeds.exists_undoes
  obtain rfl : undone = closed := Except.ok.inj (cancels.symm.trans closes)
  refine ⟨undoes.flags, ?_⟩
  rw [undoes.host]
  exact Draft.kinds_keepOldest _ _

end Machine

open Reading (Site)

variable
    {library : Library}
    {maxDepth files levels : Nat}
    {machine : Machine Workshop}
    {α β σ : Type}

/-- A rule that only asks leaves flags and nodes as they are. -/
theorem Rule.Asks.ends
    {rule : GrammarRule α}
    {known : List NodeId}
    (asks : rule.Asks known)
    (machine : Machine Workshop) :
    (Site.outcome library maxDepth ⟨files, levels, rule, machine⟩).Ends
      machine.Rests := by
  simp only [Site.outcome]
  induction rule generalizing machine with
  | pure value =>
      exact .refl machine
  | fail =>
      exact .refl machine
  | bind first next firstHypothesis nextHypothesis =>
      refine
        ensures_bind.mpr ((firstHypothesis asks.1 machine).mono ?_ fun _ => id)
      intro value middle toMiddle
      exact
        (nextHypothesis value (asks.2 value) middle).mono
          (fun _ _ => toMiddle.trans) fun _ => toMiddle.trans
  | attempt rule inductionHypothesis =>
      exact ensures_attempt.mpr (inductionHypothesis asks machine)
  | scope fate rule inductionHypothesis =>
      have proceeds :=
        Site.ends_proceeds library maxDepth
          ⟨files, levels, rule, machine.opened⟩
      have undone
          {after closed : Machine Workshop}
          (rests : machine.opened.Rests after)
          (proceeds : machine.opened.Proceeds after)
          (closes : Closes .undo machine.nextRule after closed) :
          machine.Rests closed := by
        obtain ⟨flags, kinds⟩ := Machine.flags_and_kinds_of_undo proceeds closes
        refine ⟨flags, ?_⟩
        rw [kinds, rests.kinds, ← Draft.length_kinds]
        exact List.take_length
      refine
        ensures_scope fun _ =>
          ((inductionHypothesis asks.1 machine.opened).and proceeds).mono ?_ ?_
      · rintro value after ⟨rests, proceeds⟩ closed closes
        cases fated : fate value with
        | keep nodes =>
            rw [fated] at closes
            have kept := Machine.rests_of_keep closes
            exact
              ⟨kept.flags.trans rests.flags, kept.kinds.trans rests.kinds⟩
        | undo =>
            rw [fated] at closes
            exact undone rests proceeds closes
      · rintro after ⟨rests, proceeds⟩ closed cancels
        exact undone rests proceeds cancels
  | loop state round inductionHypothesis =>
      refine ensures_loop (fun _ => machine.Rests) (.refl machine) ?_
      intro state middle toMiddle
      refine
        (inductionHypothesis state (asks state) middle).mono ?_
          fun _ => toMiddle.trans
      rintro (next | value) after further
      · exact toMiddle.trans further
      · exact toMiddle.trans further
  | scan scanner =>
      refine ensures_scan.mpr ?_
      split <;> exact ⟨rfl, rfl⟩
  | here =>
      exact .refl machine
  | setFlag mask on =>
      exact asks.elim
  | report severity line message =>
      exact .report machine severity line message
  | effect operation =>
      cases operation with
      | kindOf id =>
          simp only [run, Reading.performs, Workshop.handle]
          split
          · exact .refl machine
          · trivial
      | survey id =>
          simp only [run, Reading.performs, Workshop.handle]
          exact Workshop.ensures_unlessMissing (Machine.Rests.refl machine)
      | spanOf id =>
          exact .refl machine
      | isInChoice =>
          exact .refl machine
      | _ =>
          exact asks.elim

namespace Grammar

/-- What holds after a rule has run somewhere, if the run was clean. -/
def EnsuresCleanly
    (library : Library)
    (maxDepth files levels : Nat)
    (rule : GrammarRule α)
    (machine : Machine Workshop)
    (onMatch : α → Machine Workshop → Prop)
    (onFailure : Machine Workshop → Prop) : Prop :=
  Site.Clean library maxDepth ⟨files, levels, rule, machine⟩ →
  Ensures library maxDepth files levels rule machine onMatch onFailure

namespace EnsuresCleanly

variable
    {rule : GrammarRule α}
    {onMatch onMatch' : α → Machine Workshop → Prop}
    {onFailure onFailure' : Machine Workshop → Prop}

theorem of_ensures
    (ensures :
      Ensures library maxDepth files levels rule machine onMatch onFailure) :
    EnsuresCleanly library maxDepth files levels rule machine
      onMatch onFailure :=
  fun _ => ensures

theorem mono
    (ensures :
      EnsuresCleanly library maxDepth files levels rule machine
        onMatch onFailure)
    (match_ : ∀ value after, onMatch value after → onMatch' value after)
    (failure : ∀ after, onFailure after → onFailure' after) :
    EnsuresCleanly library maxDepth files levels rule machine
      onMatch' onFailure' :=
  fun clean => (ensures clean).mono match_ failure

theorem and
    (ensures :
      EnsuresCleanly library maxDepth files levels rule machine
        onMatch onFailure)
    (also :
      EnsuresCleanly library maxDepth files levels rule machine
        onMatch' onFailure') :
    EnsuresCleanly library maxDepth files levels rule machine
      (fun value after => onMatch value after ∧ onMatch' value after)
      fun after => onFailure after ∧ onFailure' after :=
  fun clean => Outcome.Ensures.and (ensures clean) (also clean)

theorem pure
    {value : α}
    (holds : onMatch value machine) :
    EnsuresCleanly library maxDepth files levels (Pure.pure value) machine
      onMatch onFailure :=
  fun _ => holds

/-- One clean run after another. -/
theorem bind
    {next : α → GrammarRule β}
    {onMatch : β → Machine Workshop → Prop}
    (first :
      EnsuresCleanly library maxDepth files levels rule machine
        (fun value middle =>
          EnsuresCleanly library maxDepth files levels (next value) middle
            onMatch onFailure)
        onFailure) :
    EnsuresCleanly library maxDepth files levels (rule >>= next) machine
      onMatch onFailure := by
  intro clean
  obtain ⟨matches_, fails⟩ :=
    Outcome.ensures_iff.mp (first (clean.enters .first))
  refine ensures_bind (Outcome.ensures_iff.mpr ⟨?_, fails⟩)
  intro value middle matched
  exact matches_ value middle matched (clean.enters (.next matched))

/-- What comes after a rule, wherever that ended. -/
theorem behind
    {next : α → GrammarRule β}
    {onMatch : β → Machine Workshop → Prop}
    (then_ :
      ∀ value middle,
        EnsuresCleanly library maxDepth files levels (next value) middle
          onMatch fun _ => True) :
    EnsuresCleanly library maxDepth files levels (rule >>= next) machine
      onMatch fun _ => True :=
  bind
    (of_ensures
      (Outcome.ensures_iff.mpr
        ⟨fun value middle _ => then_ value middle, fun _ _ => trivial⟩))

theorem attempt
    {onMatch : Option α → Machine Workshop → Prop}
    (attempted :
      EnsuresCleanly library maxDepth files levels rule machine
        (fun value => onMatch (some value)) (onMatch none)) :
    EnsuresCleanly library maxDepth files levels (.attempt rule) machine
      onMatch onFailure :=
  fun clean => ensures_attempt (attempted (clean.enters .attempted))

/-- A scope, which its rule does not leave. -/
theorem scope
    {fate : α → Fate}
    (inside :
      EnsuresCleanly library maxDepth files levels rule machine.opened
        (fun value after =>
          machine.opened.Proceeds after →
          ∀ closed,
            Rule.Closes (fate value) machine.nextRule after closed →
            onMatch value closed)
        (fun after =>
          machine.opened.Proceeds after →
          ∀ closed,
            Rule.Closes .undo machine.nextRule after closed →
            onFailure closed)) :
    EnsuresCleanly library maxDepth files levels (.scope fate rule) machine
      onMatch onFailure := by
  intro clean
  refine Rule.ensures_scope fun room => ?_
  have opens : machine.openScope = .ok (machine.nextRule, machine.opened) :=
    Machine.openScope_eq_ok_iff.mpr ⟨room, rfl, rfl⟩
  exact
    (Outcome.Ensures.and (inside (clean.enters (.inScope opens)))
        (Site.ends_proceeds library maxDepth _)).mono
      (fun _ _ held => held.1 held.2) fun _ held => held.1 held.2

theorem loop
    {state : σ}
    {round : σ → GrammarRule (σ ⊕ α)}
    (invariant : σ → Machine Workshop → Prop)
    (atStart : invariant state machine)
    (keeps :
      ∀ state machine,
        invariant state machine →
        EnsuresCleanly library maxDepth files levels (round state) machine
          (fun result after =>
            match result with
            | .inl next => invariant next after
            | .inr value => onMatch value after)
          onFailure) :
    EnsuresCleanly library maxDepth files levels (.loop state round) machine
      onMatch onFailure := by
  intro clean
  refine
    Rule.ensures_loop
      (fun state machine =>
        invariant state machine ∧
          Site.Clean library maxDepth
            ⟨files, levels, .loop state round, machine⟩)
      ⟨atStart, clean⟩ ?_
  rintro state machine ⟨holds, clean⟩
  obtain ⟨matches_, fails⟩ :=
    Outcome.ensures_iff.mp (keeps state machine holds (clean.enters .round))
  refine Outcome.ensures_iff.mpr ⟨?_, fails⟩
  rintro (next | value) after matched
  · exact ⟨matches_ _ _ matched, clean.enters (.again matched)⟩
  · exact matches_ _ _ matched

/-- No clean run makes a report. -/
theorem report
    {severity : Severity}
    {line : Nat}
    {message : String}
    {onMatch : Unit → Machine Workshop → Prop} :
    EnsuresCleanly library maxDepth files levels
      (.report severity line message) machine onMatch onFailure :=
  fun clean => (clean.silent .refl).elim

theorem error
    {message : String}
    {onMatch : Unit → Machine Workshop → Prop} :
    EnsuresCleanly library maxDepth files levels (Rule.error message) machine
      onMatch onFailure :=
  bind fun _ => report

/-- A rule that only asks, and what comes after it. -/
theorem ask
    {known : List NodeId}
    {next : α → GrammarRule β}
    {onMatch : β → Machine Workshop → Prop}
    (asks : rule.Asks known)
    (then_ :
      ∀ value middle,
        machine.Rests middle →
        EnsuresCleanly library maxDepth files levels (next value) middle
          onMatch onFailure)
    (fails : ∀ after, machine.Rests after → onFailure after) :
    EnsuresCleanly library maxDepth files levels (rule >>= next) machine
      onMatch onFailure :=
  bind (of_ensures (Outcome.Ensures.mono (asks.ends machine) then_ fails))

/-- What a node is, if there is such a node, is known from there on. -/
theorem kindOf
    {id : NodeId}
    {next : StoryKind → GrammarRule β}
    {onMatch : β → Machine Workshop → Prop}
    (then_ :
      ∀ kind,
        machine.host.draft.kind? id = some kind →
        EnsuresCleanly library maxDepth files levels (next kind) machine
          onMatch onFailure) :
    EnsuresCleanly library maxDepth files levels (Grammar.kindOf id >>= next)
      machine onMatch onFailure := by
  refine bind (of_ensures ?_)
  cases made : machine.host.draft.kind? id with
  | some kind =>
      exact ensures_kindOf made (then_ kind made)
  | none =>
      simp only [Ensures, Site.outcome, Grammar.kindOf, Rule.run,
        Reading.performs, Workshop.handle, made]
      trivial

/-- A construct is read by its rule, one level down. -/
theorem construct
    {construct : Construct α}
    (inside :
      ∀ {fewer},
        levels = fewer + 1 →
        EnsuresCleanly library maxDepth files fewer (Grammar.rule construct)
          machine
          onMatch onFailure) :
    EnsuresCleanly library maxDepth files levels
      (.effect (.read construct)) machine onMatch onFailure := by
  intro clean
  cases levels with
  | zero =>
      trivial
  | succ levels =>
      exact inside rfl (clean.enters .construct)

end EnsuresCleanly

/-- What holds after a rule has run somewhere, besides that older nodes stay, if the run
was clean. -/
def EnsuresKeeping
    (library : Library)
    (maxDepth files levels : Nat)
    (rule : GrammarRule α)
    (machine : Machine Workshop)
    (onMatch : α → Machine Workshop → Prop) : Prop :=
  EnsuresCleanly library maxDepth files levels rule machine
    (fun value after =>
      Draft.Keeps machine.host.draft after.host.draft ∧ onMatch value after)
    fun after => Draft.Keeps machine.host.draft after.host.draft

namespace EnsuresKeeping

variable
    {rule : GrammarRule α}
    {onMatch onMatch' : α → Machine Workshop → Prop}

theorem mono
    (ensures :
      EnsuresKeeping library maxDepth files levels rule machine onMatch)
    (match_ :
      ∀ value after,
        Draft.Keeps machine.host.draft after.host.draft →
        onMatch value after →
        onMatch' value after) :
    EnsuresKeeping library maxDepth files levels rule machine onMatch' :=
  EnsuresCleanly.mono ensures
    (fun _ _ held => ⟨held.1, match_ _ _ held.1 held.2⟩) fun _ keeps => keeps

theorem and
    (ensures :
      EnsuresKeeping library maxDepth files levels rule machine onMatch)
    (also :
      EnsuresKeeping library maxDepth files levels rule machine onMatch') :
    EnsuresKeeping library maxDepth files levels rule machine
      fun value after => onMatch value after ∧ onMatch' value after :=
  (EnsuresCleanly.and ensures also).mono
    (fun _ _ held => ⟨held.1.1, held.1.2, held.2.2⟩) fun _ held => held.1

/-- What follows from a match needs no more than the match itself. -/
theorem also
    (ensures :
      EnsuresKeeping library maxDepth files levels rule machine onMatch)
    (holds :
      Ensures library maxDepth files levels rule machine onMatch'
        fun _ => True) :
    EnsuresKeeping library maxDepth files levels rule machine
      fun value after => onMatch value after ∧ onMatch' value after :=
  (EnsuresCleanly.and ensures (.of_ensures holds)).mono
    (fun _ _ held => ⟨held.1.1, held.1.2, held.2⟩) fun _ held => held.1

theorem pure
    {value : α}
    (holds : onMatch value machine) :
    EnsuresKeeping library maxDepth files levels (Pure.pure value) machine
      onMatch :=
  EnsuresCleanly.pure ⟨.refl _, holds⟩

/-- One clean run after another. -/
theorem bind
    {next : α → GrammarRule β}
    {onMatch : β → Machine Workshop → Prop}
    (first :
      EnsuresKeeping library maxDepth files levels rule machine
        fun value middle =>
          EnsuresKeeping library maxDepth files levels (next value) middle
            onMatch) :
    EnsuresKeeping library maxDepth files levels (rule >>= next) machine
      onMatch := by
  refine EnsuresCleanly.bind (EnsuresCleanly.mono first ?_ fun _ keeps => keeps)
  rintro value middle ⟨keeps, then_⟩
  exact
    EnsuresCleanly.mono then_ (fun _ _ held => ⟨keeps.trans held.1, held.2⟩)
      fun _ => keeps.trans

/-- A rule that only asks, and what comes after it. -/
theorem ask
    {known : List NodeId}
    {next : α → GrammarRule β}
    {onMatch : β → Machine Workshop → Prop}
    (asks : rule.Asks known)
    (then_ :
      ∀ value middle,
        machine.Rests middle →
        EnsuresKeeping library maxDepth files levels (next value) middle
          onMatch) :
    EnsuresKeeping library maxDepth files levels (rule >>= next) machine
      onMatch := by
  refine EnsuresCleanly.ask asks (fun value middle rests => ?_) ?_
  · have keeps := Draft.Keeps.of_kinds rests.kinds
    exact
      EnsuresCleanly.mono (then_ value middle rests)
        (fun _ _ held => ⟨keeps.trans held.1, held.2⟩) fun _ => keeps.trans
  · exact fun after rests => .of_kinds rests.kinds

theorem attempt
    {onMatch : Option α → Machine Workshop → Prop}
    (matches_ :
      EnsuresKeeping library maxDepth files levels rule machine
        fun value => onMatch (some value))
    (fails :
      EnsuresCleanly library maxDepth files levels rule machine
        (fun _ _ => True) (onMatch none)) :
    EnsuresKeeping library maxDepth files levels (.attempt rule) machine
      onMatch :=
  EnsuresCleanly.attempt
    ((EnsuresCleanly.and matches_ fails).mono (fun _ _ held => held.1)
      fun _ held => held)

/-- A scope that is kept hands on its flags and its nodes. -/
theorem parse
    [StandsFor α]
    (inside :
      EnsuresKeeping library maxDepth files levels rule machine.opened
        fun value after =>
          ∀ closed : Machine Workshop, after.Rests closed → onMatch value closed) :
    EnsuresKeeping library maxDepth files levels (Rule.parse rule) machine
      onMatch := by
  refine .scope (EnsuresCleanly.mono inside ?_ ?_)
  · rintro value after ⟨keeps, holds⟩ - closed closes
    have rests := Machine.rests_of_keep closes
    exact ⟨keeps.trans (.of_kinds rests.kinds), holds closed rests⟩
  · intro after keeps proceeds closed closes
    exact keeps.of_take (Machine.flags_and_kinds_of_undo proceeds closes).2

end EnsuresKeeping

end Grammar

end InkSyntax
