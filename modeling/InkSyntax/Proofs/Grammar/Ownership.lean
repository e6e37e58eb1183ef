import InkSyntax.Proofs.Grammar.Yields
import InkSyntax.Proofs.Machine.Guarantee
import InkSyntax.Proofs.Story.Weaving

namespace InkSyntax

/-!
# Which trees a rule is given and gives

A rule owns the trees that it is given: it may change them, plant a new node on
them, or give them on, each of them at most once.  What it gives depends on its
value.  All other nodes from before it leaves alone, also when it fails.

Sequencing hands trees on from one rule to the next, past those that need none,
so a fact about a rule is put together from the facts about its parts.
-/

/-- The nodes that reading a construct gives. -/
def Construct.nodes : {α : Type} → Construct α → α → List NodeId
  | _, .expression _ => fun id => [id]
  | _, .operand => fun id => [id]
  | _, .prose => fun ids => ids
  | _, .statements _ => fun ids => ids

/-- A run kept to its scope, and of the nodes from before it touched only some. -/
structure Machine.Leads
    (touched : List NodeId)
    (before after : Machine Workshop) : Prop where
  proceeds : before.Proceeds after
  spares : Draft.Spares touched before.host.draft after.host.draft

namespace Machine.Leads

variable
    {before middle after : Machine Workshop}
    {touched found : List NodeId}

theorem refl
    (touched : List NodeId)
    (machine : Machine Workshop) :
    machine.Leads touched machine :=
  ⟨.refl machine, .refl touched _⟩

theorem mono
    {more : List NodeId}
    (leads : before.Leads touched after)
    (subset : touched ⊆ more) :
    before.Leads more after :=
  ⟨leads.proceeds, leads.spares.mono fun _ member _ => subset member⟩

/-- A run that touches no older node goes on after another one. -/
theorem trans
    (leads : before.Leads touched middle)
    (then_ : middle.Leads [] after) :
    before.Leads touched after :=
  ⟨leads.proceeds.trans then_.proceeds,
    leads.spares.follow (by simp) then_.spares⟩

end Machine.Leads

namespace Action

variable {α : Type}

/-- What an action makes of the trees that it is given, wherever these begin. -/
def Turns
    (origin : Cursor)
    (admits : Story → Prop)
    (given : List NodeId)
    (gives : α → List NodeId)
    (action : Action Workshop α) : Prop :=
  ∀ (machine : Machine Workshop) (low : Nat) (nodes : List NodeId),
    origin.Reaches machine.cursor →
    low ≤ machine.cursor.offset →
    machine.host.draft.Holds origin admits low machine.cursor.offset given
      nodes →
    (action machine).Guarantees
      (fun value after =>
        machine.Proceeds after ∧
          Draft.Gains origin admits low after.cursor.offset nodes
            machine.host.draft after.host.draft (gives value))
      (machine.Leads nodes)

/-- An action that leaves the draft as it is, if some nodes are there. -/
def Keeps
    (origin : Cursor)
    (known : List NodeId)
    (action : Action Workshop α) : Prop :=
  ∀ (machine : Machine Workshop) (closed : List NodeId),
    origin.Reaches machine.cursor →
    machine.host.draft.Knows closed →
    known ⊆ closed →
    (action machine).Guarantees
      (fun _ after =>
        machine.Proceeds after ∧ after.host.draft = machine.host.draft)
      (fun after =>
        machine.Proceeds after ∧ after.host.draft = machine.host.draft)

end Action

/-- How constructs and files are read is all right by the trees of a draft. -/
structure Workshop.Supplies
    (origin : Cursor)
    (admits : Story → Prop)
    (read : {α : Type} → Construct α → Action Workshop α)
    (include_ : String → Action Workshop Inclusion) : Prop where
  read :
    ∀ {α : Type} (construct : Construct α),
      Action.Turns origin admits [] construct.nodes (read construct)
  include_ :
    ∀ (file : String) (machine : Machine Workshop),
      Unbroken file →
      (include_ file machine).Guarantees
        (fun inclusion after =>
          machine.Proceeds after ∧
            after.host.draft = machine.host.draft ∧
            ∀ story, inclusion = .story story → admits story)
        (machine.Leads [])

/-- Some nodes hold each of some others at least as often. -/
@[grind] def Covers {α : Type} [DecidableEq α] (given needed : List α) : Prop :=
  ∀ id, needed.count id ≤ given.count id

theorem Covers.subperm
    {α : Type}
    [DecidableEq α]
    {given needed : List α}
    (covers : Covers given needed) :
    needed.Subperm given :=
  List.subperm_ext_iff.mpr fun id _ => covers id

namespace Rule

variable {α β σ : Type}

/-- A rule takes some trees and gives others, which depend on its value. -/
def Owns
    (rule : GrammarRule α)
    (given : List NodeId)
    (gives : α → List NodeId) : Prop :=
  ∀ ⦃origin : Cursor⦄ ⦃admits : Story → Prop⦄
    ⦃read : {γ : Type} → Construct γ → Action Workshop γ⦄
    ⦃include_ : String → Action Workshop Inclusion⦄,
    Workshop.Supplies origin admits read include_ →
    Action.Turns origin admits given gives
      (rule.run (Workshop.handle read include_))

/-- A rule that makes trees out of nothing. -/
abbrev Builds
    (rule : GrammarRule α)
    (gives : α → List NodeId) : Prop :=
  rule.Owns [] gives

/-- A rule that makes no node and changes none. -/
def Reads
    (rule : GrammarRule α)
    (known : List NodeId) : Prop :=
  ∀ ⦃origin : Cursor⦄ ⦃admits : Story → Prop⦄
    ⦃read : {γ : Type} → Construct γ → Action Workshop γ⦄
    ⦃include_ : String → Action Workshop Inclusion⦄,
    Workshop.Supplies origin admits read include_ →
    Action.Keeps origin known (rule.run (Workshop.handle read include_))

variable
    {rule first : GrammarRule α}
    {next : α → GrammarRule β}
    {given kept known : List NodeId}
    {gives mid : α → List NodeId}

section Owning

/-- Giving less for more. -/
theorem Owns.weaken
    {more : List NodeId}
    {fewer : α → List NodeId}
    (owns : rule.Owns given gives)
    (covers : Covers more given)
    (gives_covers : ∀ value, Covers (gives value) (fewer value)) :
    rule.Owns more fewer := by
  intro origin admits read include_ supplies machine low nodes reaches low_le
    holds
  obtain ⟨found, holdsFound, foundFewer⟩ := holds.subperm covers.subperm
  have ran := owns supplies machine low found reaches low_le holdsFound
  refine ran.mono ?_ ?_
  · rintro value after ⟨proceeds, gains⟩
    refine ⟨proceeds, ?_⟩
    exact
      (gains.mono (Nat.le_refl _) (Nat.le_refl _) foundFewer.subset).subperm
        (gives_covers value).subperm
  · intro after leads
    exact leads.mono foundFewer.subset

/-- Trees that a rule is not given are there after it. -/
theorem Owns.frame
    (owns : rule.Owns given gives)
    (kept : List NodeId) :
    rule.Owns (given ++ kept) fun value => gives value ++ kept := by
  intro origin admits read include_ supplies machine low nodes reaches low_le
    holds
  obtain ⟨givenNodes, keptNodes, rfl, holdsGiven, holdsKept, apart⟩ :=
    holds.exists_append
  have ran := owns supplies machine low givenNodes reaches low_le holdsGiven
  refine ran.mono ?_ ?_
  · rintro value after ⟨proceeds, gains⟩
    exact
      ⟨proceeds, gains.beside holdsKept proceeds.cursor.offset_le apart⟩
  · intro after leads
    exact leads.mono (List.subset_append_left _ _)

/-- One rule after another, which may count on what holds of the first one's value. -/
theorem Owns.bindKnowing
    {holds : α → Prop}
    {gives : β → List NodeId}
    (yields : first.Yields holds)
    (owns : first.Owns given mid)
    (then_ : ∀ value, holds value → (next value).Owns (mid value) gives) :
    (first >>= next).Owns given gives := by
  intro origin admits read include_ supplies machine low nodes reaches low_le
    holdsNodes
  refine guarantees_bind.mpr ?_
  have ran :=
    (owns supplies machine low nodes reaches low_le holdsNodes).and_ensures
      (yields (Workshop.handle read include_) machine)
  refine ran.mono ?_ fun _ leads => leads.1
  rintro value middle ⟨⟨proceeds, spares, found, holdsFound, known⟩, held⟩
  have ranThen :=
    then_ value held supplies middle low found (reaches.trans proceeds.cursor)
      (Nat.le_trans low_le proceeds.cursor.offset_le) holdsFound
  refine ranThen.mono ?_ ?_
  · rintro result after ⟨proceedsThen, gains⟩
    exact ⟨proceeds.trans proceedsThen, gains.trans spares known⟩
  · intro after leads
    exact
      ⟨proceeds.trans leads.proceeds, spares.follow known leads.spares⟩

/-- One rule after another, with all trees handed on. -/
theorem Owns.bind
    {gives : β → List NodeId}
    (owns : first.Owns given mid)
    (then_ : ∀ value, (next value).Owns (mid value) gives) :
    (first >>= next).Owns given gives :=
  owns.bindKnowing yields_true fun value _ => then_ value

/-- A rule that uses some of the trees at hand, and what comes after it. -/
theorem Owns.using
    {used : List NodeId}
    {gives : β → List NodeId}
    (kept : List NodeId)
    (owns : first.Owns used mid)
    (covers : Covers given (used ++ kept))
    (then_ : ∀ value, (next value).Owns (mid value ++ kept) gives) :
    (first >>= next).Owns given gives :=
  ((owns.frame kept).bind then_).weaken covers fun _ _ => Nat.le_refl _

/-- A rule that needs no trees, and what comes after it. -/
theorem Owns.then
    {gives : β → List NodeId}
    (builds : first.Builds mid)
    (then_ : ∀ value, (next value).Owns (mid value ++ given) gives) :
    (first >>= next).Owns given gives :=
  (builds.frame given).bind then_

/-- One of two rules that give the same, and what comes after it. -/
theorem Owns.either
    {condition : Prop}
    [Decidable condition]
    {second : GrammarRule α}
    {gives : β → List NodeId}
    (mid : α → List NodeId)
    (owns : first.Owns given mid)
    (otherwise : second.Owns given mid)
    (then_ : ∀ value, (next value).Owns (mid value) gives) :
    (if condition then first >>= next else second >>= next).Owns given
      gives := by
  split
  · exact owns.bind then_
  · exact otherwise.bind then_

/-- Something that is done only at times, and what comes after it. -/
theorem Owns.perhaps
    {condition : Prop}
    [Decidable condition]
    {first : GrammarRule Unit}
    {next : Unit → GrammarRule β}
    {gives : β → List NodeId}
    (owns : first.Owns given fun _ => given)
    (then_ : ∀ value, (next value).Owns given gives) :
    (if condition then first >>= next else next ()).Owns given gives := by
  split
  · exact owns.bind then_
  · exact then_ ()

/-- It makes no difference how a sequence of three rules is put together. -/
theorem owns_assoc
    {γ : Type}
    {last : β → GrammarRule γ}
    {gives : γ → List NodeId} :
    ((first >>= next) >>= last).Owns given gives ↔
      (first >>= fun value => next value >>= last).Owns given gives := by
  have sameRun
      (read : {γ : Type} → Construct γ → Action Workshop γ)
      (include_ : String → Action Workshop Inclusion) :
      ((first >>= next) >>= last).run (Workshop.handle read include_) =
        (first >>= fun value => next value >>= last).run
          (Workshop.handle read include_) := by
    funext machine
    change
      ((first.run (Workshop.handle read include_) machine).andThen _).andThen _ =
        (first.run (Workshop.handle read include_) machine).andThen _
    cases first.run (Workshop.handle read include_) machine <;> rfl
  constructor
  · intro owns origin admits read include_ supplies
    rw [← sameRun]
    exact owns supplies
  · intro owns origin admits read include_ supplies
    rw [sameRun]
    exact owns supplies

theorem Owns.pure
    {value : α}
    (covers : Covers given (gives value)) :
    (Pure.pure value : GrammarRule α).Owns given gives := by
  intro origin admits read include_ supplies machine low nodes reaches low_le
    holds
  exact ⟨.refl machine, holds.gains.subperm covers.subperm⟩

/-- What comes after a value is known. -/
theorem Owns.certain
    {value : α}
    {gives : β → List NodeId}
    (then_ : (next value).Owns given gives) :
    ((Pure.pure value : GrammarRule α) >>= next).Owns given gives :=
  then_

theorem Owns.fail :
    (Rule.fail : GrammarRule α).Owns given gives := by
  intro origin admits read include_ supplies machine low nodes reaches low_le
    holds
  exact .refl nodes machine

/-- A rule that may fail gives nothing then. -/
theorem Owns.attempt
    (gives : Option α → List NodeId)
    (owns : rule.Owns given fun value => gives (some value))
    (nothing : gives none = []) :
    (Rule.attempt rule).Owns given gives := by
  intro origin admits read include_ supplies machine low nodes reaches low_le
    holds
  refine guarantees_attempt.mpr ?_
  refine (owns supplies machine low nodes reaches low_le holds).mono ?_ ?_
  · intro value after gained
    exact gained
  · intro after leads
    refine ⟨leads.proceeds, leads.spares, [], ?_, by simp⟩
    rw [nothing]
    exact .nil

/-- Rounds that hand on what the next one needs. -/
theorem Owns.loop
    {round : σ → GrammarRule (σ ⊕ α)}
    (held : σ → List NodeId)
    (owns : ∀ state, (round state).Owns (held state) (Sum.elim held gives))
    (state : σ) :
    (Rule.loop state round).Owns (held state) gives := by
  intro origin admits read include_ supplies machine low nodes reaches low_le
    holds
  refine
    guarantees_loop
      (fun state after =>
        machine.Proceeds after ∧
          Draft.Gains origin admits low after.cursor.offset nodes
            machine.host.draft after.host.draft (held state))
      ⟨.refl machine, holds.gains⟩ ?_
  rintro state middle ⟨proceeds, spares, found, holdsFound, known⟩
  have ran :=
    owns state supplies middle low found (reaches.trans proceeds.cursor)
      (Nat.le_trans low_le proceeds.cursor.offset_le) holdsFound
  refine ran.mono ?_ ?_
  · rintro result after ⟨proceedsThen, gains⟩
    cases result with
    | inl next =>
        exact ⟨proceeds.trans proceedsThen, gains.trans spares known⟩
    | inr value =>
        exact ⟨proceeds.trans proceedsThen, gains.trans spares known⟩
  · intro after leads
    exact ⟨proceeds.trans leads.proceeds, spares.follow known leads.spares⟩

end Owning

section Scopes

/-- The trees that a rule gives hold the nodes that its value stands for. -/
class Names [StandsFor α] (gives : α → List NodeId) : Prop where
  subset : ∀ value, StandsFor.nodes value ⊆ gives value

/-- Undoing a scope that touched no older node leaves the draft as it was. -/
theorem draft_of_undoes
    {machine after closed : Machine Workshop}
    (leads : machine.opened.Leads [] after)
    (undoes : machine.Undoes after closed) :
    closed.host.draft = machine.host.draft := by
  rw [undoes.host]
  exact leads.spares.keepOldest

/-- Committing a scope gives its span to trees that were made in it. -/
theorem gains_of_keeps
    {origin : Cursor}
    {admits : Story → Prop}
    {ids roots : List NodeId}
    {machine after closed : Machine Workshop}
    (reaches : origin.Reaches machine.cursor)
    (proceeds : machine.opened.Proceeds after)
    (gains :
      Draft.Gains origin admits machine.cursor.offset after.cursor.offset []
        machine.host.draft after.host.draft roots)
    (closes : machine.Keeps ids after closed)
    (among : ids ⊆ roots) :
    Draft.Gains origin admits machine.cursor.offset closed.cursor.offset []
      machine.host.draft closed.host.draft roots := by
  obtain ⟨spares, found, holdsFound, known⟩ := gains
  have reachesAfter : origin.Reaches after.cursor :=
    reaches.trans proceeds.cursor
  have lies :
      (Span.between machine.cursor after.cursor).LiesWithin origin
        machine.cursor.offset after.cursor.offset :=
    ⟨Nat.le_refl _, proceeds.cursor.offset_le, Nat.le_refl _,
      reaches.sees, reachesAfter.sees⟩
  have committed :=
    Draft.Holds.gains_setSpans (.between machine.cursor after.cursor)
      holdsFound among lies
  rw [closes.host, closes.closed_cursor]
  exact committed.trans spares known

/-- A scope that is kept gives its span to trees that were made in it. -/
theorem Builds.scope
    (fate : α → Fate)
    (builds : rule.Builds gives)
    (keeps :
      ∀ value, ∃ nodes, fate value = .keep nodes ∧ nodes ⊆ gives value) :
    (Rule.scope fate rule).Builds gives := by
  intro origin admits read include_ supplies machine low nodes reaches low_le
    holds
  obtain ⟨forest, -⟩ := holds
  cases forest
  refine guarantees_scope ?_
  have ran :=
    builds supplies machine.opened machine.cursor.offset [] reaches
      (Nat.le_refl _) .nil
  refine ran.mono ?_ ?_
  · rintro value after ⟨proceeds, gains⟩
    obtain ⟨ids, keepsIds, among⟩ := keeps value
    refine ⟨proceeds, ?_⟩
    rw [keepsIds]
    intro closed closes
    exact
      ⟨closes.toProceeds,
        (gains_of_keeps reaches proceeds gains closes among).mono low_le
          (Nat.le_refl _) (by simp)⟩
  · intro after leads
    refine ⟨leads.proceeds, fun closed undoes => ⟨undoes.toProceeds, ?_⟩⟩
    rw [draft_of_undoes leads undoes]
    exact .refl _ _

/-- A rule in a scope of its own, whose span goes to the nodes that it stands for. -/
theorem Builds.parse
    [StandsFor α]
    [names : Names gives]
    (builds : rule.Builds gives) :
    (Rule.parse rule).Builds gives :=
  builds.scope _ fun value => ⟨_, rfl, names.subset value⟩

/-- A rule that is only run ahead changes nothing, whatever it makes there. -/
theorem Builds.reads_peek
    (builds : rule.Builds gives) :
    (Rule.peek rule).Reads known := by
  intro origin admits read include_ supplies machine closed reaches _ _
  refine guarantees_scope ?_
  refine guarantees_bind.mpr (guarantees_attempt.mpr ?_)
  have ran :=
    builds supplies machine.opened machine.cursor.offset [] reaches
      (Nat.le_refl _) .nil
  have undone
      {after : Machine Workshop}
      (leads : machine.opened.Leads [] after) :
      machine.opened.Proceeds after ∧
        ∀ closed,
          machine.Undoes after closed →
          machine.Proceeds closed ∧
            closed.host.draft = machine.host.draft :=
    ⟨leads.proceeds, fun closed undoes =>
      ⟨undoes.toProceeds, draft_of_undoes leads undoes⟩⟩
  refine ran.mono ?_ ?_
  · rintro value after ⟨proceeds, gains⟩
    exact undone ⟨proceeds, gains.spares⟩
  · intro after leads
    exact undone leads

end Scopes

section Reading

theorem Reads.bind
    (reads : first.Reads known)
    (then_ : ∀ value, (next value).Reads known) :
    (first >>= next).Reads known := by
  intro origin admits read include_ supplies machine closed reaches knows among
  refine guarantees_bind.mpr ?_
  refine (reads supplies machine closed reaches knows among).mono ?_ ?_
  · rintro value middle ⟨proceeds, same⟩
    have ran :=
      then_ value supplies middle closed (reaches.trans proceeds.cursor)
        (by rwa [same]) among
    refine ran.mono ?_ ?_
    · rintro result after ⟨proceedsThen, sameThen⟩
      exact ⟨proceeds.trans proceedsThen, sameThen.trans same⟩
    · rintro after ⟨proceedsThen, sameThen⟩
      exact ⟨proceeds.trans proceedsThen, sameThen.trans same⟩
  · intro after kept
    exact kept

theorem Reads.attempt
    (reads : rule.Reads known) :
    (Rule.attempt rule).Reads known := by
  intro origin admits read include_ supplies machine closed reaches knows among
  refine guarantees_attempt.mpr ?_
  exact
    (reads supplies machine closed reaches knows among).mono
      (fun _ _ kept => kept) fun _ kept => kept

/-- A scope that gives no node its span. -/
theorem Reads.scope
    {fate : α → Fate}
    (reads : rule.Reads known)
    (spansNone : ∀ value nodes, fate value = .keep nodes → nodes = []) :
    (Rule.scope fate rule).Reads known := by
  intro origin admits read include_ supplies machine closed reaches knows among
  refine guarantees_scope ?_
  have ran := reads supplies machine.opened closed reaches knows among
  have undone
      {after : Machine Workshop}
      (same : after.host.draft = machine.host.draft)
      (closed : Machine Workshop)
      (undoes : machine.Undoes after closed) :
      machine.Proceeds closed ∧ closed.host.draft = machine.host.draft := by
    refine ⟨undoes.toProceeds, ?_⟩
    rw [undoes.host]
    simpa [Host.rewind, Host.mark, same] using
      (Draft.Spares.refl [] machine.host.draft).keepOldest
  refine ran.mono ?_ ?_
  · rintro value after ⟨proceeds, same⟩
    refine ⟨proceeds, ?_⟩
    split
    next nodes keeps =>
      intro closed closes
      refine ⟨closes.toProceeds, ?_⟩
      rw [closes.host, spansNone value nodes keeps]
      exact same
    next =>
      exact undone same
  · rintro after ⟨proceeds, same⟩
    exact ⟨proceeds, undone same⟩

theorem Reads.loop
    {round : σ → GrammarRule (σ ⊕ α)}
    (reads : ∀ state, (round state).Reads known)
    (state : σ) :
    (Rule.loop state round).Reads known := by
  intro origin admits read include_ supplies machine closed reaches knows among
  refine
    guarantees_loop
      (fun _ after =>
        machine.Proceeds after ∧ after.host.draft = machine.host.draft)
      ⟨.refl machine, rfl⟩ ?_
  rintro state middle ⟨proceeds, same⟩
  have ran :=
    reads state supplies middle closed (reaches.trans proceeds.cursor)
      (by rwa [same]) among
  refine ran.mono ?_ ?_
  · rintro result after ⟨proceedsThen, sameThen⟩
    cases result <;>
      exact ⟨proceeds.trans proceedsThen, sameThen.trans same⟩
  · rintro after ⟨proceedsThen, sameThen⟩
    exact ⟨proceeds.trans proceedsThen, sameThen.trans same⟩

/-- Asking what a known node is makes its children known. -/
theorem Reads.kindOf
    {id : NodeId}
    {next : StoryKind → GrammarRule β}
    (isKnown : id ∈ known)
    (then_ : ∀ kind, (next kind).Reads (kind.children ++ known)) :
    (Grammar.kindOf id >>= next).Reads known := by
  intro origin admits read include_ supplies machine closed reaches knows among
  obtain ⟨slot, made, childrenAmong⟩ := knows id (among isKnown)
  refine guarantees_bind.mpr ?_
  have found : machine.host.draft.kind? id = some slot.kind := by
    simp [Draft.kind?, made]
  simp only [Grammar.kindOf, run, Workshop.handle, found]
  exact
    then_ slot.kind supplies machine closed reaches knows
      (List.append_subset.mpr ⟨childrenAmong, among⟩)

/-- A rule that reads may do so on the trees that it is given. -/
theorem Reads.owns
    (reads : rule.Reads given) :
    rule.Owns given fun _ => given := by
  intro origin admits read include_ supplies machine low nodes reaches low_le
    holds
  have ran :=
    reads supplies machine nodes reaches holds.forest.knows fun id root =>
      holds.forest.mem_of_root root
  refine ran.mono ?_ ?_
  · rintro value after ⟨proceeds, same⟩
    refine ⟨proceeds, ?_⟩
    rw [same]
    exact
      (holds.mono (Nat.le_refl _) proceeds.cursor.offset_le).gains
  · rintro after ⟨proceeds, same⟩
    refine ⟨proceeds, ?_⟩
    rw [same]
    exact .refl _ _

/-- A rule that reads, and what comes after it. -/
theorem Owns.read
    {gives : β → List NodeId}
    (reads : first.Reads given)
    (then_ : ∀ value, (next value).Owns given gives) :
    (first >>= next).Owns given gives :=
  reads.owns.bind then_

end Reading

section Effects

variable {kind : StoryKind}

theorem Owns.make
    (covers : Covers given kind.children)
    (plain : ∀ story, kind ≠ .includedFile (some story)) :
    (Grammar.make kind).Owns given fun id => [id] := by
  refine Owns.weaken ?_ covers fun _ _ => Nat.le_refl _
  intro origin admits read include_ supplies machine low nodes reaches low_le
    holds
  refine ⟨.work machine _, ?_⟩
  exact
    holds.gains_add (fun story isStory => absurd isStory (plain story))
      (by simp)

theorem Owns.makeSpanning
    (covers : Covers given kind.children)
    (plain : ∀ story, kind ≠ .includedFile (some story)) :
    (Rule.effect (.makeSpanning kind) : GrammarRule NodeId).Owns given
      fun id => [id] := by
  refine Owns.weaken ?_ covers fun _ _ => Nat.le_refl _
  intro origin admits read include_ supplies machine low nodes reaches low_le
    holds
  refine ⟨.work machine _, ?_⟩
  exact
    holds.gains_addSpanning fun story isStory =>
      absurd isStory (plain story)

/-- All amendments but one leave the children of a node as they are. -/
theorem children_apply
    {amendment : Amendment}
    (appendsNone : ∀ child, amendment ≠ .append child)
    (kind : StoryKind) :
    (amendment.apply kind).children = kind.children := by
  unfold Amendment.apply
  split <;> first | rfl | exact absurd rfl (appendsNone _)

theorem includedFile_of_apply
    {amendment : Amendment}
    {story : Story}
    (included : amendment.apply kind = .includedFile (some story)) :
    kind = .includedFile (some story) := by
  unfold Amendment.apply at included
  split at included <;> first | exact included | cases included

/-- A node that is there is amended. -/
theorem run_amend
    {read : {γ : Type} → Construct γ → Action Workshop γ}
    {include_ : String → Action Workshop Inclusion}
    {machine : Machine Workshop}
    {id : NodeId}
    {amendment : Amendment}
    (isThere : machine.host.draft.missingAmong? [id] = none) :
    (Grammar.amend id amendment).run (Workshop.handle read include_) machine =
      Workshop.redraft (fun draft => ((), draft.modify id amendment.apply))
        machine := by
  simp only [Grammar.amend, run, Workshop.handle, Workshop.unlessMissing,
    isThere]

theorem Owns.amend
    {id : NodeId}
    {amendment : Amendment}
    (root : id ∈ given)
    (appendsNone : ∀ child, amendment ≠ .append child) :
    (Grammar.amend id amendment).Owns given fun _ => given := by
  intro origin admits read include_ supplies machine low nodes reaches low_le
    holds
  have isThere : machine.host.draft.missingAmong? [id] = none :=
    holds.forest.knows.missingAmong?_eq_none
      (by simpa using holds.forest.mem_of_root root)
  rw [run_amend isThere]
  refine ⟨.work machine _, ?_⟩
  exact
    holds.gains_modify root (children_apply appendsNone)
      fun kind story included => includedFile_of_apply included

/-- Nodes that are there are arranged. -/
theorem run_weave
    {read : {γ : Type} → Construct γ → Action Workshop γ}
    {include_ : String → Action Workshop Inclusion}
    {machine : Machine Workshop}
    {content : List NodeId}
    (areThere : machine.host.draft.missingAmong? content = none) :
    (Rule.effect (.weave content)).run (Workshop.handle read include_)
        machine =
      Workshop.redraft (·.weaveAndFlows content) machine := by
  simp only [run, Workshop.handle, Workshop.unlessMissing, areThere]

theorem Owns.weave
    (content : List NodeId) :
    (Rule.effect (.weave content) : GrammarRule (List NodeId)).Owns content
      fun ids => ids := by
  intro origin admits read include_ supplies machine low nodes reaches low_le
    holds
  have areThere : machine.host.draft.missingAmong? content = none :=
    holds.forest.knows.missingAmong?_eq_none fun id root =>
      holds.forest.mem_of_root root
  rw [run_weave areThere]
  exact ⟨.work machine _, holds.gains_weaveAndFlows⟩

theorem builds_construct
    (construct : Construct α) :
    (Rule.effect (.read construct)).Builds construct.nodes := by
  intro origin admits read include_ supplies
  exact supplies.read construct

/-- A node that was looked into can be taken apart, for the nodes below it. -/
theorem Owns.kindOf
    {id : NodeId}
    {next : StoryKind → GrammarRule β}
    {gives : β → List NodeId}
    (kept : List NodeId)
    (covers : Covers given (id :: kept))
    (then_ :
      ∀ kind,
        (next kind).Owns (id :: kept) gives ∨
          (next kind).Owns (kind.children ++ kept) gives) :
    (Grammar.kindOf id >>= next).Owns given gives := by
  refine Owns.weaken ?_ covers fun _ _ => Nat.le_refl _
  intro origin admits read include_ supplies machine low nodes reaches low_le
    holds
  obtain ⟨slot, below, others, rfl, made, holdsChildren⟩ := holds.exists_children
  refine guarantees_bind.mpr ?_
  have found : machine.host.draft.kind? id = some slot.kind := by
    simp [Draft.kind?, made]
  simp only [Grammar.kindOf, run, Workshop.handle, found]
  rcases then_ slot.kind with whole | apart
  · exact whole supplies machine low _ reaches low_le holds
  · have ran :=
      apart supplies machine low (below ++ others) reaches low_le
        holdsChildren
    refine ran.mono ?_ ?_
    · rintro value after ⟨proceeds, gains⟩
      exact
        ⟨proceeds,
          gains.mono (Nat.le_refl _) (Nat.le_refl _)
            (List.subset_cons_self _ _)⟩
    · intro after leads
      exact leads.mono (List.subset_cons_self _ _)

end Effects

end Rule

end InkSyntax
