import InkSyntax.Proofs.Grammar.Building
import InkSyntax.Proofs.Story.CastWeaving

namespace InkSyntax

/-!
# Which roles a rule takes and gives

Like the trees that a rule owns, the roles of their roots are handed on from one
rule to the next.  A rule that makes a node needs the parts that the node has for
others, and a rule that looks at a node learns that it suits its role.
-/

/-- The parts that reading a construct gives. -/
def Construct.parts : {α : Type} → Construct α → α → List Part
  | _, .expression _ => fun id => [(id, .expression)]
  | _, .operand => fun id => [(id, .expression)]
  | _, .prose => Role.content.parts
  | _, .statements place => Role.parts (.statement place)

/-- A node in the one role is good for the other one when it is amended.

It may get further nodes below it, behind those that it had before. -/
def Amendment.Turns
    (amendment : Amendment)
    (adopted : List Part)
    (role other : Role) : Prop :=
  ∀ kind : StoryKind,
    role.Admits kind →
    other.Admits (amendment.apply kind) ∧
      other.demands (amendment.apply kind) = role.demands kind ++ adopted

/-- What an action makes of the parts that it is given. -/
def Action.Casts
    {α : Type}
    (origin : Cursor)
    (given : List Part)
    (gives : α → List Part)
    (action : Action Workshop α) : Prop :=
  ∀ (machine : Machine Workshop) (nodes : List NodeId),
    origin.Reaches machine.cursor →
    machine.host.draft.Plays given nodes →
    (action machine).Guarantees
      (fun value after =>
        machine.Proceeds after ∧
          Draft.Recasts nodes machine.host.draft after.host.draft (gives value))
      (machine.Leads nodes)

/-- How constructs are read gives nodes that suit their roles. -/
structure Workshop.SuppliesCast
    (origin : Cursor)
    (admits : Story → Prop)
    (read : {α : Type} → Construct α → Action Workshop α)
    (include_ : String → Action Workshop Inclusion) : Prop where
  supplies : Supplies origin admits read include_
  read :
    ∀ {α : Type} (construct : Construct α),
      Action.Casts origin [] construct.parts (read construct)

namespace Rule

variable {α β σ : Type}

/-- A rule takes some parts and gives others, which depend on its value. -/
def Casts
    (rule : GrammarRule α)
    (given : List Part)
    (gives : α → List Part) : Prop :=
  ∀ ⦃origin : Cursor⦄ ⦃admits : Story → Prop⦄
    ⦃read : {γ : Type} → Construct γ → Action Workshop γ⦄
    ⦃include_ : String → Action Workshop Inclusion⦄,
    Workshop.SuppliesCast origin admits read include_ →
    Action.Casts origin given gives
      (rule.run (Workshop.handle read include_))

variable
    {rule first : GrammarRule α}
    {next : α → GrammarRule β}
    {given : List Part}
    {gives mid : α → List Part}

section Sequences

/-- Giving less for more. -/
theorem Casts.weaken
    {more : List Part}
    {fewer : α → List Part}
    (casts : rule.Casts given gives)
    (covers : Covers more given)
    (gives_covers : ∀ value, Covers (gives value) (fewer value)) :
    rule.Casts more fewer := by
  intro origin admits read include_ supplies machine nodes reaches plays
  obtain ⟨found, playsFound, foundFewer⟩ := plays.subperm covers.subperm
  refine (casts supplies machine found reaches playsFound).mono ?_ ?_
  · rintro value after ⟨proceeds, recasts⟩
    exact
      ⟨proceeds,
        (recasts.mono foundFewer.subset).subperm (gives_covers value).subperm⟩
  · intro after leads
    exact leads.mono foundFewer.subset

/-- What a rule gives may be used in other roles that its own serve for. -/
theorem Casts.serve
    {others : α → List Part}
    (casts : rule.Casts given gives)
    (serves :
      ∀ value,
        List.Forall₂
          (fun part other => part.1 = other.1 ∧ part.2.Serves other.2)
          (gives value) (others value)) :
    rule.Casts given others := by
  intro origin admits read include_ supplies machine nodes reaches plays
  refine (casts supplies machine nodes reaches plays).mono ?_ fun _ leads => leads
  rintro value after ⟨proceeds, recasts⟩
  exact ⟨proceeds, recasts.serve (serves value)⟩

theorem Casts.serveNode
    {rule : GrammarRule NodeId}
    {role other : Role}
    (casts : rule.Casts given fun id => [(id, role)])
    (serves : role.Serves other) :
    rule.Casts given fun id => [(id, other)] :=
  casts.serve fun _ => .cons ⟨rfl, serves⟩ .nil

theorem Casts.serveNodes
    {rule : GrammarRule (List NodeId)}
    {role other : Role}
    (casts : rule.Casts given role.parts)
    (serves : role.Serves other) :
    rule.Casts given other.parts :=
  casts.serve fun _ => Role.forall₂_parts fun _ _ => ⟨rfl, serves⟩

/-- What a rule is given may play other roles that serve for those that it needs. -/
theorem Casts.offer
    {others : List Part}
    (casts : rule.Casts given gives)
    (serves :
      List.Forall₂
        (fun part other => part.1 = other.1 ∧ part.2.Serves other.2)
        others given) :
    rule.Casts others gives := by
  intro origin admits read include_ supplies machine nodes reaches plays
  refine casts supplies machine nodes reaches ⟨plays.cast.become ?_, plays.nodup⟩
  exact
    serves.imp fun _ _ ⟨same, serves⟩ =>
      ⟨same, fun kind _ admits => serves kind admits⟩

theorem Casts.offerNode
    {id : NodeId}
    {role : Role}
    {kept : List Part}
    (other : Role)
    (casts : rule.Casts ((id, other) :: kept) gives)
    (serves : role.Serves other) :
    rule.Casts ((id, role) :: kept) gives :=
  casts.offer
    (.cons ⟨rfl, serves⟩ (List.forall₂_same.mpr fun _ _ => ⟨rfl, .refl _⟩))

/-- Parts that a rule is not given are played after it. -/
theorem Casts.frame
    (casts : rule.Casts given gives)
    (kept : List Part) :
    rule.Casts (given ++ kept) fun value => gives value ++ kept := by
  intro origin admits read include_ supplies machine nodes reaches plays
  obtain ⟨givenNodes, keptNodes, rfl, playsGiven, playsKept, apart⟩ :=
    plays.exists_append
  refine (casts supplies machine givenNodes reaches playsGiven).mono ?_ ?_
  · rintro value after ⟨proceeds, recasts⟩
    exact ⟨proceeds, recasts.beside playsKept apart⟩
  · intro after leads
    exact leads.mono (List.subset_append_left _ _)

/-- One rule after another, which may count on what holds of the first one's value. -/
theorem Casts.bindKnowing
    {holds : α → Prop}
    {gives : β → List Part}
    (yields : first.Yields holds)
    (casts : first.Casts given mid)
    (then_ :
      ∀ value, holds value → (next value).Casts (mid value) gives) :
    (first >>= next).Casts given gives := by
  intro origin admits read include_ supplies machine nodes reaches plays
  refine guarantees_bind.mpr ?_
  have ran :=
    (casts supplies machine nodes reaches plays).and_ensures
      (yields (Workshop.handle read include_) machine)
  refine ran.mono ?_ fun _ leads => leads.1
  rintro value middle ⟨⟨proceeds, spares, found, playsFound, known⟩, held⟩
  have ranThen :=
    then_ value held supplies middle found (reaches.trans proceeds.cursor)
      playsFound
  refine ranThen.mono ?_ ?_
  · rintro result after ⟨proceedsThen, recasts⟩
    exact ⟨proceeds.trans proceedsThen, recasts.trans spares known⟩
  · intro after leads
    exact ⟨proceeds.trans leads.proceeds, spares.follow known leads.spares⟩

theorem Casts.bind
    {gives : β → List Part}
    (casts : first.Casts given mid)
    (then_ : ∀ value, (next value).Casts (mid value) gives) :
    (first >>= next).Casts given gives :=
  casts.bindKnowing yields_true fun value _ => then_ value

/-- A rule that uses some of the parts at hand, and what comes after it. -/
theorem Casts.using
    {used : List Part}
    {gives : β → List Part}
    (kept : List Part)
    (casts : first.Casts used mid)
    (covers : Covers given (used ++ kept))
    (then_ : ∀ value, (next value).Casts (mid value ++ kept) gives) :
    (first >>= next).Casts given gives :=
  ((casts.frame kept).bind then_).weaken covers fun _ _ => Nat.le_refl _

/-- A rule that needs no parts, and what comes after it. -/
theorem Casts.then
    {gives : β → List Part}
    (casts : first.Casts [] mid)
    (then_ : ∀ value, (next value).Casts (mid value ++ given) gives) :
    (first >>= next).Casts given gives :=
  (casts.frame given).bind then_

theorem Casts.thenKnowing
    {holds : α → Prop}
    {gives : β → List Part}
    (yields : first.Yields holds)
    (casts : first.Casts [] mid)
    (then_ :
      ∀ value, holds value → (next value).Casts (mid value ++ given) gives) :
    (first >>= next).Casts given gives :=
  (casts.frame given).bindKnowing yields then_

/-- One of two rules that give the same, and what comes after it. -/
theorem Casts.either
    {condition : Prop}
    [Decidable condition]
    {second : GrammarRule α}
    {gives : β → List Part}
    (mid : α → List Part)
    (casts : first.Casts given mid)
    (otherwise : second.Casts given mid)
    (then_ : ∀ value, (next value).Casts (mid value) gives) :
    (if condition then first >>= next else second >>= next).Casts given
      gives := by
  split
  · exact casts.bind then_
  · exact otherwise.bind then_

/-- Something that is done only at times, and what comes after it. -/
theorem Casts.perhaps
    {condition : Prop}
    [Decidable condition]
    {first : GrammarRule Unit}
    {next : Unit → GrammarRule β}
    {gives : β → List Part}
    (casts : first.Casts given fun _ => given)
    (then_ : ∀ value, (next value).Casts given gives) :
    (if condition then first >>= next else next ()).Casts given gives := by
  split
  · exact casts.bind then_
  · exact then_ ()

/-- It makes no difference how a sequence of three rules is put together. -/
theorem casts_assoc
    {γ : Type}
    {last : β → GrammarRule γ}
    {gives : γ → List Part} :
    ((first >>= next) >>= last).Casts given gives ↔
      (first >>= fun value => next value >>= last).Casts given gives := by
  have sameRun
      (read : {γ : Type} → Construct γ → Action Workshop γ)
      (include_ : String → Action Workshop Inclusion) :
      ((first >>= next) >>= last).run (Workshop.handle read include_) =
        (first >>= fun value => next value >>= last).run
          (Workshop.handle read include_) := by
    funext machine
    change
      ((first.run (Workshop.handle read include_) machine).andThen _).andThen _ =
        (first.run (Workshop.handle read include_) machine).andThen _
    cases first.run (Workshop.handle read include_) machine <;> rfl
  constructor
  · intro casts origin admits read include_ supplies
    rw [← sameRun]
    exact casts supplies
  · intro casts origin admits read include_ supplies
    rw [sameRun]
    exact casts supplies

theorem Casts.pure
    {value : α}
    (covers : Covers given (gives value)) :
    (Pure.pure value : GrammarRule α).Casts given gives := by
  intro origin admits read include_ supplies machine nodes reaches plays
  exact ⟨.refl machine, plays.recasts.subperm covers.subperm⟩

/-- What comes after a value is known. -/
theorem Casts.certain
    {value : α}
    {gives : β → List Part}
    (then_ : (next value).Casts given gives) :
    ((Pure.pure value : GrammarRule α) >>= next).Casts given gives :=
  then_

theorem Casts.fail :
    (Rule.fail : GrammarRule α).Casts given gives := by
  intro origin admits read include_ supplies machine nodes reaches plays
  exact .refl nodes machine

/-- A rule that may fail gives nothing then. -/
theorem Casts.attempt
    (gives : Option α → List Part)
    (casts : rule.Casts given fun value => gives (some value))
    (nothing : gives none = []) :
    (Rule.attempt rule).Casts given gives := by
  intro origin admits read include_ supplies machine nodes reaches plays
  refine guarantees_attempt.mpr ?_
  refine (casts supplies machine nodes reaches plays).mono ?_ ?_
  · intro value after recast
    exact recast
  · intro after leads
    refine ⟨leads.proceeds, leads.spares, [], ?_, by simp⟩
    rw [nothing]
    exact .nil

/-- Rounds that hand on what the next one needs. -/
theorem Casts.loop
    {round : σ → GrammarRule (σ ⊕ α)}
    (held : σ → List Part)
    (casts : ∀ state, (round state).Casts (held state) (Sum.elim held gives))
    (state : σ) :
    (Rule.loop state round).Casts (held state) gives := by
  intro origin admits read include_ supplies machine nodes reaches plays
  refine
    guarantees_loop
      (fun state after =>
        machine.Proceeds after ∧
          Draft.Recasts nodes machine.host.draft after.host.draft (held state))
      ⟨.refl machine, plays.recasts⟩ ?_
  rintro state middle ⟨proceeds, spares, found, playsFound, known⟩
  have ran :=
    casts state supplies middle found (reaches.trans proceeds.cursor) playsFound
  refine ran.mono ?_ ?_
  · rintro result after ⟨proceedsThen, recasts⟩
    cases result <;>
      exact ⟨proceeds.trans proceedsThen, recasts.trans spares known⟩
  · intro after leads
    exact ⟨proceeds.trans leads.proceeds, spares.follow known leads.spares⟩

/-- A rule that reads may do so on the parts that it is given. -/
theorem Reads.casts
    (reads : rule.Reads (given.map Prod.fst)) :
    rule.Casts given fun _ => given := by
  intro origin admits read include_ supplies machine nodes reaches plays
  have ran :=
    reads supplies.supplies machine nodes reaches plays.cast.knows
      fun id root => plays.cast.mem_of_root root
  refine ran.mono ?_ ?_
  · rintro value after ⟨proceeds, same⟩
    rw [same]
    exact ⟨proceeds, plays.recasts⟩
  · rintro after ⟨proceeds, same⟩
    exact ⟨proceeds, by rw [same]; exact .refl _ _⟩

/-- A rule that reads, and what comes after it. -/
theorem Casts.read
    {gives : β → List Part}
    (reads : first.Reads (given.map Prod.fst))
    (then_ : ∀ value, (next value).Casts given gives) :
    (first >>= next).Casts given gives :=
  reads.casts.bind then_

theorem Casts.ask
    {gives : β → List Part}
    (asks : first.Asks (given.map Prod.fst))
    (then_ : ∀ value, (next value).Casts given gives) :
    (first >>= next).Casts given gives :=
  .read asks.reads then_

theorem Casts.askKnowing
    {holds : α → Prop}
    {gives : β → List Part}
    (yields : first.Yields holds)
    (asks : first.Asks (given.map Prod.fst))
    (then_ : ∀ value, holds value → (next value).Casts given gives) :
    (first >>= next).Casts given gives :=
  asks.reads.casts.bindKnowing yields then_

/-- A remark that is made only at times, and what comes after it. -/
theorem Casts.remark
    {condition : Prop}
    [Decidable condition]
    {remark : GrammarRule Unit}
    {next : Unit → GrammarRule β}
    {gives : β → List Part}
    (asks : remark.Asks (given.map Prod.fst))
    (then_ : ∀ value, (next value).Casts given gives) :
    (if condition then remark >>= next else next ()).Casts given gives :=
  .perhaps asks.reads.casts then_

end Sequences

section Scopes

/-- The parts that a rule gives hold the nodes that its value stands for. -/
class NamesParts [StandsFor α] (gives : α → List Part) : Prop where
  subset : ∀ value, StandsFor.nodes value ⊆ (gives value).map Prod.fst

instance
    (role : Role) :
    NamesParts fun id : NodeId => [(id, role)] :=
  ⟨fun _ _ member => member⟩

instance
    (role : Role) :
    NamesParts (Role.parts role) :=
  ⟨fun ids => by simp [StandsFor.nodes]⟩

instance (priority := low) : @NamesParts α instStandsFor gives :=
  ⟨by simp⟩

/-- A scope is kept, and its span goes to nodes that the rule gives. -/
theorem Casts.scope
    {fate : α → Fate}
    (casts : rule.Casts given gives)
    (keeps :
      ∀ value,
        ∃ ids, fate value = .keep ids ∧ ids ⊆ (gives value).map Prod.fst) :
    (Rule.scope fate rule).Casts given gives := by
  intro origin admits read include_ supplies machine nodes reaches plays
  refine guarantees_scope ?_
  refine (casts supplies machine.opened nodes reaches plays).mono ?_ ?_
  · rintro value after ⟨proceeds, spares, found, playsFound, known⟩
    obtain ⟨ids, isKept, areRoots⟩ := keeps value
    refine ⟨proceeds, ?_⟩
    rw [isKept]
    refine fun closed closes => ⟨closes.toProceeds, ?_⟩
    rw [closes.host]
    have among : ids ⊆ found := fun id member =>
      playsFound.cast.mem_of_root (areRoots member)
    exact
      (playsFound.recasts_of_kinds (Draft.spares_setSpans _ _ _) among
        (Draft.kinds_setSpans _ _ _)).trans spares known
  · intro after leads
    refine ⟨leads.proceeds, fun closed undoes => ⟨undoes.toProceeds, ?_⟩⟩
    rw [undoes.host]
    exact leads.spares.rewind

/-- A rule in a scope of its own, whose span goes to the nodes that it stands for. -/
theorem Casts.parse
    [StandsFor α]
    [names : NamesParts gives]
    (casts : rule.Casts given gives) :
    (Rule.parse rule).Casts given gives :=
  casts.scope fun value => ⟨_, rfl, names.subset value⟩

end Scopes

section Effects

variable {kind : StoryKind} {role : Role}

/-- A node is made of the parts that it has for others. -/
theorem Casts.make
    (admits : role.Admits kind)
    (covers : Covers given (role.demands kind)) :
    (Grammar.make kind).Casts given fun id => [(id, role)] := by
  refine Casts.weaken ?_ covers fun _ _ => Nat.le_refl _
  intro origin admitsStory read include_ supplies machine nodes reaches plays
  exact ⟨.work machine _, plays.recasts_add admits⟩

theorem Casts.makeSpanning
    (admits : role.Admits kind)
    (covers : Covers given (role.demands kind)) :
    (Rule.effect (.makeSpanning kind) : GrammarRule NodeId).Casts given
      fun id => [(id, role)] := by
  refine Casts.weaken ?_ covers fun _ _ => Nat.le_refl _
  intro origin admitsStory read include_ supplies machine nodes reaches plays
  exact ⟨.work machine _, plays.recasts_add admits⟩

/-- An amended node may play another role, and take in other nodes. -/
theorem Casts.amend
    {id : NodeId}
    {amendment : Amendment}
    {kept : List Part}
    {other : Role}
    (adopted : List Part)
    (turns : amendment.Turns adopted role other) :
    (Grammar.amend id amendment).Casts ((id, role) :: (adopted ++ kept))
      fun _ => (id, other) :: kept := by
  intro origin admitsStory read include_ supplies machine nodes reaches plays
  have isThere : machine.host.draft.missingAmong? [id] = none :=
    plays.cast.knows.missingAmong?_eq_none
      (by simpa using plays.cast.mem_of_root List.mem_cons_self)
  rw [run_amend isThere]
  exact ⟨.work machine _, plays.recasts_modify adopted turns⟩

/-- A node among others is amended, and plays its role as before. -/
theorem Casts.amendAmong
    {id : NodeId}
    {amendment : Amendment}
    (root : (id, role) ∈ given)
    (turns : amendment.Turns [] role role) :
    (Grammar.amend id amendment).Casts given fun _ => given := by
  intro origin admitsStory read include_ supplies machine nodes reaches plays
  have isRoot : id ∈ given.map Prod.fst :=
    List.mem_map.mpr ⟨_, root, rfl⟩
  have isThere : machine.host.draft.missingAmong? [id] = none :=
    plays.cast.knows.missingAmong?_eq_none
      (by simpa using plays.cast.mem_of_root isRoot)
  rw [run_amend isThere]
  exact
    ⟨.work machine _,
      plays.recasts_modify_of_mem root (by simpa [Amendment.Turns] using turns)⟩

/-- Statements are arranged into a weave and flows. -/
theorem Casts.weave
    (place : Place)
    (content : List NodeId) :
    (Rule.effect (.weave content) : GrammarRule (List NodeId)).Casts
      (Role.parts (.statement place) content) (Role.parts (.division place)) := by
  intro origin admitsStory read include_ supplies machine nodes reaches plays
  have areThere : machine.host.draft.missingAmong? content = none :=
    plays.cast.knows.missingAmong?_eq_none fun id root =>
      plays.cast.mem_of_root (by simpa using root)
  rw [run_weave areThere]
  exact ⟨.work machine _, plays.recasts_weaveAndFlows⟩

theorem casts_construct
    (construct : Construct α) :
    (Rule.effect (.read construct)).Casts [] construct.parts := by
  intro origin admitsStory read include_ supplies
  exact supplies.read construct

/-- A node that was looked at suits its role, and may turn out to suit others. -/
theorem Casts.inspect
    {id : NodeId}
    {next : StoryKind → GrammarRule β}
    {gives : β → List Part}
    {kept : List Part}
    (then_ :
      ∀ kind,
        role.Admits kind →
        ∃ other : Role,
          other.Admits kind ∧
            other.demands kind = role.demands kind ∧
            (next kind).Casts ((id, other) :: kept) gives) :
    (Grammar.kindOf id >>= next).Casts ((id, role) :: kept) gives := by
  intro origin admitsStory read include_ supplies machine nodes reaches plays
  obtain ⟨cast, nodup⟩ := plays
  cases cast with
  | @cons _ _ kind _ _ _ isKind admits children siblings =>
      refine guarantees_bind.mpr ?_
      simp only [Grammar.kindOf, run, Workshop.handle, isKind]
      obtain ⟨other, admitsOther, sameDemands, casts⟩ := then_ kind admits
      refine casts supplies machine _ reaches ⟨?_, nodup⟩
      rw [← sameDemands] at children
      exact .cons isKind admitsOther children siblings

/-- A node among others that was looked at suits its role. -/
theorem Casts.inspectAmong
    {id : NodeId}
    {next : StoryKind → GrammarRule β}
    {gives : β → List Part}
    (root : (id, role) ∈ given)
    (then_ : ∀ kind, role.Admits kind → (next kind).Casts given gives) :
    (Grammar.kindOf id >>= next).Casts given gives := by
  intro origin admitsStory read include_ supplies machine nodes reaches plays
  obtain ⟨kind, isKind, admits⟩ := plays.cast.exists_kind_of_root root
  refine guarantees_bind.mpr ?_
  simp only [Grammar.kindOf, run, Workshop.handle, isKind]
  exact then_ kind admits supplies machine nodes reaches plays

/-- A node that was looked at can be taken apart, for the parts that it had for others. -/
theorem Casts.apart
    {id : NodeId}
    {next : StoryKind → GrammarRule β}
    {gives : β → List Part}
    {kept : List Part}
    (then_ :
      ∀ kind,
        role.Admits kind →
        (next kind).Casts (role.demands kind ++ kept) gives ∨
          (next kind).Casts ((id, role) :: kept) gives) :
    (Grammar.kindOf id >>= next).Casts ((id, role) :: kept) gives := by
  intro origin admitsStory read include_ supplies machine nodes reaches plays
  obtain ⟨kind, found, isKind, admits, rfl, playsBelow⟩ := plays.exists_demands
  refine guarantees_bind.mpr ?_
  simp only [Grammar.kindOf, run, Workshop.handle, isKind]
  rcases then_ kind admits with casts | casts
  · refine (casts supplies machine found reaches playsBelow).mono ?_ ?_
    · rintro value after ⟨proceeds, recasts⟩
      exact ⟨proceeds, recasts.mono (List.subset_cons_self _ _)⟩
    · intro after leads
      exact leads.mono (List.subset_cons_self _ _)
  · exact casts supplies machine _ reaches plays

end Effects

end Rule

end InkSyntax
