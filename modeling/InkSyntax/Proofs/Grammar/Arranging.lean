import InkSyntax.Proofs.Grammar.Operations
import InkSyntax.Proofs.Grammar.PlainRules
import InkSyntax.Proofs.Machine.HostInvariants
import InkSyntax.Proofs.Story.Rejoining

namespace InkSyntax

/-!
# Rules that keep gathers in order

What statements give are trees in which every gather has its place in a weave, or
is itself the root.  Such trees stay in order while others are made, so sequencing,
choice and repetition hand them on.  Plain rules have nothing to order: all nodes
that they make are plain.

## What plain rules make

A plain rule makes plain nodes, and amends none into a weave or a gather.  So from
any age on the nodes of a draft stay plain while plain rules run, also where what
they made is forgotten again.
-/

theorem NodeKind.isPlain_apply
    {kind : StoryKind}
    (amendment : Amendment) :
    (amendment.apply kind).isPlain = kind.isPlain := by
  unfold Amendment.apply
  split <;> rfl

/-- All nodes of a draft but the oldest are plain. -/
def Draft.PlainFrom (draft : Draft) (mark : Nat) : Prop :=
  ∀ kind ∈ draft.kinds.drop mark, kind.isPlain = true

/-- An action leaves nodes plain, from any age on. -/
def Action.StaysPlain {α : Type} (action : Action Workshop α) : Prop :=
  ∀ (mark : Nat) (machine : Machine Workshop),
    machine.host.draft.PlainFrom mark →
    (action machine).Ends (·.host.draft.PlainFrom mark)

/-- Plain constructs and inclusions leave nodes plain. -/
structure Workshop.SuppliesPlain
    (read : {α : Type} → Construct α → Action Workshop α)
    (include_ : String → Action Workshop Inclusion) : Prop where
  read :
    ∀ {α : Type} (construct : Construct α),
      construct.IsPlain → (read construct).StaysPlain
  include_ : ∀ file, (include_ file).StaysPlain

namespace Draft.PlainFrom

variable
    {draft : Draft}
    {mark : Nat}

theorem of_size
    (draft : Draft) :
    draft.PlainFrom draft.size := by
  simp [PlainFrom, ← length_kinds]

theorem isPlain
    {kind : StoryKind}
    (plain : draft.PlainFrom mark)
    (id : NodeId)
    (young : mark ≤ id.index)
    (isKind : draft.kind? id = some kind) :
    kind.isPlain = true := by
  apply plain
  rw [kind?_eq_getElem?] at isKind
  apply List.mem_of_getElem? (i := id.index - mark)
  rw [List.getElem?_drop, Nat.add_sub_cancel' young, isKind]

theorem keepOldest
    (plain : draft.PlainFrom mark)
    (count : Nat) :
    (draft.keepOldest count).PlainFrom mark := by
  intro kind member
  rw [kinds_keepOldest, List.drop_take] at member
  exact plain kind (List.mem_of_mem_take member)

theorem setSpans
    (plain : draft.PlainFrom mark)
    (span : Span)
    (ids : List NodeId) :
    (draft.setSpans span ids).PlainFrom mark := by
  simpa [PlainFrom] using plain

theorem add
    {kind : StoryKind}
    (plain : draft.PlainFrom mark)
    (isPlain : kind.isPlain = true)
    (span : Option Span) :
    (draft.add kind span).2.PlainFrom mark := by
  intro other member
  rw [kinds_add, List.drop_append, List.mem_append] at member
  rcases member with old | new
  · exact plain other old
  · have isNew := List.mem_of_mem_drop new
    rw [List.mem_singleton] at isNew
    rwa [isNew]

theorem amend
    (plain : draft.PlainFrom mark)
    (id : NodeId)
    (amendment : Amendment) :
    (draft.modify id amendment.apply).PlainFrom mark := by
  intro kind member
  obtain ⟨index, atIndex⟩ := List.mem_iff_getElem?.mp member
  rw [List.getElem?_drop, ← kind?_eq_getElem? _ ⟨mark + index⟩] at atIndex
  by_cases isThis : (⟨mark + index⟩ : NodeId) = id
  · simp only [kind?, isThis, slot?_modify, Option.map_map,
      Option.map_eq_some_iff, Function.comp_apply] at atIndex
    obtain ⟨slot, made, rfl⟩ := atIndex
    rw [NodeKind.isPlain_apply]
    refine plain.isPlain id (by simp [← isThis]) ?_
    simp [kind?, made]
  · refine plain.isPlain ⟨mark + index⟩ (Nat.le_add_right _ _) ?_
    rw [← atIndex]
    have apart : id.index ≠ mark + index := fun same => isThis (by simp [← same])
    simp [kind?, slot?, modify, Array.getElem?_modify, apart]

end Draft.PlainFrom

namespace Rule

variable
    {α : Type}
    {read : {γ : Type} → Construct γ → Action Workshop γ}
    {include_ : String → Action Workshop Inclusion}

theorem maintains_plainFrom
    (mark : Nat) :
    Host.Maintains fun workshop : Workshop => workshop.draft.PlainFrom mark where
  rewind _ plain := plain.keepOldest _
  commit nodes _ _ plain := plain.setSpans _ nodes
  deliver _ _ _ plain := plain

/-- Whatever a rule does that makes no weave and no gather leaves nodes plain. -/
theorem SparesWeaves.staysPlain
    {rule : GrammarRule α}
    (spares : rule.SparesWeaves)
    (supplies : Workshop.SuppliesPlain read include_) :
    (rule.run (Workshop.handle read include_)).StaysPlain := by
  intro mark machine atStart
  refine
    ends_of_performs (maintains_plainFrom mark) ?_ rule spares machine atStart
  intro γ operation machine allowed held
  cases operation with
  | make kind =>
      exact held.add allowed none
  | makeSpanning kind =>
      exact held.add allowed _
  | kindOf id =>
      simp only [Workshop.handle]
      split
      · exact held
      · trivial
  | amend id amendment =>
      simp only [Workshop.handle]
      apply Workshop.ensures_unlessMissing
      exact held.amend id amendment
  | survey id =>
      simp only [Workshop.handle]
      apply Workshop.ensures_unlessMissing
      exact held
  | spanOf id =>
      exact held
  | weave content =>
      exact allowed.elim
  | isInChoice =>
      exact held
  | setInChoice inChoice =>
      exact held
  | «include» file =>
      exact supplies.include_ file mark machine held
  | read construct =>
      exact supplies.read construct allowed mark machine held

end Rule

/-- Plain constructs are read by plain rules, however deep they nest. -/
theorem Workshop.suppliesPlain_readWithin
    {include_ : String → Action Workshop Inclusion}
    (includes : ∀ file, (include_ file).StaysPlain)
    (maxDepth levels : Nat) :
    SuppliesPlain (readWithin maxDepth include_ levels) include_ := by
  refine ⟨?_, includes⟩
  induction levels with
  | zero =>
      intro α construct _ mark machine _
      trivial
  | succ levels inductionHypothesis =>
      intro α construct plain
      exact (Grammar.sparesWeaves_rule plain).staysPlain ⟨inductionHypothesis, includes⟩

end InkSyntax

namespace InkSyntax

/-!
## What rules of statements make

Trees in order were made since a machine, and those made before it stay as they are.
-/

/-- Trees were made since a machine, with the gathers in them in order. -/
structure Machine.Arranges
    (origin : Cursor)
    (admits : Story → Prop)
    (before after : Machine Workshop)
    (roots : List NodeId) : Prop where
  reaches : origin.Reaches before.cursor
  proceeds : before.Proceeds after
  gains :
    Draft.Gains origin admits before.cursor.offset after.cursor.offset []
      before.host.draft after.host.draft roots
  arranged : after.host.draft.Arranged roots

namespace Machine.Arranges

variable
    {origin : Cursor}
    {admits : Story → Prop}
    {before middle after : Machine Workshop}
    {given roots : List NodeId}

theorem leads
    (arranges : Arranges origin admits before after roots) :
    before.Leads [] after :=
  ⟨arranges.proceeds, arranges.gains.spares⟩

theorem of_leads
    (reaches : origin.Reaches before.cursor)
    (leads : before.Leads [] after) :
    Arranges origin admits before after [] where
  reaches := reaches
  proceeds := leads.proceeds
  gains := ⟨leads.spares, [], .nil, by simp⟩
  arranged := by simp [Draft.Arranged]

theorem refl
    (reaches : origin.Reaches before.cursor) :
    Arranges origin admits before before [] :=
  .of_leads reaches (.refl [] before)

theorem further
    (arranges : Arranges origin admits before after roots) :
    origin.Reaches after.cursor :=
  arranges.reaches.trans arranges.proceeds.cursor

theorem fewer
    {some : List NodeId}
    (arranges : Arranges origin admits before after roots)
    (covers : Covers roots some) :
    Arranges origin admits before after some where
  reaches := arranges.reaches
  proceeds := arranges.proceeds
  gains := arranges.gains.subperm covers.subperm
  arranged := arranges.arranged.mono covers.subperm.subset

/-- Trees that were there stay in order while others are made. -/
theorem trans
    (first : Arranges origin admits before middle given)
    (second : Arranges origin admits middle after roots) :
    Arranges origin admits before after (roots ++ given) := by
  obtain ⟨spares, found, holdsFound, known⟩ := first.gains
  have offset_le := second.proceeds.cursor.offset_le
  have beside :=
    (second.gains.mono first.proceeds.cursor.offset_le (Nat.le_refl _)
      (List.Subset.refl [])).beside holdsFound offset_le (by simp)
  exact {
    reaches := first.reaches
    proceeds := first.proceeds.trans second.proceeds
    gains := beside.trans spares known
    arranged :=
      Draft.arranged_append.mpr
        ⟨second.arranged,
          first.arranged.spared holdsFound.forest second.gains.spares
            (by simp)⟩
  }

/-- Other runs leave trees in order. -/
theorem go
    (arranges : Arranges origin admits before middle given)
    (leads : middle.Leads [] after) :
    Arranges origin admits before after given :=
  arranges.trans (.of_leads arranges.further leads)

end Machine.Arranges

/-- An action takes trees whose gathers are in order, and gives such trees. -/
def Action.Arranges
    {α : Type}
    (origin : Cursor)
    (admits : Story → Prop)
    (given : List NodeId)
    (gives : α → List NodeId)
    (action : Action Workshop α) : Prop :=
  ∀ start machine : Machine Workshop,
    Machine.Arranges origin admits start machine given →
    (action machine).Guarantees
      (fun value after =>
        Machine.Arranges origin admits start after (gives value))
      (start.Leads [])

/-- How constructs and files are read leaves gathers in order. -/
structure Workshop.SuppliesArranged
    (origin : Cursor)
    (admits : Story → Prop)
    (read : {α : Type} → Construct α → Action Workshop α)
    (include_ : String → Action Workshop Inclusion) : Prop where
  supplies : Supplies origin admits read include_
  plain : SuppliesPlain read include_
  statements :
    ∀ place,
      Action.Arranges origin admits [] (fun ids => ids)
        (read (.statements place))

/-- An action on its own may run beside trees that were there. -/
theorem Action.arranges_of_alone
    {α : Type}
    {origin : Cursor}
    {admits : Story → Prop}
    {gives : α → List NodeId}
    {action : Action Workshop α}
    (alone :
      ∀ machine : Machine Workshop,
        origin.Reaches machine.cursor →
        (action machine).Guarantees
          (fun value after =>
            Machine.Arranges origin admits machine after (gives value))
          (machine.Leads []))
    (given : List NodeId) :
    Action.Arranges origin admits given (fun value => gives value ++ given)
      action := by
  intro start machine arranges
  refine (alone machine arranges.further).mono ?_ ?_
  · intro value after arrangesThen
    exact arranges.trans arrangesThen
  · intro after leads
    exact arranges.leads.trans leads

/-- Among plain nodes there are no gathers to be in order. -/
theorem Draft.Forest.arranged_of_isPlain
    {origin : Cursor}
    {admits : Story → Prop}
    {draft : Draft}
    {low high : Nat}
    {roots nodes : List NodeId}
    (forest : Forest origin admits draft low high roots nodes)
    (plain :
      ∀ id ∈ nodes, ∀ kind, draft.kind? id = some kind → kind.isPlain = true) :
    draft.Arranged roots ∧ draft.NoGathers roots := by
  have noGathers : draft.NoGathers nodes := by
    intro id member
    cases isKind : draft.kind? id with
    | none =>
        rfl
    | some kind =>
        have isPlain := plain id member kind isKind
        cases kind <;> first | rfl | cases isPlain
  refine
    ⟨forest.arranged_iff.mpr fun id member => ?_,
      fun id member => noGathers id (forest.mem_of_root member)⟩
  obtain ⟨slot, made, closed⟩ := forest.knows id member
  have isKind : draft.kind? id = some slot.kind := by
    simp [Draft.kind?, made]
  refine .of_none isKind ?_ fun child isChild => noGathers child (closed isChild)
  intro content base isWeave
  have isPlain := plain id member slot.kind isKind
  rw [isWeave] at isPlain
  cases isPlain

namespace Rule

variable {α β σ : Type}

/-- A rule takes trees whose gathers are in order, and gives such trees. -/
def Arranges
    (rule : GrammarRule α)
    (given : List NodeId)
    (gives : α → List NodeId) : Prop :=
  ∀ ⦃origin : Cursor⦄ ⦃admits : Story → Prop⦄
    ⦃read : {γ : Type} → Construct γ → Action Workshop γ⦄
    ⦃include_ : String → Action Workshop Inclusion⦄,
    Workshop.SuppliesArranged origin admits read include_ →
    Action.Arranges origin admits given gives
      (rule.run (Workshop.handle read include_))

variable
    {rule first : GrammarRule α}
    {next : α → GrammarRule β}
    {given known : List NodeId}
    {gives mid : α → List NodeId}

section Sequences

/-- What a rule arranges on its own, beside trees that were there. -/
theorem Arranges.frame
    (arranges : rule.Arranges [] gives)
    (given : List NodeId) :
    rule.Arranges given fun value => gives value ++ given := by
  intro origin admits read include_ supplies
  apply Action.arranges_of_alone
  exact fun machine reaches =>
    arranges supplies machine machine (.refl reaches)

theorem Arranges.bind
    {gives : β → List NodeId}
    (arranges : first.Arranges given mid)
    (then_ : ∀ value, (next value).Arranges (mid value) gives) :
    (first >>= next).Arranges given gives := by
  intro origin admits read include_ supplies start machine before
  refine guarantees_bind.mpr ((arranges supplies start machine before).mono ?_ ?_)
  · intro value middle held
    exact then_ value supplies start middle held
  · exact fun after leads => leads

theorem Arranges.then
    {gives : β → List NodeId}
    (arranges : first.Arranges [] mid)
    (then_ : ∀ value, (next value).Arranges (mid value ++ given) gives) :
    (first >>= next).Arranges given gives :=
  (arranges.frame given).bind then_

theorem Arranges.pure
    {value : α}
    (covers : Covers given (gives value)) :
    (Pure.pure value : GrammarRule α).Arranges given gives := by
  intro origin admits read include_ supplies start machine before
  exact before.fewer covers

theorem Arranges.fail :
    (Rule.fail : GrammarRule α).Arranges given gives := by
  intro origin admits read include_ supplies start machine before
  exact before.leads

theorem Arranges.attempt
    (gives : Option α → List NodeId)
    (arranges : rule.Arranges [] fun value => gives (some value))
    (nothing : gives none = []) :
    (Rule.attempt rule).Arranges [] gives := by
  intro origin admits read include_ supplies start machine before
  refine guarantees_attempt.mpr ((arranges supplies start machine before).mono ?_ ?_)
  · exact fun value after held => held
  · intro after leads
    rw [nothing]
    exact .of_leads before.reaches leads

theorem Arranges.loop
    {round : σ → GrammarRule (σ ⊕ α)}
    (held : σ → List NodeId)
    (arranges :
      ∀ state, (round state).Arranges (held state) (Sum.elim held gives))
    (state : σ) :
    (Rule.loop state round).Arranges (held state) gives := by
  intro origin admits read include_ supplies start machine before
  refine
    guarantees_loop
      (fun state after =>
        Machine.Arranges origin admits start after (held state))
      before ?_
  intro state middle now
  refine (arranges state supplies start middle now).mono ?_ fun _ leads => leads
  rintro (next | value) after later
  · exact later
  · exact later

/-- A rule that only reads hands on what it is given. -/
theorem Reads.arranges
    (reads : rule.Reads given) :
    rule.Arranges given fun _ => given := by
  intro origin admits read include_ supplies start machine before
  obtain ⟨-, found, holds, -⟩ := before.gains
  have ran :=
    reads supplies.supplies machine found before.further holds.forest.knows
      fun id root => holds.forest.mem_of_root root
  have leads
      {after : Machine Workshop}
      (kept :
        machine.Proceeds after ∧ after.host.draft = machine.host.draft) :
      machine.Leads [] after :=
    ⟨kept.1, kept.2 ▸ .refl [] _⟩
  refine ran.mono ?_ ?_
  · exact fun value after kept => before.go (leads kept)
  · exact fun after kept => before.leads.trans (leads kept)

/-- A rule that asks, and what comes after it. -/
theorem Arranges.ask
    {gives : β → List NodeId}
    (asks : first.Asks given)
    (then_ : ∀ value, (next value).Arranges given gives) :
    (first >>= next).Arranges given gives :=
  asks.reads.arranges.bind then_

end Sequences

section Scopes

theorem Arranges.parse
    [StandsFor α]
    [names : Names gives]
    (arranges : rule.Arranges [] gives) :
    (Rule.parse rule).Arranges [] gives := by
  suffices framed :
      (Rule.parse rule).Arranges [] fun value => gives value ++ [] by
    simpa using framed
  intro origin admits read include_ supplies
  apply Action.arranges_of_alone
  intro machine reaches
  have opens : origin.Reaches machine.opened.cursor := reaches
  refine guarantees_scope ?_
  refine
    (arranges supplies machine.opened machine.opened (.refl opens)).mono ?_ ?_
  · intro value after inside
    refine ⟨inside.proceeds, fun closed closes => ?_⟩
    exact {
      reaches := reaches
      proceeds := closes.toProceeds
      gains :=
        gains_of_keeps reaches inside.proceeds inside.gains closes
          (names.subset value)
      arranged := by
        rw [closes.host]
        exact inside.arranged.setSpans _ _
    }
  · intro after leads
    refine ⟨leads.proceeds, fun closed undoes => ⟨undoes.toProceeds, ?_⟩⟩
    rw [draft_of_undoes leads undoes]
    exact .refl _ _

theorem Arranges.tried
    [StandsFor α]
    [Names gives]
    (arranges : rule.Arranges [] gives) :
    (Rule.attempt (Rule.parse rule)).Arranges [] (ifThere gives) :=
  arranges.parse.attempt _ rfl

theorem Arranges.expectOr
    [StandsFor α]
    [Names gives]
    {recovery : GrammarRule α}
    (arranges : rule.Arranges [] gives)
    (recovers : recovery.Arranges [] gives)
    (description : String) :
    (Rule.expectOr rule description recovery).Arranges [] gives := by
  refine .then arranges.tried ?_
  rintro (_ | value)
  · exact .ask (by simp) fun _ => recovers
  · exact .pure (by simp [Covers])

theorem Arranges.firstOf
    [StandsFor α]
    [Names gives]
    {rules : List (GrammarRule α)}
    (arranges : ∀ rule ∈ rules, rule.Arranges [] gives) :
    (oneOf.firstOf rules).Arranges [] gives := by
  induction rules with
  | nil =>
      exact .fail
  | cons rule others inductionHypothesis =>
      obtain ⟨first, rest⟩ := List.forall_mem_cons.mp arranges
      refine .then first.tried ?_
      rintro (_ | value)
      · exact inductionHypothesis rest
      · exact .pure (by simp [Covers])

theorem Arranges.oneOf
    [StandsFor α]
    [Names gives]
    {rules : List (GrammarRule α)}
    (arranges : ∀ rule ∈ rules, rule.Arranges [] gives) :
    (Rule.oneOf rules).Arranges [] gives :=
  (Arranges.firstOf arranges).parse

end Scopes

section Alternation

variable
    {outer inner : GrammarRule (Step NodeId)}
    {stop : GrammarRule β}

instance : Names (Step.values (α := NodeId)) :=
  ⟨fun _ _ member => member⟩

theorem Arranges.alternateRound
    (outerArranges : outer.Arranges [] Step.values)
    (innerArranges : inner.Arranges [] Step.values)
    (reads : ∀ known, (peek stop).Reads known)
    (found : List NodeId) :
    (alternateRound outer inner stop found).Arranges found
      (Sum.elim (fun ids => ids) fun ids => ids) := by
  unfold Rule.alternateRound
  refine (reads _).arranges.bind fun stops => ?_
  split
  · exact .pure (by simp [Covers])
  · refine .then innerArranges.tried ?_
    rintro (_ | main)
    · exact .pure (by simp [Covers])
    · refine .then outerArranges.tried ?_
      rintro (_ | next)
      · exact .pure (by simp [Covers]; omega)
      · refine .ask (by simp) fun isEnd => ?_
        split
        · exact .pure (by simp [Covers]; omega)
        · exact .pure (by simp [Covers]; omega)

theorem Arranges.alternateUntil
    (outerArranges : outer.Arranges [] Step.values)
    (innerArranges : inner.Arranges [] Step.values)
    (reads : ∀ known, (peek stop).Reads known) :
    (Rule.alternateUntil outer inner stop).Arranges [] fun ids => ids := by
  refine Arranges.parse (.then outerArranges.parse fun first => ?_)
  rw [List.append_nil]
  refine
    .bind
      (.loop (fun ids => ids)
        (.alternateRound outerArranges innerArranges reads) first.values)
      fun found => ?_
  split
  · exact .fail
  · exact .pure (by simp [Covers])

end Alternation

section PlainRules

/-- What such a rule makes is in order, and none of it is a gather. -/
theorem SparesWeaves.guarantees
    {origin : Cursor}
    {admits : Story → Prop}
    {read : {γ : Type} → Construct γ → Action Workshop γ}
    {include_ : String → Action Workshop Inclusion}
    (spares : rule.SparesWeaves)
    (builds : rule.Builds gives)
    (supplies : Workshop.SuppliesArranged origin admits read include_)
    (machine : Machine Workshop)
    (reaches : origin.Reaches machine.cursor) :
    (rule.run (Workshop.handle read include_) machine).Guarantees
      (fun value after =>
        Machine.Arranges origin admits machine after (gives value) ∧
          after.host.draft.NoGathers (gives value))
      (machine.Leads []) := by
  have ran :=
    builds supplies.supplies machine machine.cursor.offset [] reaches
      (Nat.le_refl _) .nil
  have stays :=
    spares.staysPlain supplies.plain machine.host.draft.size machine
      (.of_size _)
  refine (ran.and_ensures stays).mono ?_ fun after held => held.1
  rintro value after ⟨⟨proceeds, gains⟩, isPlain⟩
  obtain ⟨-, found, holds, known⟩ := id gains
  obtain ⟨arranged, noGathers⟩ :=
    holds.forest.arranged_of_isPlain fun id member kind isKind =>
      isPlain.isPlain id ((known id member).resolve_left List.not_mem_nil)
        isKind
  exact ⟨⟨reaches, proceeds, gains, arranged⟩, noGathers⟩

theorem SparesWeaves.arranges
    (spares : rule.SparesWeaves)
    (builds : rule.Builds gives) :
    rule.Arranges [] gives := by
  suffices framed : rule.Arranges [] fun value => gives value ++ [] by
    simpa using framed
  intro origin admits read include_ supplies
  apply Action.arranges_of_alone
  intro machine reaches
  exact
    (spares.guarantees builds supplies machine reaches).mono
      (fun _ _ held => held.1) fun _ leads => leads

end PlainRules

end Rule

end InkSyntax
