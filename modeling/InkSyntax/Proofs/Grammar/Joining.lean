import InkSyntax.Grammar.Expression
import InkSyntax.Proofs.Grammar.Building

namespace InkSyntax

/-!
# Joining operands

An operator joins the operand to its left, which was read before its scope began,
with one that is read inside.  The scope must not give its own span to the two,
because the left one lies before it; and it does not, because both operands have
spans and the node above them gets the span that covers these.
-/

namespace Rule

variable {α β σ : Type}

/-- A rule that takes trees whose roots have spans, and gives such trees. -/
def Joins
    (rule : GrammarRule α)
    (given : List NodeId)
    (gives : α → List NodeId) : Prop :=
  ∀ ⦃origin : Cursor⦄ ⦃admits : Story → Prop⦄
    ⦃read : {γ : Type} → Construct γ → Action Workshop γ⦄
    ⦃include_ : String → Action Workshop Inclusion⦄,
    Workshop.Supplies origin admits read include_ →
    ∀ (machine : Machine Workshop) (low : Nat) (nodes : List NodeId),
      origin.Reaches machine.cursor →
      low ≤ machine.cursor.offset →
      machine.host.draft.Holds origin admits low machine.cursor.offset given
        nodes →
      machine.host.draft.Spanned given →
      (rule.run (Workshop.handle read include_) machine).Guarantees
        (fun value after =>
          machine.Proceeds after ∧
            Draft.Gains origin admits low after.cursor.offset nodes
              machine.host.draft after.host.draft (gives value) ∧
            after.host.draft.Spanned (gives value))
        (machine.Leads nodes)

variable
    {rule first : GrammarRule α}
    {next : α → GrammarRule β}
    {given : List NodeId}
    {gives : α → List NodeId}

/-- Nodes that a scope made have spans when it closes. -/
theorem Builds.spanned_parse
    [StandsFor α]
    [names : Names gives]
    (builds : rule.Builds gives)
    {origin : Cursor}
    {admits : Story → Prop}
    {read : {γ : Type} → Construct γ → Action Workshop γ}
    {include_ : String → Action Workshop Inclusion}
    (supplies : Workshop.Supplies origin admits read include_)
    {machine : Machine Workshop}
    (reaches : origin.Reaches machine.cursor) :
    ((Rule.parse rule).run (Workshop.handle read include_)
        machine).Guarantees
      (fun value after => after.host.draft.Spanned (StandsFor.nodes value))
      fun _ => True := by
  refine guarantees_scope ?_
  have ran :=
    builds supplies machine.opened machine.cursor.offset [] reaches
      (Nat.le_refl _) .nil
  refine ran.mono ?_ ?_
  · rintro value after ⟨proceeds, spares, found, holdsFound, known⟩
    refine ⟨proceeds, fun closed closes => ?_⟩
    rw [closes.host]
    apply Draft.spanned_setSpans
    intro id member
    have isRoot := names.subset value member
    exact holdsFound.forest.lt_size (holdsFound.forest.mem_of_root isRoot)
  · intro after leads
    exact ⟨leads.proceeds, fun _ _ => trivial⟩

/-- A node read in a scope of its own, and what joins it to others. -/
theorem Joins.behind_parse
    {rule : GrammarRule NodeId}
    {next : NodeId → GrammarRule β}
    {gives : β → List NodeId}
    (builds : rule.Builds fun id => [id])
    (joins : ∀ id, (next id).Joins [id] gives) :
    (parse rule >>= next).Builds gives := by
  intro origin admits read include_ supplies machine low nodes reaches low_le
    holds
  refine guarantees_bind.mpr ?_
  have ran :=
    (builds.parse supplies machine low nodes reaches low_le holds).and
      (builds.spanned_parse supplies reaches)
  refine ran.mono ?_ fun after kept => kept.1
  rintro id middle ⟨⟨proceeds, spares, found, holdsFound, known⟩, spanned⟩
  have joined :=
    joins id supplies middle low found (reaches.trans proceeds.cursor)
      (Nat.le_trans low_le proceeds.cursor.offset_le) holdsFound spanned
  refine joined.mono ?_ ?_
  · rintro value after ⟨proceedsThen, gains, -⟩
    exact ⟨proceeds.trans proceedsThen, gains.trans spares known⟩
  · intro after leads
    exact ⟨proceeds.trans leads.proceeds, spares.follow known leads.spares⟩

/-- A node read in a scope of its own stands with its span beside others. -/
theorem Builds.joins_parse
    {rule : GrammarRule NodeId}
    (builds : rule.Builds fun id => [id])
    (given : List NodeId) :
    (Rule.parse rule).Joins given fun id => [id] ++ given := by
  intro origin admits read include_ supplies machine low nodes reaches low_le
    holds spanned
  have ran :=
    (builds.parse supplies machine low [] reaches low_le .nil).and
      (builds.spanned_parse supplies reaches)
  refine ran.mono ?_ ?_
  · rintro id after ⟨⟨proceeds, gains⟩, spannedRead⟩
    have beside :=
      gains.beside holds proceeds.cursor.offset_le (List.disjoint_nil_left _)
    have spannedStill := spanned.spared gains.spares (by simp)
    refine ⟨proceeds, beside, fun other member => ?_⟩
    rcases List.mem_append.mp member with isRead | isGiven
    · exact spannedRead other isRead
    · exact spannedStill other isGiven
  · rintro after ⟨leads, -⟩
    exact leads.mono (List.nil_subset _)

theorem Joins.weaken
    {fewer : α → List NodeId}
    {more : List NodeId}
    (joins : rule.Joins given gives)
    (same : more.Perm given)
    (gives_covers : ∀ value, Covers (gives value) (fewer value)) :
    rule.Joins more fewer := by
  intro origin admits read include_ supplies machine low nodes reaches low_le
    holds spanned
  obtain ⟨found, holdsFound, foundFewer⟩ := holds.subperm same.symm.subperm
  have ran :=
    joins supplies machine low found reaches low_le holdsFound fun id member =>
      spanned id (same.mem_iff.mpr member)
  refine ran.mono ?_ ?_
  · rintro value after ⟨proceeds, gains, spannedAfter⟩
    refine ⟨proceeds, ?_, fun id member => ?_⟩
    · exact
        (gains.mono (Nat.le_refl _) (Nat.le_refl _) foundFewer.subset).subperm
          (gives_covers value).subperm
    · exact spannedAfter id ((gives_covers value).subperm.subset member)
  · intro after leads
    exact leads.mono foundFewer.subset

theorem Joins.bind
    {mid : α → List NodeId}
    {gives : β → List NodeId}
    (joins : first.Joins given mid)
    (then_ : ∀ value, (next value).Joins (mid value) gives) :
    (first >>= next).Joins given gives := by
  intro origin admits read include_ supplies machine low nodes reaches low_le
    holds spanned
  refine guarantees_bind.mpr ?_
  refine (joins supplies machine low nodes reaches low_le holds spanned).mono ?_ ?_
  · rintro value middle ⟨proceeds, ⟨spares, found, holdsFound, known⟩, spannedMid⟩
    have ran :=
      then_ value supplies middle low found (reaches.trans proceeds.cursor)
        (Nat.le_trans low_le proceeds.cursor.offset_le) holdsFound spannedMid
    refine ran.mono ?_ ?_
    · rintro result after ⟨proceedsThen, gains, spannedThen⟩
      exact ⟨proceeds.trans proceedsThen, gains.trans spares known, spannedThen⟩
    · intro after leads
      exact ⟨proceeds.trans leads.proceeds, spares.follow known leads.spares⟩
  · intro after leads
    exact leads

theorem Joins.pure
    {value : α}
    (given_eq : given = gives value) :
    (Pure.pure value : GrammarRule α).Joins given gives := by
  subst given_eq
  intro origin admits read include_ supplies machine low nodes reaches low_le
    holds spanned
  exact ⟨.refl machine, holds.gains, spanned⟩

theorem Joins.fail :
    (Rule.fail : GrammarRule α).Joins given gives := by
  intro origin admits read include_ supplies machine low nodes reaches low_le
    holds spanned
  exact .refl nodes machine

/-- A rule that asks leaves spans as they are. -/
theorem Asks.joins
    (asks : rule.Asks given) :
    rule.Joins given fun _ => given := by
  intro origin admits read include_ supplies machine low nodes reaches low_le
    holds spanned
  have ran :=
    asks.reads supplies machine nodes reaches holds.forest.knows
      fun id root => holds.forest.mem_of_root root
  refine ran.mono ?_ ?_
  · rintro value after ⟨proceeds, same⟩
    rw [same]
    exact
      ⟨proceeds,
        (holds.mono (Nat.le_refl _) proceeds.cursor.offset_le).gains, spanned⟩
  · rintro after ⟨proceeds, same⟩
    exact ⟨proceeds, by rw [same]; exact .refl _ _⟩

theorem Joins.attempt
    (joins : rule.Joins given gives) :
    (Rule.attempt rule).Joins given (ifThere gives) := by
  intro origin admits read include_ supplies machine low nodes reaches low_le
    holds spanned
  refine guarantees_attempt.mpr ?_
  refine (joins supplies machine low nodes reaches low_le holds spanned).mono ?_ ?_
  · intro value after joined
    exact joined
  · intro after leads
    exact
      ⟨leads.proceeds, ⟨leads.spares, [], .nil, by simp⟩, by simp [Draft.Spanned]⟩

theorem Joins.loop
    {round : σ → GrammarRule (σ ⊕ α)}
    (held : σ → List NodeId)
    (joins : ∀ state, (round state).Joins (held state) (Sum.elim held gives))
    (state : σ) :
    (Rule.loop state round).Joins (held state) gives := by
  intro origin admits read include_ supplies machine low nodes reaches low_le
    holds spanned
  refine
    guarantees_loop
      (fun state after =>
        machine.Proceeds after ∧
          Draft.Gains origin admits low after.cursor.offset nodes
            machine.host.draft after.host.draft (held state) ∧
          after.host.draft.Spanned (held state))
      ⟨.refl machine, holds.gains, spanned⟩ ?_
  rintro state middle
    ⟨proceeds, ⟨spares, found, holdsFound, known⟩, spannedMid⟩
  have ran :=
    joins state supplies middle low found (reaches.trans proceeds.cursor)
      (Nat.le_trans low_le proceeds.cursor.offset_le) holdsFound spannedMid
  refine ran.mono ?_ ?_
  · rintro result after ⟨proceedsThen, gains, spannedThen⟩
    cases result <;>
      exact ⟨proceeds.trans proceedsThen, gains.trans spares known, spannedThen⟩
  · intro after leads
    exact ⟨proceeds.trans leads.proceeds, spares.follow known leads.spares⟩

/-- A scope keeps the spans of the nodes that it names, which have one already. -/
theorem Joins.parse
    [StandsFor α]
    [names : Names gives]
    (joins : rule.Joins given gives) :
    (Rule.parse rule).Joins given gives := by
  intro origin admits read include_ supplies machine low nodes reaches low_le
    holds spanned
  refine guarantees_scope ?_
  have ran :=
    joins supplies machine.opened low nodes reaches low_le holds spanned
  refine ran.mono ?_ ?_
  · rintro value after ⟨proceeds, gains, spannedAfter⟩
    refine ⟨proceeds, fun closed closes => ⟨closes.toProceeds, ?_⟩⟩
    have same : closed.host.draft = after.host.draft := by
      rw [closes.host]
      exact
        Draft.setSpans_of_spanned fun id member =>
          spannedAfter id (names.subset value member)
    rw [same, closes.closed_cursor]
    exact ⟨gains, spannedAfter⟩
  · intro after leads
    refine ⟨leads.proceeds, fun closed undoes => ⟨undoes.toProceeds, ?_⟩⟩
    rw [undoes.host]
    exact leads.spares.rewind

theorem Joins.expect
    [StandsFor α]
    [Names gives]
    (joins : rule.Joins given gives)
    (description : String) :
    (Rule.expect rule description).Joins given gives := by
  refine .bind joins.parse.attempt ?_
  rintro (_ | value)
  · exact .bind (asks_reportExpected description).joins fun _ => .fail
  · exact .pure rfl

end Rule

namespace Grammar

open Rule (attempt parse)

variable {known : List NodeId}

@[simp] theorem asks_infixOperator :
    infixOperator.Asks known := by
  unfold infixOperator
  refine ⟨by simp, fun isArrow => ⟨by simp, fun _ => ?_⟩⟩
  apply Rule.asks_firstOf
  · intro rule member
    obtain ⟨candidate, -, rfl⟩ := List.mem_map.mp member
    simp only [Rule.asks_bind, Rule.asks_literal, true_and]
    intro _
    split <;> simp
  · exact fun _ => rfl

/-- Two operands with spans give a node that spans both. -/
theorem joins_binary
    (left right : NodeId)
    (op : BinaryOp) :
    (Rule.effect (.makeSpanning (.binary left op right)) :
      GrammarRule NodeId).Joins [left, right] fun id => [id] := by
  intro origin admits read include_ supplies machine low nodes reaches low_le
    holds spanned
  obtain ⟨leftSpan, isLeft⟩ := spanned left (by simp)
  obtain ⟨rightSpan, isRight⟩ := spanned right (by simp)
  refine ⟨.work machine _, holds.gains_addSpanning (by simp), ?_⟩
  intro id member
  rw [List.mem_singleton.mp member]
  have made :=
    Draft.slot?_add machine.host.draft (.binary left op right)
      (machine.host.draft.cover? [left, right])
  have covered :
      machine.host.draft.cover? [left, right] =
        some (leftSpan.cover rightSpan) := by
    simp [Draft.cover?, isLeft, isRight]
  exact
    ⟨leftSpan.cover rightSpan,
      (congrArg (Option.bind · Slot.span) made).trans covered⟩

/-- The right side is read behind the left one, and joined to it. -/
theorem joins_rightSide
    (left : NodeId)
    (operator : Infix) :
    (rightSide left operator).Joins [left] fun id => [id] := by
  refine .bind asks_skipBlanks.joins fun _ => ?_
  have reads :
      (Rule.effect (.read (.expression operator.strength))).Builds
        fun id => [id] :=
    Rule.builds_construct (.expression operator.strength)
  refine .bind (reads.joins_parse [left]) fun right => ?_
  exact
    (joins_binary left right operator.op).weaken (List.Perm.swap left right [])
      fun _ _ => Nat.le_refl _

/-- What an attempt to extend an expression gives. -/
def Extension.nodes (left : NodeId) : Extension → List NodeId
  | .grown expression => [expression]
  | .broken => []
  | .ended => [left]

/-- A scope that only asked leaves the draft as it was when it is undone. -/
theorem draft_of_asked
    {machine after closed : Machine Workshop}
    (proceeds : machine.opened.Proceeds after)
    (same : after.host.draft = machine.host.draft)
    (undoes : machine.Undoes after closed) :
    closed.host.draft = machine.host.draft := by
  apply Rule.draft_of_undoes ⟨proceeds, ?_⟩ undoes
  rw [same]
  exact .refl _ _

/-- The scope around an operator is kept if the expression grew, and undone otherwise. -/
theorem joins_extend
    (weakerThan : Nat)
    (left : NodeId) :
    (extend weakerThan left).Joins [left] (Extension.nodes left) := by
  intro origin admits read include_ supplies machine low nodes reaches low_le
    holds spanned
  refine Rule.guarantees_scope ?_
  have tried : (attempt infixOperator).Asks [left] := by
    simp
  have asked :=
    tried.reads supplies machine.opened nodes reaches holds.forest.knows
      fun id root => holds.forest.mem_of_root root
  have ended
      {after : Machine Workshop}
      (proceeds : machine.opened.Proceeds after)
      (same : after.host.draft = machine.host.draft)
      (closed : Machine Workshop)
      (undoes : machine.Undoes after closed) :
      machine.Proceeds closed ∧
        Draft.Gains origin admits low closed.cursor.offset nodes
          machine.host.draft closed.host.draft [left] ∧
        closed.host.draft.Spanned [left] := by
    rw [draft_of_asked proceeds same undoes]
    have further := undoes.toProceeds.cursor.offset_le
    exact
      ⟨undoes.toProceeds, (holds.mono (Nat.le_refl _) further).gains, spanned⟩
  refine Rule.guarantees_bind.mpr (asked.mono ?_ ?_)
  · rintro (_ | operator) middle ⟨proceeds, same⟩
    · exact ⟨proceeds, ended proceeds same⟩
    · simp only
      split
      · have further : low ≤ middle.cursor.offset :=
          Nat.le_trans low_le proceeds.cursor.offset_le
        have holdsMiddle :
            middle.host.draft.Holds origin admits low middle.cursor.offset
              [left] nodes := by
          rw [same]
          exact holds.mono (Nat.le_refl _) proceeds.cursor.offset_le
        have joined (description : String) :=
          ((joins_rightSide left operator).expect description).attempt supplies
            middle low nodes (reaches.trans proceeds.cursor) further holdsMiddle
            (by rw [same]; exact spanned)
        rw [same] at joined
        refine Rule.guarantees_bind.mpr ((joined _).mono ?_ ?_)
        · rintro (_ | binary) after ⟨proceedsThen, gains, spannedBinary⟩
          · refine ⟨proceeds.trans proceedsThen, fun closed undoes => ?_⟩
            refine ⟨undoes.toProceeds, ⟨?_, [], .nil, by simp⟩, ?_⟩
            · rw [undoes.host]
              exact gains.spares.rewind
            · simp [Draft.Spanned, Extension.nodes]
          · refine ⟨proceeds.trans proceedsThen, fun closed closes => ?_⟩
            have kept : closed.host.draft = after.host.draft := by
              rw [closes.host]
              exact Draft.setSpans_of_spanned spannedBinary
            rw [kept, closes.closed_cursor]
            exact ⟨closes.toProceeds, gains, spannedBinary⟩
        · intro after leads
          refine
            ⟨proceeds.trans leads.proceeds, fun closed undoes =>
              ⟨undoes.toProceeds, ?_⟩⟩
          rw [undoes.host]
          have spares := leads.spares
          rw [same] at spares
          exact spares.rewind
      · exact ⟨proceeds, ended proceeds same⟩
  · rintro after ⟨proceeds, same⟩
    refine ⟨proceeds, fun closed undoes => ⟨undoes.toProceeds, ?_⟩⟩
    rw [draft_of_asked proceeds same undoes]
    exact .refl _ _

/-- Operators extend the first operand again and again. -/
theorem builds_expressionAbove
    (weakerThan : Nat) :
    (expressionAbove weakerThan).Builds fun id => [id] := by
  refine .ask asks_skipBlanks fun _ => ?_
  refine Rule.Joins.behind_parse (Rule.builds_construct .operand) fun first => ?_
  refine .bind asks_skipBlanks.joins fun _ => ?_
  have rounds :
      (Rule.loop first fun left => do
        match ← extend weakerThan left with
        | .grown binary => return .inl binary
        | .broken => Rule.fail
        | .ended => return (.inr left : NodeId ⊕ NodeId)).Joins [first]
          fun id => [id] := by
    refine .loop (fun id => [id]) (fun left => ?_) first
    refine .bind (joins_extend weakerThan left) ?_
    rintro (binary | _ | _)
    · exact .pure rfl
    · exact .fail
    · exact .pure rfl
  refine .bind rounds fun whole => ?_
  refine .bind asks_skipBlanks.joins fun _ => ?_
  exact .pure rfl

end Grammar

end InkSyntax
