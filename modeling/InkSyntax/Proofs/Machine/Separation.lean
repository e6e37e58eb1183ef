import InkSyntax.Machine.Repetition
import InkSyntax.Proofs.Machine.Allocation

namespace InkSyntax

/-!
# What a list with separators reads

A list reads its first item and then, round after round, a separator with an item behind
it.  Each round is a scope of its own, so a separator without an item behind it is undone
together with whatever was tried behind it.  The items are written down here as they are
run, up to the first place where none goes on; a list reads exactly these and ends in the
place directly behind the last of them.
-/

namespace Rule

open Machine (SamePlace)

section Items

variable
    {E : Type → Type 1}
    {H : Type}
    [Host H]
    {α β : Type}
    [StandsFor α]
    [StandsFor β]
    (handle : {γ : Type} → E γ → Action H γ)
    (item : Rule E α)
    (separator : Rule E β)

/-- No further item can be read from a machine on. -/
inductive EndsList (machine : Machine H) : Prop where
  | separatorFails
      {after : Machine H}
      (fails : (parse separator).run handle machine.opened = .failed after) :
      EndsList machine
  /-- There is a separator, but no item behind it. -/
  | itemFails
      {between after : Machine H}
      {mark : β}
      (separates : (parse separator).run handle machine.opened = .matched mark between)
      (fails : (parse item).run handle between = .failed after) :
      EndsList machine

/-- Items with separators in front of them, as many as there are from a machine on.

The second machine stands directly behind the item before them, the last one directly
behind the last item. -/
inductive FurtherItems : Machine H → Machine H → List α → Machine H → Prop where
  | ends
      {machine behind : Machine H}
      (ends : EndsList handle item separator machine) :
      FurtherItems machine behind [] behind
  | again
      {machine behind between next closed reached : Machine H}
      {mark : β}
      {value : α}
      {others : List α}
      (separates : (parse separator).run handle machine.opened = .matched mark between)
      (reads : (parse item).run handle between = .matched value next)
      (kept : next.commitScope machine.nextRule [] = .ok closed)
      (further : FurtherItems closed next others reached) :
      FurtherItems machine behind (value :: others) reached

/-- All items of a list from a machine on, and the machine directly behind the last one. -/
inductive ListItems (machine : Machine H) : List α → Machine H → Prop where
  | intro
      {next reached : Machine H}
      {first : α}
      {others : List α}
      (reads : (parse item).run handle machine = .matched first next)
      (further : FurtherItems handle item separator next next others reached) :
      ListItems machine (first :: others) reached

variable {handle item separator}

/-- Where the list ends, no separator has an item behind it. -/
theorem EndsList.not_separates
    {machine between next : Machine H}
    {mark : β}
    {value : α}
    (ends : EndsList handle item separator machine)
    (separates : (parse separator).run handle machine.opened = .matched mark between) :
    (parse item).run handle between ≠ .matched value next := by
  intro reads
  cases ends with
  | separatorFails fails =>
      cases separates.symm.trans fails
  | itemFails separatesToo fails =>
      obtain ⟨-, rfl⟩ := Outcome.matched.inj (separates.symm.trans separatesToo)
      cases reads.symm.trans fails

/-- A rule runs in one way only, so there is one way for further items to go. -/
theorem FurtherItems.unique
    {machine behind reached reached' : Machine H}
    {items items' : List α}
    (further : FurtherItems handle item separator machine behind items reached)
    (others : FurtherItems handle item separator machine behind items' reached') :
    items = items' ∧ reached = reached' := by
  induction further generalizing items' with
  | ends ends =>
      cases others with
      | ends =>
          exact ⟨rfl, rfl⟩
      | again separates reads =>
          exact absurd reads (ends.not_separates separates)
  | again separates reads kept further inductionHypothesis =>
      cases others with
      | ends ends =>
          exact absurd reads (ends.not_separates separates)
      | again separatesToo readsToo keptToo furtherToo =>
          obtain ⟨-, rfl⟩ := Outcome.matched.inj (separates.symm.trans separatesToo)
          obtain ⟨rfl, rfl⟩ := Outcome.matched.inj (reads.symm.trans readsToo)
          obtain rfl := Except.ok.inj (kept.symm.trans keptToo)
          obtain ⟨rfl, rfl⟩ := inductionHypothesis furtherToo
          exact ⟨rfl, rfl⟩

theorem ListItems.unique
    {machine reached reached' : Machine H}
    {items items' : List α}
    (listed : ListItems handle item separator machine items reached)
    (others : ListItems handle item separator machine items' reached') :
    items = items' ∧ reached = reached' := by
  obtain ⟨reads, further⟩ := listed
  obtain ⟨readsToo, furtherToo⟩ := others
  obtain ⟨rfl, rfl⟩ := Outcome.matched.inj (reads.symm.trans readsToo)
  obtain ⟨rfl, rfl⟩ := further.unique furtherToo
  exact ⟨rfl, rfl⟩

end Items

section Running

variable
    {E : Type → Type 1}
    {H δ : Type}
    [Host H]
    {α β : Type}
    [StandsFor α]
    [StandsFor β]
    {allocations : H → List δ}
    {handle : {γ : Type} → E γ → Action H γ}
    (allocates : Host.Allocates allocations)
    (extending : Extending allocations handle)

/-- One round of a list: a separator and an item behind it, or neither. -/
def itemRound
    (item : Rule E α)
    (separator : Rule E β)
    (found : List α) : Rule E (List α ⊕ List α) := do
  let next ← attempt <| scope (fun _ => .keep []) do
    let _ ← parse separator
    parse item
  match next with
  | some value => return .inl (value :: found)
  | none => return .inr found.reverse

/-- A list is its first item and then rounds. -/
theorem separated_eq
    (item : Rule E α)
    (separator : Rule E β) :
    separated item separator =
      (do
        let first ← parse item
        loop [first] (itemRound item separator)) :=
  rfl

include allocates extending

/-- A round reads a separator and an item and keeps both, or it ends where it started. -/
theorem ensures_separatorAndItem
    (item : Rule E α)
    (separator : Rule E β)
    (machine : Machine H) :
    ((scope (fun _ => .keep []) (do
        let _ ← parse separator
        parse item) : Rule E α).run handle machine).Ensures
      (fun value after =>
        ∃ mark between next,
          (parse separator).run handle machine.opened = .matched mark between ∧
            (parse item).run handle between = .matched value next ∧
            next.commitScope machine.nextRule [] = .ok after ∧
            SamePlace allocations next after)
      (fun after =>
        EndsList handle item separator machine ∧
          SamePlace allocations machine after) := by
  refine (ensures_kept_place allocates extending (fun _ => []) _ machine).mono ?_ ?_
  · rintro value after ⟨next, ran, kept, place⟩
    obtain ⟨mark, between, separates, reads⟩ := Outcome.andThen_eq_matched_iff.mp ran
    exact ⟨mark, between, next, separates, reads, kept, place⟩
  · rintro after ⟨⟨inside, ran⟩, place⟩
    refine ⟨?_, place⟩
    rcases Outcome.andThen_eq_failed_iff.mp ran with fails | ⟨mark, between, separates, fails⟩
    · exact .separatorFails fails
    · exact .itemFails separates fails

/-- A round goes on behind one more item, or the list ends where the round started. -/
theorem ensures_itemRound
    (item : Rule E α)
    (separator : Rule E β)
    (found : List α)
    (machine : Machine H) :
    ((itemRound item separator found).run handle machine).Ensures
      (fun result after =>
        match result with
        | .inl further =>
            ∃ value next,
              further = value :: found ∧
                SamePlace allocations next after ∧
                ∀ behind others reached,
                  FurtherItems handle item separator after next others reached →
                  FurtherItems handle item separator machine behind (value :: others)
                    reached
        | .inr values =>
            values = found.reverse ∧
              EndsList handle item separator machine ∧
              SamePlace allocations machine after)
      (fun _ => False) := by
  refine ensures_bind.mpr (ensures_attempt.mpr ?_)
  refine
    (ensures_separatorAndItem allocates extending item separator machine).mono ?_ ?_
  · rintro value after ⟨mark, between, next, separates, reads, kept, place⟩
    exact
      ⟨value, next, rfl, place, fun behind others reached further =>
        .again separates reads kept further⟩
  · rintro after ⟨ends, place⟩
    exact ⟨rfl, ends, place⟩

/-- All rounds together read the further items, and end behind the last one. -/
theorem ensures_itemRounds
    {item : Rule E α}
    {separator : Rule E β}
    {start machine : Machine H}
    {first : α}
    (reads : (parse item).run handle start = .matched first machine) :
    ((loop [first] (itemRound item separator)).run handle machine).Ensures
      (fun values after =>
        ∃ reached,
          ListItems handle item separator start values reached ∧
            SamePlace allocations reached after)
      (fun _ => False) := by
  -- Whatever items come from here on, those found so far stand in front of them.
  refine
    ensures_loop
      (fun found middle =>
        ∃ behind,
          SamePlace allocations behind middle ∧
            ∀ others reached,
              FurtherItems handle item separator middle behind others reached →
              ListItems handle item separator start (found.reverse ++ others) reached)
      ⟨machine, .refl machine, fun _ _ further => .intro reads further⟩ ?_
  rintro found middle ⟨behind, place, extend⟩
  refine
    (ensures_itemRound allocates extending item separator found middle).mono ?_
      fun _ => id
  rintro (further | values) after
  · rintro ⟨value, next, rfl, nextPlace, goesOn⟩
    refine ⟨next, nextPlace, fun others reached items => ?_⟩
    rw [List.reverse_cons, List.append_assoc]
    exact extend _ _ (goesOn behind others reached items)
  · rintro ⟨rfl, ends, undone⟩
    have listed := extend [] behind (.ends ends)
    rw [List.append_nil] at listed
    exact ⟨behind, listed, place.trans undone⟩

/-- A list ends directly behind its last item, or else where it started. -/
theorem ensures_separated
    (item : Rule E α)
    (separator : Rule E β)
    (machine : Machine H) :
    ((separated item separator).run handle machine).Ensures
      (fun values after =>
        ∃ reached,
          ListItems handle item separator machine values reached ∧
            SamePlace allocations reached after)
      (fun after =>
        (parse item).run handle machine = .failed after ∧
          SamePlace allocations machine after) := by
  rw [separated_eq]
  refine ensures_bind.mpr (Outcome.ensures_iff.mpr ⟨?_, ?_⟩)
  · intro first next reads
    exact
      (ensures_itemRounds allocates extending reads).mono (fun _ _ => id)
        fun _ => False.elim
  · intro after fails
    exact ⟨fails, samePlace_of_failed allocates extending fails⟩

/-- A list fails exactly if its first item does. -/
theorem separated_run_failed_iff
    {item : Rule E α}
    {separator : Rule E β}
    {machine : Machine H} :
    (∃ after, (separated item separator).run handle machine = .failed after) ↔
      ∃ behind, (parse item).run handle machine = .failed behind := by
  have ensures :=
    Outcome.ensures_iff.mp (ensures_separated allocates extending item separator machine)
  constructor
  · rintro ⟨after, failed⟩
    exact ⟨after, (ensures.2 after failed).1⟩
  · rintro ⟨behind, fails⟩
    exact ⟨behind, Outcome.andThen_eq_failed_iff.mpr (.inl fails)⟩

end Running

end Rule

end InkSyntax
