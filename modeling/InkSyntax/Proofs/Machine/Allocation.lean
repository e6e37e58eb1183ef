import InkSyntax.Proofs.Machine.Guarantee

namespace InkSyntax

/-!
# What a run allocates

A host may be seen as the list of what was allocated on it.  Where effects stay in
their scope and only add to this list, every rule does.  A scope that fails, or that
only looked ahead, then ends in the place where it was opened, and a scope that is
kept ends in the place where its rule ended.
-/

/-- A view of a host as what was allocated on it, the newest last.

A mark counts what there is, and a rewind forgets what is newer than a mark; keeping
a scope and delivering a diagnostic allocate nothing. -/
structure Host.Allocates
    {H δ : Type}
    [Host H]
    (allocations : H → List δ) : Prop where
  mark :
    ∀ host : H, Host.mark host = (allocations host).length
  rewind :
    ∀ (host : H) (mark : Nat),
      allocations (Host.rewind host mark) = (allocations host).take mark
  commit :
    ∀ (host : H) (nodes : List NodeId) (start stop : Cursor),
      allocations (Host.commit host nodes start stop) = allocations host
  deliver :
    ∀ (host : H) (severity : Severity) (line : Nat) (message : String),
      allocations (Host.deliver host severity line message) = allocations host

namespace Machine

variable
    {H δ : Type}
    {allocations : H → List δ}

/-- A run stays in its scope, moves on and keeps what was allocated before it. -/
structure Extends
    (allocations : H → List δ)
    (before after : Machine H) : Prop extends Proceeds before after where
  older : allocations before.host <+: allocations after.host

/-- Two machines have the same cursor, the same flags and the same allocations. -/
structure SamePlace
    (allocations : H → List δ)
    (first second : Machine H) : Prop where
  cursor : second.cursor = first.cursor
  flags : second.top.flags = first.top.flags
  allocated : allocations second.host = allocations first.host

variable {before middle after machine closed : Machine H}

theorem Extends.refl
    (machine : Machine H) :
    Extends allocations machine machine :=
  ⟨.refl machine, List.prefix_rfl⟩

theorem Extends.trans
    (first : Extends allocations before middle)
    (second : Extends allocations middle after) :
    Extends allocations before after :=
  ⟨first.toProceeds.trans second.toProceeds, first.older.trans second.older⟩

theorem SamePlace.refl
    (machine : Machine H) :
    SamePlace allocations machine machine :=
  ⟨rfl, rfl, rfl⟩

theorem SamePlace.trans
    (first : SamePlace allocations before middle)
    (second : SamePlace allocations middle after) :
    SamePlace allocations before after where
  cursor := second.cursor.trans first.cursor
  flags := second.flags.trans first.flags
  allocated := second.allocated.trans first.allocated

/-- Two machines have the same flags and the same allocations, wherever they stand. -/
structure OnlyMoves
    (allocations : H → List δ)
    (before after : Machine H) : Prop where
  flags : after.top.flags = before.top.flags
  allocated : allocations after.host = allocations before.host

theorem OnlyMoves.refl
    (machine : Machine H) :
    OnlyMoves allocations machine machine :=
  ⟨rfl, rfl⟩

theorem OnlyMoves.trans
    (first : OnlyMoves allocations before middle)
    (second : OnlyMoves allocations middle after) :
    OnlyMoves allocations before after where
  flags := second.flags.trans first.flags
  allocated := second.allocated.trans first.allocated

theorem SamePlace.onlyMoves
    (place : SamePlace allocations before after) :
    OnlyMoves allocations before after :=
  ⟨place.flags, place.allocated⟩

variable [Host H]

theorem OnlyMoves.report
    (allocates : Host.Allocates allocations)
    (machine : Machine H)
    (severity : Severity)
    (line : Nat)
    (message : String) :
    OnlyMoves allocations machine (machine.report severity line message) where
  flags := flags_report machine severity line message
  allocated := by
    rw [host_report]
    split
    · rfl
    · exact allocates.deliver machine.host severity line message

theorem Extends.report
    (allocates : Host.Allocates allocations)
    (machine : Machine H)
    (severity : Severity)
    (line : Nat)
    (message : String) :
    Extends allocations machine (machine.report severity line message) where
  toProceeds := .report machine severity line message
  older := by
    have same := OnlyMoves.report allocates machine severity line message
    exact same.allocated ▸ List.prefix_rfl

/-- A scope that is kept ends where its rule ended. -/
theorem Extends.kept
    (allocates : Host.Allocates allocations)
    (extends_ : Extends allocations machine.opened after)
    {nodes : List NodeId}
    (commits : after.commitScope machine.nextRule nodes = .ok closed) :
    Extends allocations machine closed ∧ SamePlace allocations after closed := by
  obtain ⟨kept, keptCommits, keeps⟩ := extends_.exists_keeps nodes
  obtain rfl : kept = closed :=
    Except.ok.inj (keptCommits.symm.trans commits)
  obtain ⟨parent, deeper, -, -, isClosed⟩ := commitScope_eq_ok_iff.mp commits
  have allocated : allocations kept.host = allocations after.host := by
    rw [keeps.host, allocates.commit]
  refine ⟨⟨keeps.toProceeds, ?_⟩, keeps.closed_cursor, ?_, allocated⟩
  · rw [allocated]
    exact extends_.older
  · rw [isClosed]
    rfl

/-- A scope that is undone ends where it was opened. -/
theorem Extends.undone
    (allocates : Host.Allocates allocations)
    (extends_ : Extends allocations machine.opened after)
    (cancels : after.cancelScope machine.nextRule = .ok closed) :
    Extends allocations machine closed ∧ SamePlace allocations machine closed := by
  obtain ⟨undone, undoneCancels, undoes⟩ := extends_.exists_undoes
  obtain rfl : undone = closed :=
    Except.ok.inj (undoneCancels.symm.trans cancels)
  have allocated : allocations undone.host = allocations machine.host := by
    rw [undoes.host, allocates.rewind, allocates.mark]
    exact (List.prefix_iff_eq_take.mp extends_.older).symm
  exact
    ⟨⟨undoes.toProceeds, allocated ▸ List.prefix_rfl⟩, undoes.closed_cursor,
      undoes.flags, allocated⟩

end Machine

/-- Effects stay in their scope and only add to what is allocated. -/
def Rule.Extending
    {E : Type → Type 1}
    {H δ : Type}
    [Host H]
    (allocations : H → List δ)
    (handle : {γ : Type} → E γ → Action H γ) : Prop :=
  ∀ {γ : Type} (operation : E γ) (machine : Machine H),
    (handle operation machine).Ends (machine.Extends allocations)

namespace Rule

open Machine (SamePlace)

section OnlyReads

variable
    {E : Type → Type 1}
    {α β : Type}

/-- A rule sets no flag and has no effect, unless it is in a scope that is undone. -/
def OnlyReads : {α : Type} → Rule E α → Prop
  | _, .bind first next => OnlyReads first ∧ ∀ value, OnlyReads (next value)
  | _, .attempt rule => OnlyReads rule
  | _, .scope fate rule => OnlyReads rule ∨ ∀ value, fate value = .undo
  | _, .loop _ round => ∀ state, OnlyReads (round state)
  | _, .setFlag _ _ => False
  | _, .effect _ => False
  | _, _ => True

theorem onlyReads_bind
    {first : Rule E α}
    {next : α → Rule E β} :
    (first >>= next).OnlyReads ↔
      first.OnlyReads ∧ ∀ value, (next value).OnlyReads :=
  Iff.rfl

/-- Looking ahead only reads, whatever the rule does that is tried. -/
theorem onlyReads_peek
    (rule : Rule E α) :
    (peek rule).OnlyReads :=
  .inr fun _ => rfl

end OnlyReads

variable
    {E : Type → Type 1}
    {H δ : Type}
    [Host H]
    {α : Type}
    {allocations : H → List δ}
    {handle : {γ : Type} → E γ → Action H γ}
    (allocates : Host.Allocates allocations)
    (extending : Extending allocations handle)

include allocates extending

/-- Where effects only add to what is allocated, every rule does. -/
theorem ends_extends
    (rule : Rule E α)
    (machine : Machine H) :
    (rule.run handle machine).Ends (machine.Extends allocations) := by
  induction rule generalizing machine with
  | pure value =>
      exact .refl machine
  | fail =>
      exact .refl machine
  | bind first next firstHypothesis nextHypothesis =>
      refine ensures_bind.mpr ((firstHypothesis machine).mono ?_ fun _ => id)
      intro value middle toMiddle
      exact
        (nextHypothesis value middle).mono
          (fun _ _ => toMiddle.trans) fun _ => toMiddle.trans
  | attempt rule inductionHypothesis =>
      exact ensures_attempt.mpr (inductionHypothesis machine)
  | scope fate rule inductionHypothesis =>
      refine
        ensures_scope fun _ =>
          (inductionHypothesis machine.opened).mono ?_ ?_
      · intro value after inside closed closes
        cases fated : fate value with
        | keep nodes =>
            rw [fated] at closes
            exact (inside.kept allocates closes).1
        | undo =>
            rw [fated] at closes
            exact (inside.undone allocates closes).1
      · intro after inside closed cancels
        exact (inside.undone allocates cancels).1
  | loop state round inductionHypothesis =>
      refine
        ensures_loop (fun _ => machine.Extends allocations) (.refl machine) ?_
      intro state middle toMiddle
      refine (inductionHypothesis state middle).mono ?_ fun _ => toMiddle.trans
      rintro (next | value) after further
      · exact toMiddle.trans further
      · exact toMiddle.trans further
  | scan scanner =>
      refine ensures_scan.mpr ?_
      split
      · exact ⟨.advance machine _, List.prefix_rfl⟩
      · exact .refl machine
  | here =>
      exact .refl machine
  | setFlag mask on =>
      exact ⟨.setFlag machine mask on, List.prefix_rfl⟩
  | report severity line message =>
      exact .report allocates machine severity line message
  | effect operation =>
      exact extending operation machine

/-- A scope that is kept ends where its rule ended, or else where it started. -/
theorem ensures_kept_place
    (nodes : α → List NodeId)
    (rule : Rule E α)
    (machine : Machine H) :
    ((scope (fun value => .keep (nodes value)) rule).run handle machine).Ensures
      (fun value after =>
        ∃ inside,
          rule.run handle machine.opened = .matched value inside ∧
            inside.commitScope machine.nextRule (nodes value) = .ok after ∧
            SamePlace allocations inside after)
      (fun after =>
        (∃ inside, rule.run handle machine.opened = .failed inside) ∧
          SamePlace allocations machine after) := by
  have inside := Outcome.ends_iff.mp (ends_extends allocates extending rule machine.opened)
  refine ensures_scope fun _ => Outcome.ensures_iff.mpr ⟨?_, ?_⟩
  · intro value after matched closed commits
    have extends_ := inside after (congrArg Outcome.after? matched)
    exact ⟨after, matched, commits, (extends_.kept allocates commits).2⟩
  · intro after failed closed cancels
    have extends_ := inside after (congrArg Outcome.after? failed)
    exact ⟨⟨after, failed⟩, (extends_.undone allocates cancels).2⟩

/-- A rule in a scope of its own ends where it ended without, or else where it started. -/
theorem ensures_parse_place
    [StandsFor α]
    (rule : Rule E α)
    (machine : Machine H) :
    ((parse rule).run handle machine).Ensures
      (fun value after =>
        ∃ inside,
          rule.run handle machine.opened = .matched value inside ∧
            SamePlace allocations inside after)
      (fun after =>
        (∃ inside, rule.run handle machine.opened = .failed inside) ∧
          SamePlace allocations machine after) := by
  refine
    (ensures_kept_place allocates extending StandsFor.nodes rule machine).mono ?_
      fun _ => id
  rintro value after ⟨inside, matched, -, place⟩
  exact ⟨inside, matched, place⟩

/-- Looking ahead tells whether a rule would match, and ends where it started. -/
theorem ensures_peek_place
    (rule : Rule E α)
    (machine : Machine H) :
    ((peek rule).run handle machine).Ensures
      (fun found after =>
        (found = true ↔
            ∃ value inside, rule.run handle machine.opened = .matched value inside) ∧
          SamePlace allocations machine after)
      (fun _ => False) := by
  have inside := Outcome.ends_iff.mp (ends_extends allocates extending rule machine.opened)
  refine
    ensures_scope fun _ =>
      ensures_bind.mpr (ensures_attempt.mpr (Outcome.ensures_iff.mpr ⟨?_, ?_⟩))
  · intro value after matched closed cancels
    have extends_ := inside after (congrArg Outcome.after? matched)
    exact
      ⟨⟨fun _ => ⟨value, after, matched⟩, fun _ => rfl⟩,
        (extends_.undone allocates cancels).2⟩
  · intro after failed closed cancels
    have extends_ := inside after (congrArg Outcome.after? failed)
    refine ⟨⟨nofun, ?_⟩, (extends_.undone allocates cancels).2⟩
    rintro ⟨value, other, matched⟩
    cases failed.symm.trans matched

variable {rule : Rule E α} {machine after : Machine H}

theorem samePlace_of_failed
    [StandsFor α]
    (failed : (parse rule).run handle machine = .failed after) :
    SamePlace allocations machine after :=
  have ensures := ensures_parse_place allocates extending rule machine
  ((Outcome.ensures_iff.mp ensures).2 after failed).2

theorem samePlace_of_peek
    {found : Bool}
    (peeked : (peek rule).run handle machine = .matched found after) :
    SamePlace allocations machine after :=
  have ensures := ensures_peek_place allocates extending rule machine
  ((Outcome.ensures_iff.mp ensures).1 found after peeked).2

theorem peek_run_ne_failed :
    (peek rule).run handle machine ≠ .failed after :=
  have ensures := ensures_peek_place allocates extending rule machine
  (Outcome.ensures_iff.mp ensures).2 after

/-- A rule that only reads leaves the flags and what is allocated as they are. -/
theorem ends_onlyMoves
    (onlyReads : rule.OnlyReads)
    (machine : Machine H) :
    (rule.run handle machine).Ends (machine.OnlyMoves allocations) := by
  induction rule generalizing machine with
  | pure value =>
      exact .refl machine
  | fail =>
      exact .refl machine
  | bind first next firstHypothesis nextHypothesis =>
      refine ensures_bind.mpr ((firstHypothesis onlyReads.1 machine).mono ?_ fun _ => id)
      intro value middle toMiddle
      exact
        (nextHypothesis value (onlyReads.2 value) middle).mono
          (fun _ _ => toMiddle.trans) fun _ => toMiddle.trans
  | attempt rule inductionHypothesis =>
      exact ensures_attempt.mpr (inductionHypothesis onlyReads machine)
  | scope fate rule inductionHypothesis =>
      have inside := ends_extends allocates extending rule machine.opened
      rcases onlyReads with onlyReads | undone
      · refine
          ensures_scope fun _ =>
            ((inductionHypothesis onlyReads machine.opened).and inside).mono ?_ ?_
        · rintro value after ⟨moves, extends_⟩ closed closes
          cases fated : fate value with
          | keep nodes =>
              rw [fated] at closes
              exact .trans ⟨moves.flags, moves.allocated⟩
                (extends_.kept allocates closes).2.onlyMoves
          | undo =>
              rw [fated] at closes
              exact (extends_.undone allocates closes).2.onlyMoves
        · rintro after ⟨-, extends_⟩ closed cancels
          exact (extends_.undone allocates cancels).2.onlyMoves
      · refine ensures_scope fun _ => inside.mono ?_ ?_
        · intro value after extends_ closed closes
          rw [undone value] at closes
          exact (extends_.undone allocates closes).2.onlyMoves
        · intro after extends_ closed cancels
          exact (extends_.undone allocates cancels).2.onlyMoves
  | loop state round inductionHypothesis =>
      refine
        ensures_loop (fun _ => machine.OnlyMoves allocations) (.refl machine) ?_
      intro state middle toMiddle
      refine
        (inductionHypothesis state (onlyReads state) middle).mono ?_
          fun _ => toMiddle.trans
      rintro (next | value) after further
      · exact toMiddle.trans further
      · exact toMiddle.trans further
  | scan scanner =>
      refine ensures_scan.mpr ?_
      split
      · exact ⟨rfl, rfl⟩
      · exact .refl machine
  | here =>
      exact .refl machine
  | setFlag mask on =>
      exact onlyReads.elim
  | report severity line message =>
      exact .report allocates machine severity line message
  | effect operation =>
      exact onlyReads.elim

end Rule

end InkSyntax
