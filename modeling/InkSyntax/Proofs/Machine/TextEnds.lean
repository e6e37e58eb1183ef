import InkSyntax.Machine.Repetition
import InkSyntax.Proofs.Machine.Allocation
import InkSyntax.Proofs.Machine.Completion
import InkSyntax.Proofs.Machine.Cursors

namespace InkSyntax

/-!
# Where text ends

Text is read in pieces: runs of characters of neither set, and single characters at which
it pauses and what stops it would not match.  Where it ends depends on the place alone.
It is the end of the input, or the first character of either set that no piece can take,
and reading comes to exactly this place.
-/

namespace Cursor

section Ends

variable
    (pauses stops : Char → Bool)
    (stopsAt : Cursor → Prop)

/-- Text ends at a cursor where nothing follows, or a character that it cannot take.

A character of either set cannot be taken unless text only pauses there and what stops
it would not match. -/
def EndsText (cursor : Cursor) : Prop :=
  match cursor.rest with
  | [] => True
  | character :: _ =>
      (pauses character = true ∨ stops character = true) ∧
        (stopsAt cursor ∨ pauses character = false)

/-- Text does not end before so many characters. -/
structure PassesText
    (start : Cursor)
    (count : Nat) : Prop where
  within : count ≤ start.rest.length
  free : ∀ index < count, ¬ EndsText pauses stops stopsAt (start.advance index)

/-- The first place where text ends lies so many characters further on. -/
structure TextEndsBehind
    (start : Cursor)
    (count : Nat) : Prop extends PassesText pauses stops stopsAt start count where
  ends : EndsText pauses stops stopsAt (start.advance count)

end Ends

variable
    {pauses stops : Char → Bool}
    {stopsAt : Cursor → Prop}
    {start cursor : Cursor}
    {character : Char}
    {rest : List Char}
    {count more : Nat}

theorem endsText_of_atEnd
    (ended : cursor.rest = []) :
    cursor.EndsText pauses stops stopsAt := by
  rw [EndsText, ended]
  trivial

theorem endsText_iff
    (follows : cursor.rest = character :: rest) :
    cursor.EndsText pauses stops stopsAt ↔
      (pauses character = true ∨ stops character = true) ∧
        (stopsAt cursor ∨ pauses character = false) := by
  rw [EndsText, follows]

instance [DecidablePred stopsAt]
    (cursor : Cursor) :
    Decidable (cursor.EndsText pauses stops stopsAt) :=
  match follows : cursor.rest with
  | [] => .isTrue (endsText_of_atEnd follows)
  | _ :: _ => decidable_of_iff _ (endsText_iff follows).symm

instance [DecidablePred stopsAt]
    (start : Cursor)
    (count : Nat) :
    Decidable (start.TextEndsBehind pauses stops stopsAt count) :=
  decidable_of_iff
    ((count ≤ start.rest.length ∧
        ∀ index < count, ¬ EndsText pauses stops stopsAt (start.advance index)) ∧
      EndsText pauses stops stopsAt (start.advance count))
    ⟨fun ⟨⟨within, free⟩, ends⟩ => ⟨⟨within, free⟩, ends⟩,
      fun ⟨⟨within, free⟩, ends⟩ => ⟨⟨within, free⟩, ends⟩⟩

theorem PassesText.zero
    (start : Cursor) :
    start.PassesText pauses stops stopsAt 0 :=
  ⟨Nat.zero_le _, nofun⟩

theorem PassesText.add
    (passes : start.PassesText pauses stops stopsAt count)
    (further : (start.advance count).PassesText pauses stops stopsAt more) :
    start.PassesText pauses stops stopsAt (count + more) := by
  have within := passes.within
  have withinThen := further.within
  rw [rest_advance, List.length_drop] at withinThen
  refine ⟨by omega, fun index before => ?_⟩
  by_cases early : index < count
  · exact passes.free index early
  · have later := further.free (index - count) (by omega)
    rwa [advance_advance, Nat.add_sub_cancel' (by omega)] at later

/-- Text passes over a run of characters of neither set. -/
theorem passesText_takeWhile
    (pauses stops : Char → Bool)
    (stopsAt : Cursor → Prop)
    (cursor : Cursor) :
    cursor.PassesText pauses stops stopsAt
      (cursor.rest.takeWhile fun character => !pauses character && !stops character).length := by
  have run :=
    List.takeWhile_prefix (l := cursor.rest)
      fun character => !pauses character && !stops character
  refine ⟨run.length_le, fun index before => ?_⟩
  have follows : (cursor.advance index).rest = cursor.rest.drop index :=
    rest_advance cursor index
  rw [List.drop_eq_getElem_cons (Nat.lt_of_lt_of_le before run.length_le)] at follows
  have accepted := List.all_eq_true.mp List.all_takeWhile _ (List.getElem_mem before)
  rw [run.getElem before] at accepted
  rw [endsText_iff follows]
  rintro ⟨pausing | stopping, -⟩
  · simp [pausing] at accepted
  · simp [stopping] at accepted

/-- Text goes on over a character at which it pauses if what stops it would not match. -/
theorem passesText_one
    (follows : cursor.rest = character :: rest)
    (pausing : pauses character = true)
    (goesOn : ¬ stopsAt cursor) :
    cursor.PassesText pauses stops stopsAt 1 := by
  refine ⟨by simp [follows], fun index before => ?_⟩
  obtain rfl : index = 0 := by omega
  change ¬ cursor.EndsText pauses stops stopsAt
  rw [endsText_iff follows]
  rintro ⟨-, stopped | notPausing⟩
  · exact goesOn stopped
  · rw [pausing] at notPausing
    cases notPausing

/-- There is one first place where text ends. -/
theorem TextEndsBehind.unique
    {other : Nat}
    (ends : start.TextEndsBehind pauses stops stopsAt count)
    (endsToo : start.TextEndsBehind pauses stops stopsAt other) :
    count = other := by
  rcases Nat.lt_trichotomy count other with before | same | behind
  · exact absurd ends.ends (endsToo.free count before)
  · exact same
  · exact absurd endsToo.ends (ends.free other behind)

end Cursor

namespace Machine

variable {H : Type}

/-- A run stays in its scope and moves over so many characters. -/
structure MovesOver
    (count : Nat)
    (before after : Machine H) : Prop extends Proceeds before after where
  reached : after.cursor = before.cursor.advance count

variable
    {before middle after machine closed : Machine H}
    {pauses stops : Char → Bool}
    {stopsAt : Cursor → Prop}
    {parts : List String}
    {count more : Nat}

theorem MovesOver.refl
    (machine : Machine H) :
    MovesOver 0 machine machine :=
  ⟨.refl machine, rfl⟩

theorem MovesOver.trans
    (first : MovesOver count before middle)
    (second : MovesOver more middle after) :
    MovesOver (count + more) before after where
  toProceeds := first.toProceeds.trans second.toProceeds
  reached := by
    rw [second.reached, first.reached, Cursor.advance_advance]

theorem MovesOver.advance
    (machine : Machine H)
    (count : Nat) :
    MovesOver count machine (machine.moveTo (machine.cursor.advance count)) :=
  ⟨.advance machine count, rfl⟩

/-- Text from a machine on, in parts of which the last one is the first. -/
structure TextSoFar
    (pauses stops : Char → Bool)
    (stopsAt : Cursor → Prop)
    (start : Machine H)
    (parts : List String)
    (count : Nat)
    (middle : Machine H) : Prop where
  passes : start.cursor.PassesText pauses stops stopsAt count
  moves : MovesOver count start middle
  joined : (String.join parts.reverse).toList = start.cursor.rest.take count

theorem TextSoFar.none
    (machine : Machine H) :
    TextSoFar pauses stops stopsAt machine [] 0 machine :=
  ⟨.zero _, .refl machine, rfl⟩

theorem TextSoFar.stay
    {start : Machine H}
    (soFar : TextSoFar pauses stops stopsAt start parts count middle)
    (stays : MovesOver 0 middle after) :
    TextSoFar pauses stops stopsAt start parts count after :=
  ⟨soFar.passes, soFar.moves.trans stays, soFar.joined⟩

theorem TextSoFar.add
    {part : String}
    (soFar : TextSoFar pauses stops stopsAt machine parts count middle)
    (passes : middle.cursor.PassesText pauses stops stopsAt more)
    (moves : MovesOver more middle after)
    (taken : part.toList = middle.cursor.rest.take more) :
    TextSoFar pauses stops stopsAt machine (part :: parts) (count + more) after := by
  have reached := soFar.moves.reached
  refine ⟨soFar.passes.add (reached ▸ passes), soFar.moves.trans moves, ?_⟩
  rw [List.reverse_cons, String.toList_join, List.flatMap_append,
    ← String.toList_join, soFar.joined, List.take_add, ← Cursor.rest_advance, ← reached]
  simp [taken]

variable [Host H]

/-- A scope that is kept moves over what was read inside it. -/
theorem MovesOver.kept
    {nodes : List NodeId}
    (moves : MovesOver count machine.opened after)
    (keeps : machine.Keeps nodes after closed) :
    MovesOver count machine closed :=
  ⟨keeps.toProceeds, keeps.closed_cursor.trans moves.reached⟩

theorem MovesOver.of_undoes
    (undoes : machine.Undoes after closed) :
    MovesOver 0 machine closed :=
  ⟨undoes.toProceeds, undoes.closed_cursor⟩

end Machine

namespace Rule

open Machine (MovesOver SamePlace TextSoFar)

variable
    {E : Type → Type 1}
    {H : Type}
    [Host H]
    {α : Type}
    {handle : {γ : Type} → E γ → Action H γ}
    {stop : Rule E α}
    {pauses stops : Char → Bool}
    {stopsAt : Cursor → Prop}
    {machine middle after : Machine H}
    {parts : List String}
    {count more : Nat}

/-- Looking ahead stays where it is and tells whether the rule would match. -/
theorem run_completes_peek
    {rule : Rule E α}
    {holds : Prop}
    (room : machine.stack.height < machine.stack.maxDepth)
    (inside :
      (rule.run handle machine.opened).Completes
        (fun _ after => machine.opened.Proceeds after ∧ holds)
        (fun after => machine.opened.Proceeds after ∧ ¬ holds)) :
    ((peek rule).run handle machine).Completes
      (fun found after => (found = true ↔ holds) ∧ MovesOver 0 machine after)
      (fun _ => False) := by
  refine
    run_completes_scope room
      (run_completes_bind.mpr (run_completes_attempt.mpr (inside.mono ?_ ?_)))
  · rintro value after ⟨proceeds, holds⟩
    exact ⟨proceeds, fun closed undoes => ⟨by simp [holds], .of_undoes undoes⟩⟩
  · rintro after ⟨proceeds, fails⟩
    exact ⟨proceeds, fun closed undoes => ⟨by simp [fails], .of_undoes undoes⟩⟩

/-- Inside a scope, looking ahead leaves a rule the room that it had outside. -/
theorem run_completes_peek_inside
    {rule : Rule E α}
    {depth : Nat}
    {holds : Prop}
    (proceeds : machine.opened.Proceeds middle)
    (room : machine.stack.height + (depth + 2) ≤ machine.stack.maxDepth)
    (rounds : machine.cursor.rest.length < machine.rounds)
    (inside :
      middle.opened.stack.height + depth ≤ middle.opened.stack.maxDepth →
      middle.opened.cursor.rest.length < middle.opened.rounds →
      (rule.run handle middle.opened).Completes
        (fun _ after => middle.opened.Proceeds after ∧ holds)
        (fun after => middle.opened.Proceeds after ∧ ¬ holds)) :
    ((peek rule).run handle middle).Completes
      (fun found after => (found = true ↔ holds) ∧ MovesOver 0 middle after)
      (fun _ => False) := by
  have height : middle.stack.height = machine.stack.height + 1 := proceeds.height
  have maxDepth : middle.stack.maxDepth = machine.stack.maxDepth := proceeds.maxDepth
  have shorter : middle.cursor.rest.length ≤ machine.cursor.rest.length :=
    proceeds.cursor.length_le
  have sameRounds : middle.rounds = machine.rounds := proceeds.rounds
  refine run_completes_peek (by omega) (inside ?_ ?_)
  · rw [Machine.height_opened]
    change _ ≤ middle.stack.maxDepth
    omega
  · change middle.cursor.rest.length < middle.rounds
    omega

/-- Whether a rule matches is settled by where it is run, given room for so many scopes. -/
def IsSettledBy
    (handle : {γ : Type} → E γ → Action H γ)
    (rule : Rule E α)
    (depth : Nat)
    (start : Cursor)
    (holds : Cursor → Prop) : Prop :=
  ∀ machine : Machine H,
    start.Reaches machine.cursor →
    machine.stack.height + depth ≤ machine.stack.maxDepth →
    machine.cursor.rest.length < machine.rounds →
    (rule.run handle machine).Completes
      (fun _ _ => holds machine.cursor)
      (fun _ => ¬ holds machine.cursor)

/-- A run of characters of neither set is as long as it can be. -/
theorem run_completes_textRun
    {start : Machine H}
    (soFar : TextSoFar pauses stops stopsAt start parts count middle) :
    ((attempt (chars fun c => !pauses c && !stops c) : Rule E (Option String)).run
        handle middle).Completes
      (fun found after =>
        (∃ count,
          TextSoFar pauses stops stopsAt start
            (match found with
              | some part => part :: parts
              | none => parts)
            count after) ∧
          StartsWithout (fun c => !pauses c && !stops c) after.cursor.rest ∧
          after.cursor.rest.length ≤ middle.cursor.rest.length)
      (fun _ => False) := by
  refine run_completes_attempt.mpr (run_completes_scan.mpr ?_)
  have passes := middle.cursor.passesText_takeWhile pauses stops stopsAt
  have ends :=
    startsWithout_dropWhile (fun c => !pauses c && !stops c) middle.cursor.rest
  rw [← drop_length_takeWhile] at ends
  have run :=
    List.takeWhile_prefix (l := middle.cursor.rest) fun c => !pauses c && !stops c
  unfold Scanner.chars
  cases taken : middle.cursor.rest.takeWhile fun c => !pauses c && !stops c with
  | nil =>
      rw [taken] at ends
      exact ⟨⟨count, soFar⟩, ends, Nat.le_refl _⟩
  | cons character others =>
      rw [taken] at passes ends run
      have moves := MovesOver.advance middle (character :: others).length
      refine ⟨⟨_, soFar.add passes moves ?_⟩, ?_, moves.cursor.length_le⟩
      · rw [String.toList_ofList]
        exact List.prefix_iff_eq_take.mp run
      · rw [moves.reached, Cursor.rest_advance]
        exact ends

/-- The character behind a run is one of the two sets. -/
theorem mem_sets_of_refused
    {character : Char}
    {rest : List Char}
    (refused : StartsWithout (fun c => !pauses c && !stops c) (character :: rest)) :
    pauses character = true ∨ stops character = true := by
  have isRefused := startsWithout_cons.mp refused
  cases pausing : pauses character with
  | true =>
      exact .inl rfl
  | false =>
      exact .inr (by simpa [pausing] using isRefused)

/-- One round of reading text: a run of characters, and one more if text pauses at it. -/
def textUntilRound
    (stop : Rule E α)
    (pauses stops : Char → Bool)
    (parts : List String) : Rule E (List String ⊕ List String) := do
  let parts := match ← attempt (chars fun c => !pauses c && !stops c) with
    | some part => part :: parts
    | none => parts
  if ← peek stop then return .inr parts
  match (← here).cursor.rest with
  | [] => return .inr parts
  | character :: _ =>
      if pauses character then
        let _ ← anyChar
        return .inl (character.toString :: parts)
      else
        return .inr parts

/-- Text is what its rounds read, unless that is nothing. -/
theorem textUntil_eq
    (stop : Rule E α)
    (pauses stops : Char → Bool) :
    textUntil stop pauses stops =
      parse (do
        let parts ← loop [] (textUntilRound stop pauses stops)
        let text := String.join parts.reverse
        if text.isEmpty then fail else return text) :=
  rfl

/-- A round reads on over text, and is the last one exactly where text ends. -/
theorem run_completes_textUntilRound
    {start : Machine H}
    (peeks :
      ∀ middle : Machine H,
        start.Proceeds middle →
        ((peek stop).run handle middle).Completes
          (fun found after =>
            (found = true ↔ stopsAt middle.cursor) ∧ MovesOver 0 middle after)
          (fun _ => False))
    (soFar : TextSoFar pauses stops stopsAt start parts count middle) :
    ((textUntilRound stop pauses stops parts).run handle middle).Completes
      (fun result after =>
        match result with
        | .inl further =>
            (∃ count, TextSoFar pauses stops stopsAt start further count after) ∧
              after.cursor.rest.length < middle.cursor.rest.length
        | .inr found =>
            ∃ count,
              TextSoFar pauses stops stopsAt start found count after ∧
                after.cursor.EndsText pauses stops stopsAt)
      (fun _ => False) := by
  refine run_completes_bind.mpr ((run_completes_textRun soFar).mono ?_ fun _ => id)
  rintro found reached ⟨⟨length, read⟩, refused, shorter⟩
  extract_lets parts'
  refine
    run_completes_bind.mpr ((peeks reached read.moves.toProceeds).mono ?_ fun _ => id)
  rintro stopped ahead ⟨stopped_iff, stays⟩
  -- Looking ahead stayed in place, so what the run came to is still in front.
  have same : ahead.cursor = reached.cursor := stays.reached
  have stillRead := read.stay stays
  rw [← same] at refused stopped_iff shorter
  cases stopped with
  | true =>
      refine ⟨length, stillRead, ?_⟩
      cases follows : ahead.cursor.rest with
      | nil =>
          exact Cursor.endsText_of_atEnd follows
      | cons character rest =>
          rw [follows] at refused
          exact
            (Cursor.endsText_iff follows).mpr
              ⟨mem_sets_of_refused refused, .inl (stopped_iff.mp rfl)⟩
  | false =>
      have goesOn : ¬ stopsAt ahead.cursor := fun stopped => nomatch stopped_iff.mpr stopped
      refine run_completes_bind.mpr ?_
      change (run handle (match ahead.cursor.rest with | [] => _ | _ :: _ => _) ahead).Completes _ _
      cases follows : ahead.cursor.rest with
      | nil =>
          exact ⟨length, stillRead, Cursor.endsText_of_atEnd follows⟩
      | cons character rest =>
          rw [follows] at refused
          have member := mem_sets_of_refused refused
          -- Text goes on over the character exactly if it only pauses there.
          dsimp only
          split
          · next pausing =>
              refine run_completes_bind.mpr (run_completes_scan.mpr ?_)
              rw [follows]
              have moves := MovesOver.advance ahead 1
              refine
                ⟨⟨_, stillRead.add (Cursor.passesText_one follows pausing goesOn) moves ?_⟩, ?_⟩
              · simp [follows]
              · rw [moves.reached, Cursor.rest_advance, List.length_drop]
                rw [follows, List.length_cons] at shorter ⊢
                omega
          · next notPausing =>
              refine ⟨length, stillRead, ?_⟩
              rw [Bool.not_eq_true] at notPausing
              exact (Cursor.endsText_iff follows).mpr ⟨member, .inr notPausing⟩

/-- All rounds together read over text up to where it ends. -/
theorem run_completes_textUntilRounds
    (pauses stops : Char → Bool)
    (rounds : machine.cursor.rest.length < machine.rounds)
    (peeks :
      ∀ middle : Machine H,
        machine.Proceeds middle →
        ((peek stop).run handle middle).Completes
          (fun found after =>
            (found = true ↔ stopsAt middle.cursor) ∧ MovesOver 0 middle after)
          (fun _ => False)) :
    ((loop [] (textUntilRound stop pauses stops)).run handle machine).Completes
      (fun parts after =>
        ∃ count,
          TextSoFar pauses stops stopsAt machine parts count after ∧
            after.cursor.EndsText pauses stops stopsAt)
      (fun _ => False) := by
  refine
    run_completes_loop
      (fun parts middle => ∃ count, TextSoFar pauses stops stopsAt machine parts count middle)
      ⟨0, .none machine⟩ rounds ?_
  rintro parts middle ⟨count, soFar⟩
  refine (run_completes_textUntilRound peeks soFar).mono ?_ fun _ => id
  rintro (further | found) after
  · exact id
  · exact id

/-- Reading text comes to the first place where text ends; it fails if that is at once. -/
theorem run_completes_textUntil
    (pauses stops : Char → Bool)
    (stopsAt : Cursor → Prop)
    (room : machine.stack.height < machine.stack.maxDepth)
    (rounds : machine.cursor.rest.length < machine.rounds)
    (peeks :
      ∀ middle : Machine H,
        machine.opened.Proceeds middle →
        ((peek stop).run handle middle).Completes
          (fun found after =>
            (found = true ↔ stopsAt middle.cursor) ∧ MovesOver 0 middle after)
          (fun _ => False)) :
    ((textUntil stop pauses stops).run handle machine).Completes
      (fun text after =>
        ∃ count,
          0 < count ∧
            machine.cursor.TextEndsBehind pauses stops stopsAt count ∧
            text.toList = machine.cursor.rest.take count ∧
            MovesOver count machine after)
      (fun after =>
        machine.cursor.TextEndsBehind pauses stops stopsAt 0 ∧
          MovesOver 0 machine after) := by
  rw [textUntil_eq]
  have ran :=
    run_completes_textUntilRounds pauses stops
      (show machine.opened.cursor.rest.length < machine.opened.rounds from rounds) peeks
  refine
    run_completes_scope room (run_completes_bind.mpr (ran.mono ?_ fun _ => False.elim))
  rintro parts after ⟨count, ⟨passes, moves, joined⟩, ends⟩
  extract_lets text
  have endsBehind : machine.cursor.TextEndsBehind pauses stops stopsAt count :=
    ⟨passes, moves.reached ▸ ends⟩
  have length : text.toList.length = count := by
    rw [joined, List.length_take]
    exact Nat.min_eq_left passes.within
  split
  · next isEmpty =>
      obtain rfl : count = 0 := by
        rw [← length, String.isEmpty_iff.mp isEmpty]
        rfl
      exact ⟨moves.toProceeds, fun closed undoes => ⟨endsBehind, .of_undoes undoes⟩⟩
  · next notEmpty =>
      have some_ : 0 < count := by
        rw [← length, List.length_pos_iff]
        exact fun nothing =>
          notEmpty (String.isEmpty_iff.mpr (String.toList_eq_nil_iff.mp nothing))
      exact
        ⟨moves.toProceeds, fun closed keeps =>
          ⟨count, some_, endsBehind, joined, moves.kept keeps⟩⟩

theorem onlyReads_textUntilRound
    (stop : Rule E α)
    (pauses stops : Char → Bool)
    (parts : List String) :
    (textUntilRound stop pauses stops parts).OnlyReads := by
  refine onlyReads_bind.mpr ⟨trivial, fun found => ?_⟩
  refine onlyReads_bind.mpr ⟨onlyReads_peek stop, fun stopped => ?_⟩
  split
  · trivial
  · refine onlyReads_bind.mpr ⟨trivial, fun checkpoint => ?_⟩
    split
    · trivial
    · split
      · exact onlyReads_bind.mpr ⟨trivial, fun _ => trivial⟩
      · trivial

/-- Reading text only reads, whatever the rule does that stops it. -/
theorem onlyReads_textUntil
    (stop : Rule E α)
    (pauses stops : Char → Bool) :
    (textUntil stop pauses stops).OnlyReads := by
  rw [textUntil_eq]
  refine .inl (onlyReads_bind.mpr ⟨onlyReads_textUntilRound stop pauses stops, fun parts => ?_⟩)
  dsimp only
  split <;> trivial

end Rule

end InkSyntax
