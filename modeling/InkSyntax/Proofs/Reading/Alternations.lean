import InkSyntax.Proofs.Grammar.ConsumingRules
import InkSyntax.Proofs.Machine.Alternation
import InkSyntax.Proofs.Machine.Separation
import InkSyntax.Proofs.Machine.TextEnds
import InkSyntax.Proofs.Reading.Site
import InkSyntax.Proofs.Story.Nesting

namespace InkSyntax

/-!
# What repeated rules of the grammar collect

Alternations, lists with separators and text are read round by round.  What they come to
is told without reference to the rounds.

## Alternations

What the grammar allocates is nodes: each is made once, and only undoing a scope takes
it away again.  So whatever the rules of an alternation do on a workshop, it collects
what its pieces are; and so it does on every other host that keeps to its marks.
-/

namespace Draft

mutual

/-- Arranging content makes nodes and takes none away. -/
theorem size_le_placeItem
    (item : WeaveTree)
    (draft : Draft) :
    draft.size ≤ (placeItem item draft).2.size := by
  cases item with
  | leaf id =>
      exact Nat.le_refl _
  | nested base items =>
      exact
        Nat.le_trans (size_le_placeItems items draft)
          (Retains.addWeave _ _ base).size_le

theorem size_le_placeItems
    (items : List WeaveTree)
    (draft : Draft) :
    draft.size ≤ (placeItems items draft).2.size := by
  cases items with
  | nil =>
      exact Nat.le_refl _
  | cons item items =>
      exact
        Nat.le_trans (size_le_placeItem item draft)
          (size_le_placeItems items _)

end

theorem size_le_weaveAndFlows
    (draft : Draft)
    (content : List NodeId) :
    draft.size ≤ (draft.weaveAndFlows content).2.size := by
  simp only [weaveAndFlows, weave]
  exact size_le_placeItem _ draft

end Draft

namespace Workshop

/-- The nodes made so far, by their numbers. -/
def made (workshop : Workshop) : List Nat :=
  List.range workshop.draft.size

/-- Marks count the nodes that were made. -/
theorem allocates_made :
    Host.Allocates made where
  mark workshop := by
    simp [made, Host.mark]
  rewind workshop mark := by
    simp [made, Host.rewind, Draft.keepOldest, Draft.size, List.take_range]
  commit workshop nodes start stop := by
    simp only [made, Host.commit, Draft.size_setSpans]
  deliver _ _ _ _ := rfl

theorem made_prefix_of_le
    {before after : Workshop}
    (grown : before.draft.size ≤ after.draft.size) :
    before.made <+: after.made := by
  obtain ⟨more, size⟩ := Nat.exists_eq_add_of_le grown
  rw [made, made, size, List.range_add]
  exact List.prefix_append _ _

/-- An operation only makes nodes, if what is read inside it does. -/
theorem extending_handle
    {read : {α : Type} → Construct α → Action Workshop α}
    {include_ : String → Action Workshop Inclusion}
    (reads :
      ∀ {α : Type} (construct : Construct α) (machine : Machine Workshop),
        (read construct machine).Ends (machine.Extends made))
    (includes :
      ∀ (file : String) (machine : Machine Workshop),
        (include_ file machine).Ends (machine.Extends made)) :
    Rule.Extending made (handle read include_) := by
  intro γ operation machine
  have redrafts
      {β : Type}
      (change : Draft → β × Draft)
      (grown : machine.host.draft.size ≤ (change machine.host.draft).2.size) :
      (redraft change machine).Ends (machine.Extends made) :=
    ⟨.work machine _, made_prefix_of_le grown⟩
  cases operation with
  | make kind =>
      exact redrafts (·.add kind) (Draft.spares_add _ kind none).size_le
  | makeSpanning kind =>
      exact redrafts (·.addSpanning kind) (Draft.spares_add _ kind _).size_le
  | kindOf id =>
      simp only [handle]
      split
      · exact .refl machine
      · trivial
  | amend id amendment =>
      simp only [handle]
      exact
        ensures_unlessMissing
          (redrafts (fun draft => ((), draft.modify id amendment.apply))
            (Draft.spares_modify _ id amendment.apply).size_le)
  | survey id =>
      simp only [handle]
      exact ensures_unlessMissing (Machine.Extends.refl machine)
  | spanOf id =>
      exact .refl machine
  | weave content =>
      simp only [handle]
      exact
        ensures_unlessMissing
          (redrafts (·.weaveAndFlows content)
            (machine.host.draft.size_le_weaveAndFlows content))
  | isInChoice =>
      exact .refl machine
  | setInChoice inChoice =>
      exact ⟨.work machine _, List.prefix_rfl⟩
  | «include» file =>
      exact includes file machine
  | read construct =>
      exact reads construct machine

end Workshop

namespace Reading

/-- Including a file makes no node of the script at hand. -/
theorem extends_inclusions
    (library : Library)
    (maxDepth files : Nat)
    (name : String)
    (machine : Machine Workshop) :
    (inclusions library maxDepth files name machine).Ends
      (machine.Extends Workshop.made) := by
  simp only [inclusions, includeFile]
  split
  · exact .refl machine
  · split
    · exact ⟨.work machine _, List.prefix_rfl⟩
    · split
      · trivial
      · exact ⟨.work machine _, List.prefix_rfl⟩

/-- Whatever the grammar does on a workshop only makes nodes. -/
theorem extending_performs
    (library : Library)
    (maxDepth files levels : Nat) :
    Rule.Extending Workshop.made (performs library maxDepth files levels) := by
  refine
    Workshop.extending_handle ?_ (extends_inclusions library maxDepth files)
  induction levels with
  | zero =>
      intro α construct machine
      trivial
  | succ levels inductionHypothesis =>
      intro α construct machine
      exact
        Rule.ends_extends Workshop.allocates_made
          (Workshop.extending_handle inductionHypothesis
            (extends_inclusions library maxDepth files))
          (Grammar.rule construct) machine

end Reading

namespace Rule

open Machine (SamePlace)

/-- An alternation `outer (inner outer)*` collects what its pieces are.

It fails exactly if the first piece does or no piece has a value, and then nothing has
changed.  Otherwise it gives the values of its pieces in order and ends in the place
behind the last one.  Looking ahead for its end changes nothing. -/
theorem alternateUntil_collects
    {E : Type → Type 1}
    {H δ : Type}
    [Host H]
    {α β : Type}
    [StandsFor (Step α)]
    [StandsFor (List α)]
    {allocations : H → List δ}
    {handle : {γ : Type} → E γ → Action H γ}
    (allocates : Host.Allocates allocations)
    (extending : Extending allocations handle)
    (outer inner : Rule E (Step α))
    (stop : Rule E β)
    (machine : Machine H)
    (ends :
      ∀ fault, (alternateUntil outer inner stop).run handle machine ≠ .faulted fault) :
    ((∃ after, (alternateUntil outer inner stop).run handle machine = .failed after) ↔
        (∃ behind, (parse outer).run handle machine.opened = .failed behind) ∨
          ∃ pieces reached,
            Pieces handle outer inner stop machine.opened pieces reached ∧
              pieces.flatMap Step.values = []) ∧
      (∀ after,
        (alternateUntil outer inner stop).run handle machine = .failed after →
        SamePlace allocations machine after) ∧
      (∀ values after,
        (alternateUntil outer inner stop).run handle machine = .matched values after →
        ∃ pieces reached,
          Pieces handle outer inner stop machine.opened pieces reached ∧
            values = pieces.flatMap Step.values ∧
            SamePlace allocations reached after) ∧
      ∀ start found after,
        (peek stop).run handle start = .matched found after →
        (found = true ↔
            ∃ value inside, stop.run handle start.opened = .matched value inside) ∧
          SamePlace allocations start after := by
  have ensures :=
    Outcome.ensures_iff.mp
      (ensures_alternateUntil allocates extending outer inner stop machine)
  refine
    ⟨alternateUntil_run_failed_iff allocates extending ends,
      fun after failed => (ensures.2 after failed).2, ?_, ?_⟩
  · intro values after matched
    obtain ⟨pieces, reached, collected, same, -, place⟩ :=
      ensures.1 values after matched
    exact ⟨pieces, reached, collected, same, place⟩
  · intro start found after peeked
    exact
      (Outcome.ensures_iff.mp
        (ensures_peek_place allocates extending stop start)).1 found after peeked

/-- Words with commas between them are read up to a semicolon, with the last comma. -/
theorem alternateUntil_collects_words :
    let word : GrammarRule NodeId := do
      let letters ← chars Char.isLower
      Grammar.makeText letters
    let comma : GrammarRule (Step NodeId) := dropped (literal ",")
    let words : Outcome Workshop (List NodeId) :=
      (alternateUntil (single word) comma (literal ";")).run
        (Reading.performs (.ofFiles []) 200 0 0)
        (.start "a,b,;".toList 200 { file := none, session := {} })
    Host.Allocates Workshop.made ∧
      Extending Workshop.made (Reading.performs (.ofFiles []) 200 0 0) ∧
      (∀ fault, words ≠ .faulted fault) ∧
      ∃ after pieces reached,
        words = .matched [⟨0⟩, ⟨1⟩] after ∧
          after.cursor.rest = [';'] ∧
          after.host.made = [0, 1] ∧
          Pieces (Reading.performs (.ofFiles []) 200 0 0) (single word) comma
            (literal ";" : GrammarRule Unit)
            (Machine.start "a,b,;".toList 200
              ({ file := none, session := {} } : Workshop)).opened
            pieces reached ∧
          [⟨0⟩, ⟨1⟩] = pieces.flatMap Step.values ∧
          SamePlace Workshop.made reached after := by
  intro word comma words
  let site : Reading.Site :=
    ⟨0, 0, alternateUntil (single word) comma (literal ";" : GrammarRule Unit),
      .start "a,b,;".toList 200 { file := none, session := {} }⟩
  have evaluated :
      site.yields (.ofFiles []) 200 (· == [⟨0⟩, ⟨1⟩]) = true ∧
        (site.after (.ofFiles []) 200).cursor.rest = [';'] ∧
        (site.after (.ofFiles []) 200).host.made = [0, 1] := by
    decide +kernel
  obtain ⟨yields, rest, made⟩ := evaluated
  obtain ⟨values, asExpected, outcome⟩ := Reading.Site.exists_matched_of_yields yields
  obtain rfl : values = [⟨0⟩, ⟨1⟩] := eq_of_beq asExpected
  have ran : words = .matched [⟨0⟩, ⟨1⟩] (site.after (.ofFiles []) 200) := outcome
  have ends (fault : Fault) : words ≠ .faulted fault := by
    intro faults
    rw [ran] at faults
    cases faults
  have allocates := Workshop.allocates_made
  have extending : Extending Workshop.made (Reading.performs (.ofFiles []) 200 0 0) :=
    Reading.extending_performs (.ofFiles []) 200 0 0
  obtain ⟨pieces, reached, collected, same, place⟩ :=
    (alternateUntil_collects allocates extending (single word) comma (literal ";")
      _ ends).2.2.1 _ _ ran
  exact
    ⟨allocates, extending, ends, _, pieces, reached, ran, rest, made, collected, same,
      place⟩

end Rule

end InkSyntax

namespace InkSyntax.Rule

/-!
## Lists with separators

A list with separators never takes a separator that has no item behind it, whatever its
rules do to the text, the flags and what is allocated.
-/

open Machine (SamePlace)

/-- A list `item (separator item)*` reads its items up to where none goes on.

It fails exactly if the first item does, and then nothing has changed.  Otherwise it
gives its items in order, of which there are as many as can be read, and it ends in the
place directly behind the last one. -/
theorem separated_reads_items
    {E : Type → Type 1}
    {H δ : Type}
    [Host H]
    {α β : Type}
    [StandsFor α]
    [StandsFor β]
    {allocations : H → List δ}
    {handle : {γ : Type} → E γ → Action H γ}
    (allocates : Host.Allocates allocations)
    (extending : Extending allocations handle)
    (item : Rule E α)
    (separator : Rule E β)
    (machine : Machine H)
    (ends : ∀ fault, (separated item separator).run handle machine ≠ .faulted fault) :
    ((∃ after, (separated item separator).run handle machine = .failed after) ↔
        ∃ behind, (parse item).run handle machine = .failed behind) ∧
      (∀ after,
        (separated item separator).run handle machine = .failed after →
        SamePlace allocations machine after) ∧
      ((¬ ∃ behind, (parse item).run handle machine = .failed behind) →
        ∃ items reached after,
          (separated item separator).run handle machine = .matched items after ∧
            ListItems handle item separator machine items reached ∧
            SamePlace allocations reached after ∧
            ∀ others reached',
              ListItems handle item separator machine others reached' →
              others = items ∧ reached' = reached) := by
  have ensures :=
    Outcome.ensures_iff.mp (ensures_separated allocates extending item separator machine)
  refine
    ⟨separated_run_failed_iff allocates extending,
      fun after failed => (ensures.2 after failed).2, fun firstMatches => ?_⟩
  cases ran : (separated item separator).run handle machine with
  | faulted fault =>
      exact absurd ran (ends fault)
  | failed after =>
      exact absurd ⟨after, (ensures.2 after ran).1⟩ firstMatches
  | matched items after =>
      obtain ⟨reached, listed, place⟩ := ensures.1 items after ran
      exact
        ⟨items, reached, after, rfl, listed, place, fun others reached' listedToo =>
          listedToo.unique listed⟩

/-- A word that is refused behind a comma takes the comma, its flag and both nodes along. -/
theorem separated_reads_items_before_refused_word :
    let word : GrammarRule NodeId := do
      let letters ← chars Char.isLower
      let id ← Grammar.makeText letters
      require (letters != "x")
      setFlag 4 false
      return id
    let comma : GrammarRule NodeId := do
      literal ","
      setFlag 4 true
      Grammar.makeText ","
    let start : Machine Workshop :=
      .start "a,b,x;".toList 200 { file := none, session := {} }
    let words : Outcome Workshop (List NodeId) :=
      (separated word comma).run (Reading.performs (.ofFiles []) 200 0 0) start
    Host.Allocates Workshop.made ∧
      Extending Workshop.made (Reading.performs (.ofFiles []) 200 0 0) ∧
      (∀ fault, words ≠ .faulted fault) ∧
      ∃ after reached,
        words = .matched [⟨0⟩, ⟨2⟩] after ∧
          after.cursor.rest = [',', 'x', ';'] ∧
          after.top.flags = 0 ∧
          after.host.made = [0, 1, 2] ∧
          ListItems (Reading.performs (.ofFiles []) 200 0 0) word comma start
            [⟨0⟩, ⟨2⟩] reached ∧
          SamePlace Workshop.made reached after := by
  intro word comma start words
  let site : Reading.Site := ⟨0, 0, separated word comma, start⟩
  have evaluated :
      site.yields (.ofFiles []) 200 (· == [⟨0⟩, ⟨2⟩]) = true ∧
        (site.after (.ofFiles []) 200).cursor.rest = [',', 'x', ';'] ∧
        (site.after (.ofFiles []) 200).top.flags = 0 ∧
        (site.after (.ofFiles []) 200).host.made = [0, 1, 2] := by
    decide +kernel
  obtain ⟨yields, rest, flags, made⟩ := evaluated
  obtain ⟨values, asExpected, outcome⟩ := Reading.Site.exists_matched_of_yields yields
  obtain rfl : values = [⟨0⟩, ⟨2⟩] := eq_of_beq asExpected
  have ran : words = .matched [⟨0⟩, ⟨2⟩] (site.after (.ofFiles []) 200) := outcome
  have ends (fault : Fault) : words ≠ .faulted fault := by
    rw [ran]
    exact nofun
  have allocates := Workshop.allocates_made
  have extending : Extending Workshop.made (Reading.performs (.ofFiles []) 200 0 0) :=
    Reading.extending_performs (.ofFiles []) 200 0 0
  obtain ⟨failed_iff, -, reads⟩ :=
    separated_reads_items allocates extending word comma start ends
  have firstMatches :
      ¬ ∃ behind,
        (parse word).run (Reading.performs (.ofFiles []) 200 0 0) start =
          .failed behind := by
    intro fails
    obtain ⟨after, failed⟩ := failed_iff.mpr fails
    cases ran.symm.trans failed
  obtain ⟨items, reached, after, matched, listed, place, -⟩ := reads firstMatches
  obtain ⟨rfl, rfl⟩ := Outcome.matched.inj (ran.symm.trans matched)
  exact
    ⟨allocates, extending, ends, _, reached, ran, rest, flags, made, listed, place⟩

end InkSyntax.Rule

namespace InkSyntax.Rule

/-!
## Text up to a stop

Text is read up to the first place where it ends, which is told by the characters and by
where the rule that stops it would match, and not by how the text is read.
-/

open Machine (MovesOver SamePlace)

section Stops

variable
    {E : Type → Type 1}
    {H δ : Type}
    [Host H]
    {α : Type}
    {allocations : H → List δ}
    {handle : {γ : Type} → E γ → Action H γ}
    {stop : Rule E α}
    {depth : Nat}
    {stopsAt : Cursor → Prop}
    {machine middle : Machine H}

/-- Looking ahead from anywhere in a text tells whether the rule that is settled matches. -/
theorem IsSettledBy.run_completes_peek
    (settled : stop.IsSettledBy handle depth machine.cursor stopsAt)
    (allocates : Host.Allocates allocations)
    (extending : Extending allocations handle)
    (room : machine.stack.height + (depth + 2) ≤ machine.stack.maxDepth)
    (rounds : machine.cursor.rest.length < machine.rounds)
    (proceeds : machine.opened.Proceeds middle) :
    ((peek stop).run handle middle).Completes
      (fun found after =>
        (found = true ↔ stopsAt middle.cursor) ∧ MovesOver 0 middle after)
      (fun _ => False) := by
  refine run_completes_peek_inside proceeds room rounds fun roomInside roundsInside => ?_
  have stopped := settled middle.opened proceeds.cursor roomInside roundsInside
  refine
    (stopped.and_ensures (ends_extends allocates extending stop middle.opened)).mono ?_ ?_
  · rintro value after ⟨isStop, extends_⟩
    exact ⟨extends_.toProceeds, isStop⟩
  · rintro after ⟨notStop, extends_⟩
    exact ⟨extends_.toProceeds, notStop⟩

end Stops

/-- Text is read up to the first place where it ends, and not at all if that is at once.

There is such a place.  If it is further on, the text up to there is the result and the
cursor comes to stand behind it, with its line and column; else nothing has changed.
Whatever the rule does that stops the text, flags and allocations stay as they are. -/
theorem textUntil_reads_to_first_end
    {E : Type → Type 1}
    {H δ : Type}
    [Host H]
    {α : Type}
    {allocations : H → List δ}
    {handle : {γ : Type} → E γ → Action H γ}
    (allocates : Host.Allocates allocations)
    (extending : Extending allocations handle)
    (stop : Rule E α)
    (pauses stops : Char → Bool)
    (stopsAt : Cursor → Prop)
    (depth : Nat)
    (machine : Machine H)
    (settled : stop.IsSettledBy handle depth machine.cursor stopsAt)
    (room : machine.stack.height + (depth + 2) ≤ machine.stack.maxDepth)
    (rounds : machine.cursor.rest.length < machine.rounds) :
    (∃ count, machine.cursor.TextEndsBehind pauses stops stopsAt count) ∧
      ∀ count,
        machine.cursor.TextEndsBehind pauses stops stopsAt count →
        ∃ after,
          (textUntil stop pauses stops).run handle machine =
              (if count = 0 then .failed after
                else .matched (String.ofList (machine.cursor.rest.take count)) after) ∧
            SamePlace allocations (machine.moveTo (machine.cursor.advance count)) after ∧
            machine.Proceeds after ∧
            ∀ before,
              machine.cursor.Follows before →
              after.cursor.Follows (before ++ machine.cursor.rest.take count) := by
  have completes :=
    run_completes_textUntil pauses stops stopsAt (by omega) rounds fun middle proceeds =>
      settled.run_completes_peek allocates extending room rounds proceeds
  have moves :=
    ends_onlyMoves allocates extending (onlyReads_textUntil stop pauses stops) machine
  have reads := completes.and_ensures moves
  have arrives
      {count : Nat}
      {after : Machine H}
      (moved : MovesOver count machine after)
      (onlyMoves : machine.OnlyMoves allocations after) :
      SamePlace allocations (machine.moveTo (machine.cursor.advance count)) after ∧
        machine.Proceeds after ∧
        ∀ before,
          machine.cursor.Follows before →
          after.cursor.Follows (before ++ machine.cursor.rest.take count) := by
    refine
      ⟨⟨moved.reached, onlyMoves.flags, onlyMoves.allocated⟩, moved.toProceeds,
        fun before follows => ?_⟩
    rw [moved.reached]
    exact follows.advance count
  cases ran : (textUntil stop pauses stops).run handle machine with
  | faulted fault =>
      rw [ran] at reads
      exact reads.elim
  | failed after =>
      rw [ran] at reads
      obtain ⟨⟨ends, moved⟩, onlyMoves⟩ := reads
      refine ⟨⟨0, ends⟩, fun count endsToo => ?_⟩
      obtain rfl : count = 0 := endsToo.unique ends
      exact ⟨after, rfl, arrives moved onlyMoves⟩
  | matched text after =>
      rw [ran] at reads
      obtain ⟨⟨count, some_, ends, taken, moved⟩, onlyMoves⟩ := reads
      refine ⟨⟨count, ends⟩, fun other endsToo => ?_⟩
      obtain rfl : other = count := endsToo.unique ends
      refine ⟨after, ?_, arrives moved onlyMoves⟩
      rw [if_neg (Nat.pos_iff_ne_zero.mp some_), ← taken, String.ofList_toList]

/-- Text pauses at a lone hyphen, behind a line break, and ends before an arrow.

The rule for the arrow sets a flag wherever it is tried, which looking ahead undoes. -/
theorem textUntil_reads_to_first_end_before_arrow :
    let arrow : GrammarRule Unit := do
      setFlag 4 true
      literal "->"
    let pauses : Char → Bool := (· == '-')
    let stops : Char → Bool := (· == ';')
    let stopsAt : Cursor → Prop := fun cursor => ['-', '>'] <+: cursor.rest
    let start : Machine Workshop :=
      .start "a\n-b->c".toList 200 { file := none, session := {} }
    Host.Allocates Workshop.made ∧
      Extending Workshop.made (Reading.performs (.ofFiles []) 200 0 0) ∧
      arrow.IsSettledBy (Reading.performs (.ofFiles []) 200 0 0) 0 start.cursor stopsAt ∧
      start.stack.height + 2 ≤ start.stack.maxDepth ∧
      start.cursor.rest.length < start.rounds ∧
      start.cursor.TextEndsBehind pauses stops stopsAt 4 ∧
      start.cursor.Follows [] ∧
      ∃ after,
        (textUntil arrow pauses stops).run (Reading.performs (.ofFiles []) 200 0 0) start =
            .matched "a\n-b" after ∧
          after.cursor = ⟨4, 1, 2, "->c".toList⟩ ∧
          after.top.flags = 0 ∧
          after.cursor.Follows "a\n-b".toList := by
  intro arrow pauses stops stopsAt start
  have settled :
      arrow.IsSettledBy (Reading.performs (.ofFiles []) 200 0 0) 0 start.cursor stopsAt := by
    intro machine _ _ _
    refine run_completes_bind.mpr (run_completes_literal.mpr ?_)
    split
    · next stands =>
        exact stands
    · next stands =>
        exact stands
  have room : start.stack.height + 2 ≤ start.stack.maxDepth := by decide +kernel
  have rounds : start.cursor.rest.length < start.rounds := by decide +kernel
  have ends : start.cursor.TextEndsBehind pauses stops stopsAt 4 := by
    decide +kernel
  have follows : start.cursor.Follows [] := ⟨rfl, rfl, rfl⟩
  have allocates := Workshop.allocates_made
  have extending : Extending Workshop.made (Reading.performs (.ofFiles []) 200 0 0) :=
    Reading.extending_performs (.ofFiles []) 200 0 0
  obtain ⟨after, matched, place, -, followsThen⟩ :=
    (textUntil_reads_to_first_end allocates extending arrow pauses stops stopsAt 0 start
      settled room rounds).2 4 ends
  refine
    ⟨allocates, extending, settled, room, rounds, ends, follows, after, matched, ?_,
      place.flags, followsThen [] follows⟩
  rw [place.cursor]
  decide +kernel

end InkSyntax.Rule
