import InkSyntax.Proofs.Grammar.ArrangedStatements
import InkSyntax.Proofs.Grammar.CastStatements
import InkSyntax.Proofs.Reading.StoryTrees
import InkSyntax.Proofs.Story.FrozenGathers
import InkSyntax.Proofs.Story.Schema

namespace InkSyntax

/-!
# The shapes of the stories of a reading

Whatever is shown of the trees that rules make, a script hands on to its story.

## The schema

Every construct is read by a rule that gives its nodes in their roles, so a script
leaves a tree in its draft whose root is that of a story, and its story has the
roles of this tree under new numbers.
-/

/-- Constructs are read in their roles if their rules can count on each other. -/
theorem Workshop.suppliesCast_readWithin
    {origin : Cursor}
    {admits : Story → Prop}
    {include_ : String → Action Workshop Inclusion}
    {maxDepth : Nat}
    (supplies :
      ∀ levels,
        Supplies origin admits (readWithin maxDepth include_ levels) include_)
    (levels : Nat) :
    SuppliesCast origin admits (readWithin maxDepth include_ levels) include_ := by
  refine ⟨supplies levels, ?_⟩
  induction levels with
  | zero =>
      intro α construct machine nodes _ _
      rfl
  | succ levels inductionHypothesis =>
      intro α construct
      exact
        Grammar.casts_rule construct ⟨supplies levels, inductionHypothesis⟩

namespace Reading

variable
    {library : Library}
    {options : Options}
    {maxDepth files : Nat}
    {text : String}
    {file : Option String}
    {session ended : Session}
    {story : Story}

/-- The nodes of a story have roles, handed down from its root. -/
theorem exists_roles_of_readText
    (reads :
      readText library maxDepth files text file session =
        .ok (story, ended)) :
    ∃ roles, (Story.root, .story) ∈ roles ∧ ArePlayed story.kind? roles := by
  cases files with
  | zero =>
      cases reads
  | succ files =>
      obtain ⟨script, root, after, -, matched, rfl⟩ :=
        exists_frozen_of_readText reads
      have supplies (levels : Nat) :
          Workshop.Supplies (.atStart script.toList)
            (IsOfFile library maxDepth)
            (Workshop.readWithin maxDepth (inclusions library maxDepth files)
              levels)
            (inclusions library maxDepth files) :=
        supplies isExhaustion_of_readText levels
      have ran :
          (Workshop.readScript maxDepth (inclusions library maxDepth files)
            _).Guarantees _ _ :=
        Grammar.casts_script
          (Workshop.suppliesCast_readWithin supplies (maxDepth + 2))
          (.start script.toList maxDepth { file := file, session := session })
          [] (.refl _) .nil
      rw [matched] at ran
      obtain ⟨-, -, nodes, plays, -⟩ := ran
      obtain ⟨roles, isStory, played⟩ :=
        plays.cast.exists_roles (by simp)
      have inRange (id : NodeId) (reaches : after.host.draft.Reaches root id) :
          id.index < after.host.draft.size :=
        plays.cast.knows.lt_size_of_reaches
          (plays.cast.mem_of_root List.mem_cons_self) reaches
      obtain ⟨entries, visits⟩ := Draft.exists_visits root inRange
      exact
        (visits.renumbers _ file).exists_roles played
          (isStory List.mem_cons_self)

/-- All stories of a reading obey the schema of nodes. -/
theorem obeysSchema_of_readScript
    {reading : Reading}
    (reads : readScript library options text file = .ok reading)
    (included : story = reading.story ∨ reading.story.Includes story) :
    story.ObeysSchema := by
  obtain ⟨files, text, file, session, ended, isRead⟩ :=
    exists_readText reads included
  obtain ⟨roles, isStory, played⟩ := exists_roles_of_readText isRead
  exact
    Story.obeysSchema_of_roles (isSound_of_readText isRead).isTree isStory
      played

/-- A story with a conditional in a sequence, and one with a choice that it includes. -/
theorem obeysSchema_of_inclusion :
    ∃ reading inner,
      readScript (.ofFiles [("a.ink", "* b -> c\n")]) {}
            "INCLUDE a.ink\n{&d|{e: f}}\n" none =
          .ok reading ∧
        inner ∈ reading.story.includedStories ∧
        reading.story.ObeysSchema ∧
        inner.ObeysSchema := by
  have includesOne :
      (readScript (.ofFiles [("a.ink", "* b -> c\n")]) {}
            "INCLUDE a.ink\n{&d|{e: f}}\n" none).toOption.any
          (!·.story.includedStories.isEmpty) =
        true := by
    decide +kernel
  cases reads :
      readScript (.ofFiles [("a.ink", "* b -> c\n")]) {}
        "INCLUDE a.ink\n{&d|{e: f}}\n" none with
  | error fault =>
      rw [reads] at includesOne
      cases includesOne
  | ok reading =>
      rw [reads] at includesOne
      obtain ⟨inner, member⟩ :
          ∃ inner, inner ∈ reading.story.includedStories := by
        apply List.exists_mem_of_ne_nil
        simpa [Except.toOption] using includesOne
      exact
        ⟨reading, inner, rfl, member,
          obeysSchema_of_readScript reads (.inl rfl),
          obeysSchema_of_readScript reads (.inr (.single member))⟩

end Reading

end InkSyntax

namespace InkSyntax.Reading

/-!
## Gathers in a reading

A script leaves its gathers in order in the draft, since files that it includes are
read into drafts of their own, and its story keeps them so.  The same holds for the
stories of these files.
-/

variable
    {library : Library}
    {options : Options}
    {maxDepth files : Nat}
    {text : String}
    {file : Option String}
    {session ended : Session}
    {story : Story}
    {reading : Reading}

/-- Including a file makes no node. -/
theorem staysPlain_inclusions
    (library : Library)
    (maxDepth files : Nat)
    (name : String) :
    (inclusions library maxDepth files name).StaysPlain := by
  intro mark machine plain
  simp only [inclusions, includeFile]
  split
  · exact plain
  · split
    · exact plain
    · split
      · trivial
      · exact plain

theorem gathersAt_of_readText
    (reads :
      readText library maxDepth files text file session =
        .ok (story, ended))
    (id : NodeId) :
    GathersAt story.kind? id := by
  cases files with
  | zero =>
      cases reads
  | succ files =>
      obtain ⟨script, root, after, -, matched, rfl⟩ :=
        exists_frozen_of_readText reads
      have supplies (levels : Nat) :
          Workshop.Supplies (.atStart script.toList)
            (IsOfFile library maxDepth)
            (Workshop.readWithin maxDepth (inclusions library maxDepth files)
              levels)
            (inclusions library maxDepth files) :=
        supplies isExhaustion_of_readText levels
      have suppliesArranged :=
        Workshop.suppliesArranged_readWithin supplies
          (staysPlain_inclusions library maxDepth files) (maxDepth + 2)
      have ran :
          (Workshop.readScript maxDepth (inclusions library maxDepth files)
            _).Guarantees _ _ :=
        Grammar.arranges_script suppliesArranged _
          (.start script.toList maxDepth { file := file, session := session })
          (.refl (.refl _))
      rw [matched] at ran
      obtain ⟨-, -, gains, arranged⟩ := ran
      obtain ⟨-, nodes, holds, -⟩ := gains
      obtain ⟨entries, -, visits, -⟩ := holds.exists_listing
      exact (visits.renumbers _ _).gathersAt arranged id

/-- A gather rejoins the choices of its weave since the gather before it, and no others. -/
theorem gathers_rejoin_loose_choices
    (reads : readScript library options text file = .ok reading)
    (included : story = reading.story ∨ reading.story.Includes story) :
    (∀ gather, (story.kind? gather).any NodeKind.isGather = true →
        ∃ weave passed rest base,
          story.parent? gather = some weave ∧
            story.kind? weave =
              some (.weave (passed ++ gather :: rest) base) ∧
            (passed ++ gather :: rest).Nodup ∧
            story.rejoins gather = looseChoices story.kind? passed) ∧
      (∀ gather other choice,
        choice ∈ story.rejoins gather →
        choice ∈ story.rejoins other →
        gather = other) ∧
      ∀ gather choice,
        choice ∈ story.rejoins gather →
        ∃ option, story.kind? choice = some (.choice option) := by
  obtain ⟨files, text, file, session, ended, isRead⟩ :=
    exists_readText reads included
  have isTree := (isSound_of_readText isRead).isTree
  have gathersAt := gathersAt_of_readText isRead
  refine ⟨fun gather isGather => ?_, fun gather other choice => ?_,
    fun gather choice rejoined => ?_⟩
  · obtain ⟨weave, passed, rest, base, isParent, isWeave, rejoins⟩ :=
      isTree.exists_weave gathersAt isGather
    exact
      ⟨weave, passed, rest, base, isParent, isWeave,
        isTree.nodup_of_kind isWeave, rejoins⟩
  · exact isTree.eq_of_mem_rejoins gathersAt
  · obtain ⟨weave, passed, rest, base, -, -, rejoins⟩ :=
      isTree.exists_weave gathersAt (Story.isGather_of_mem_rejoins rejoined)
    rw [rejoins] at rejoined
    exact exists_choice_of_looseChoices rejoined

/-- Behind two choices and a weave between them, a gather rejoins the two. -/
theorem gathers_rejoin_loose_choices_around_weave :
    ∃ reading weave passed rest base,
      readScript (.ofFiles []) {} "* a\n** b\n* c\n- d\n" none = .ok reading ∧
        reading.story.parent? ⟨18⟩ = some weave ∧
        reading.story.kind? weave =
          some (.weave (passed ++ ⟨18⟩ :: rest) base) ∧
        looseChoices reading.story.kind? passed = [⟨2⟩, ⟨13⟩] := by
  have rejoinsTwo :
      (readScript (.ofFiles []) {} "* a\n** b\n* c\n- d\n"
            none).toOption.any
          (fun reading =>
            (reading.story.kind? ⟨18⟩).any NodeKind.isGather &&
              reading.story.rejoins ⟨18⟩ == [⟨2⟩, ⟨13⟩]) =
        true := by
    decide +kernel
  cases reads :
      readScript (.ofFiles []) {} "* a\n** b\n* c\n- d\n" none with
  | error fault =>
      rw [reads] at rejoinsTwo
      cases rejoinsTwo
  | ok reading =>
      rw [reads] at rejoinsTwo
      simp only [Except.toOption, Option.any_some, Bool.and_eq_true,
        beq_iff_eq] at rejoinsTwo
      obtain ⟨weave, passed, rest, base, isParent, isWeave, -, rejoins⟩ :=
        (gathers_rejoin_loose_choices reads (.inl rfl)).1 ⟨18⟩ rejoinsTwo.1
      rw [rejoinsTwo.2] at rejoins
      exact
        ⟨reading, weave, passed, rest, base, rfl, isParent, isWeave,
          rejoins.symm⟩

end InkSyntax.Reading
