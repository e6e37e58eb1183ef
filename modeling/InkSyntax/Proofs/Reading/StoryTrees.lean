import InkSyntax.Proofs.Reading.Supplies
import InkSyntax.Proofs.Story.Preorder
import InkSyntax.Proofs.Story.Spans
import Mathlib.Data.Set.Card

namespace InkSyntax

/-!
# The stories of a reading

A story is frozen from the one tree that reading its script leaves in the draft, so
its nodes form a tree, and they lie in the script's text without comments, each
within its parent.  The stories of included files were read in the same way, from
texts of their own, and so were those that they include.
-/

/-- The first story includes the second, or one that does. -/
abbrev Story.Includes : Story → Story → Prop :=
  Relation.TransGen fun outer inner => inner ∈ outer.includedStories

namespace Reading

variable
    {library : Library}
    {options : Options}
    {maxDepth files : Nat}
    {text : String}
    {file : Option String}
    {session ended : Session}
    {story : Story}
    {reading : Reading}

/-- A story and its file, as they should come out of reading a text. -/
structure IsSound
    (library : Library)
    (maxDepth : Nat)
    (text : String)
    (file : Option String)
    (story : Story) : Prop where
  file : story.file = file
  isTree : story.IsTree
  liesIn :
    ∃ script, Comment.strip text = .ok script ∧ story.LiesIn script.toList
  ofFile : ∀ inner ∈ story.includedStories, IsOfFile library maxDepth inner

/-- The whole stretch from the start of a text to a cursor. -/
theorem liesWithin_whole
    {script : List Char}
    {stop : Cursor}
    (reaches : (Cursor.atStart script).Reaches stop) :
    (Span.between (.atStart script) stop).LiesWithin (.atStart script) 0
      stop.offset :=
  ⟨Nat.le_refl _, Nat.zero_le _, Nat.le_refl _, ⟨0, rfl⟩, reaches.sees⟩

/-- Freezing the tree that a script left in its draft gives a sound story. -/
theorem isSound_of_holds
    {script : String}
    {draft : Draft}
    {root : NodeId}
    {stop : Cursor}
    {nodes content : List NodeId}
    (stripped : Comment.strip text = .ok script)
    (reaches : (Cursor.atStart script.toList).Reaches stop)
    (holds :
      draft.Holds (.atStart script.toList) (IsOfFile library maxDepth) 0
        stop.offset [root] nodes)
    (isStory : draft.kind? root = some (.story content)) :
    IsSound library maxDepth text file
      (draft.freeze root (.between (.atStart script.toList) stop) file) := by
  obtain ⟨entries, frozen, freezes, listed, frozenAs⟩ :=
    holds.exists_freezes (.between (.atStart script.toList) stop)
  rw [frozenAs]
  exact
    { file := rfl
      isTree := freezes.isTree isStory
      liesIn :=
        ⟨script, stripped,
          freezes.liesIn holds.forest (liesWithin_whole reaches) rfl⟩
      ofFile := fun inner => freezes.admits_of_mem holds.forest listed }

/-- What is read of a text is frozen from the node that its script gives. -/
theorem exists_frozen_of_readText
    (reads :
      readText library maxDepth (files + 1) text file session =
        .ok (story, ended)) :
    ∃ script root after,
      Comment.strip text = .ok script ∧
        Workshop.readScript maxDepth (inclusions library maxDepth files)
            (.start script.toList maxDepth
              { file := file, session := session }) =
          .matched root after ∧
        story =
          after.host.draft.freeze root
            (.between (.atStart script.toList) after.cursor) file := by
  simp only [readText, bind, Except.bind] at reads
  cases stripped : Comment.strip text with
  | error fault =>
      rw [stripped] at reads
      cases reads
  | ok script =>
      rw [stripped] at reads
      simp only at reads
      split at reads
      · next root after matched =>
          cases reads
          exact ⟨script, root, after, rfl, matched, rfl⟩
      -- A script does not fail.
      · next after failed =>
          have never :
              (Workshop.readScript maxDepth (inclusions library maxDepth files)
                (.start script.toList maxDepth
                  { file := file, session := session })).Ensures _ _ :=
            Grammar.ensures_script _ _ _
          rw [inclusions, failed] at never
          exact never.elim
      · cases reads

/-- What is read of a text is frozen from a tree that its script leaves in a draft. -/
theorem exists_holds_of_readText
    (reads :
      readText library maxDepth files text file session =
        .ok (story, ended)) :
    ∃ script draft root stop nodes content,
      Comment.strip text = .ok script ∧
        (Cursor.atStart script.toList).Reaches stop ∧
        Draft.Holds (.atStart script.toList) (IsOfFile library maxDepth) draft 0
          stop.offset [root] nodes ∧
        draft.kind? root = some (.story content) ∧
        story =
          draft.freeze root (.between (.atStart script.toList) stop) file := by
  cases files with
  | zero =>
      cases reads
  | succ files =>
      obtain ⟨script, root, after, stripped, matched, rfl⟩ :=
        exists_frozen_of_readText reads
      have ran :
          (Workshop.readScript maxDepth (inclusions library maxDepth files)
            _).Guarantees _ _ :=
        guarantees_readScript isExhaustion_of_readText script.toList file
          session
      rw [matched] at ran
      obtain ⟨reaches, nodes, holds, content, isStory⟩ := ran
      exact
        ⟨script, after.host.draft, root, after.cursor, nodes, content, stripped,
          reaches, holds, isStory, rfl⟩

/-- A reading that comes to an end gives a sound story. -/
theorem isSound_of_readText
    (reads :
      readText library maxDepth files text file session =
        .ok (story, ended)) :
    IsSound library maxDepth text file story := by
  obtain ⟨script, draft, root, stop, nodes, content, stripped, reaches, holds,
      isStory, rfl⟩ :=
    exists_holds_of_readText reads
  exact isSound_of_holds stripped reaches holds isStory

/-- Every story of a reading is that of the script, or that of a file of the library. -/
theorem isSound_of_readScript
    (reads : readScript library options text file = .ok reading) :
    IsSound library options.maxStackDepth text file reading.story := by
  simp only [readScript, bind, Except.bind] at reads
  split at reads
  · cases reads
  · next pair isRead =>
      cases reads
      exact isSound_of_readText isRead

/-- An included story is that of a file, and so are those that it includes. -/
theorem isOfFile_of_includes
    (reads : readScript library options text file = .ok reading)
    (includes : reading.story.Includes story) :
    IsOfFile library options.maxStackDepth story := by
  induction includes with
  | single member =>
      exact (isSound_of_readScript reads).ofFile _ member
  | tail _ member inductionHypothesis =>
      obtain ⟨files, name, content, session, ended, -, isRead, -⟩ :=
        inductionHypothesis
      exact (isSound_of_readText isRead).ofFile _ member

/-- Every story of a reading comes from reading some text. -/
theorem exists_readText
    (reads : readScript library options text file = .ok reading)
    (included : story = reading.story ∨ reading.story.Includes story) :
    ∃ files text file session ended,
      readText library options.maxStackDepth files text file session =
        .ok (story, ended) := by
  rcases included with rfl | includes
  · simp only [readScript, bind, Except.bind] at reads
    split at reads
    · cases reads
    · next pair isRead =>
        cases reads
        exact ⟨_, text, file, _, pair.2, isRead⟩
  · obtain ⟨files, name, content, session, ended, -, isRead, -⟩ :=
      isOfFile_of_includes reads includes
    exact ⟨files, content, some name, session, ended, isRead⟩

/-- An included story is sound for the text of the file that it names. -/
theorem exists_isSound_of_includes
    (reads : readScript library options text file = .ok reading)
    (includes : reading.story.Includes story) :
    ∃ name content,
      library.read (library.resolve name) = some content ∧
        IsSound library options.maxStackDepth content (some name) story := by
  obtain ⟨files, name, content, session, ended, found, isRead, -⟩ :=
    isOfFile_of_includes reads includes
  exact ⟨name, content, found, isSound_of_readText isRead⟩

/-- Every story that comes out of a reading is a tree. -/
theorem isTree_of_readScript
    (reads : readScript library options text file = .ok reading)
    (included :
      story = reading.story ∨ reading.story.Includes story) :
    story.IsTree := by
  rcases included with rfl | includes
  · exact (isSound_of_readScript reads).isTree
  · obtain ⟨name, content, -, sound⟩ :=
      exists_isSound_of_includes reads includes
    exact sound.isTree

/-- A script of two lines, one of which is a file, gives two trees. -/
theorem isTree_of_inclusion :
    ∃ reading inner,
      readScript (.ofFiles [("a.ink", "* b\n")]) {} "INCLUDE a.ink\nc\n" none =
          .ok reading ∧
        reading.story.Includes inner ∧
        reading.story.IsTree ∧
        inner.IsTree := by
  have includesOne :
      (readScript (.ofFiles [("a.ink", "* b\n")]) {} "INCLUDE a.ink\nc\n"
            none).toOption.any
          (!·.story.includedStories.isEmpty) =
        true := by
    decide +kernel
  cases reads :
      readScript (.ofFiles [("a.ink", "* b\n")]) {} "INCLUDE a.ink\nc\n"
        none with
  | error fault =>
      rw [reads] at includesOne
      cases includesOne
  | ok reading =>
      rw [reads] at includesOne
      obtain ⟨inner, member⟩ :
          ∃ inner, inner ∈ reading.story.includedStories := by
        apply List.exists_mem_of_ne_nil
        simpa [Except.toOption] using includesOne
      exact
        ⟨reading, inner, rfl, .single member,
          isTree_of_readScript reads (.inl rfl),
          isTree_of_readScript reads (.inr (.single member))⟩

/-- The nodes of all stories of a reading lie in the texts that these were read from. -/
theorem liesIn_of_readScript
    (reads : readScript library options text file = .ok reading) :
    (∃ script,
        Comment.strip text = .ok script ∧
          reading.story.LiesIn script.toList) ∧
      ∀ story, reading.story.Includes story →
        ∃ name content script,
          story.file = some name ∧
            library.read (library.resolve name) = some content ∧
            Comment.strip content = .ok script ∧
            story.LiesIn script.toList := by
  refine ⟨(isSound_of_readScript reads).liesIn, fun story includes => ?_⟩
  obtain ⟨name, content, found, sound⟩ :=
    exists_isSound_of_includes reads includes
  obtain ⟨script, stripped, lies⟩ := sound.liesIn
  exact ⟨name, content, script, sound.file, found, stripped, lies⟩

/-- A comment does not count for the places of what stands behind it. -/
theorem liesIn_behind_comment :
    ∃ reading script,
      readScript (.ofFiles []) {} "/* a\n */b\n" none = .ok reading ∧
        Comment.strip "/* a\n */b\n" = .ok script ∧
        script.toList = ['\n', 'b', '\n'] ∧
        reading.story.LiesIn script.toList := by
  have reading : (readScript (.ofFiles []) {} "/* a\n */b\n" none).isOk = true := by
    decide +kernel
  have stripped :
      (Comment.strip "/* a\n */b\n").toOption.map String.toList =
        some ['\n', 'b', '\n'] := by
    decide +kernel
  cases reads : readScript (.ofFiles []) {} "/* a\n */b\n" none with
  | error fault =>
      rw [reads] at reading
      cases reading
  | ok reading =>
      obtain ⟨⟨script, isScript, lies⟩, -⟩ := liesIn_of_readScript reads
      rw [isScript] at stripped
      exact ⟨reading, script, rfl, isScript, Option.some.inj stripped, lies⟩

end Reading

end InkSyntax

namespace InkSyntax.Reading

/-!
## Walks through the stories of a reading

The nodes below a node are found by way of the child lists, those above it by way of
the parent links.  In the stories of a reading both tell the same, and the numbers
of the nodes show it: what is below a node follows it without a gap.
-/

variable
    {library : Library}
    {options : Options}
    {maxDepth files : Nat}
    {text : String}
    {file : Option String}
    {session ended : Session}
    {story : Story}
    {reading : Reading}
    {id : NodeId}

theorem spreads_of_readText
    (reads :
      readText library maxDepth files text file session =
        .ok (story, ended)) :
    story.Spreads 0 [Story.root] story.size := by
  obtain ⟨script, draft, root, stop, nodes, content, -, -, holds, -, rfl⟩ :=
    exists_holds_of_readText reads
  obtain ⟨entries, frozen, freezes, -, frozenAs⟩ :=
    holds.exists_freezes (.between (.atStart script.toList) stop)
  rw [frozenAs]
  exact freezes.spreads file

/-- Descendants are the nodes right behind a node, ancestors lead from it to the root.

Neither walk is cut short by its number of steps, and a node is among the descendants
of another just if this one is among its ancestors. -/
theorem descendants_follow_and_ancestors_match
    (reads : readScript library options text file = .ok reading)
    (included : story = reading.story ∨ reading.story.Includes story)
    (inRange : id.index < story.size) :
    (∃ count,
        story.descendants id =
            (List.range' (id.index + 1) count).map NodeId.mk ∧
          {inner | story.IsAbove id inner}.ncard = count ∧
          id.index + count < story.size) ∧
      (id :: story.ancestors id).Pairwise
        (fun inner outer => outer.index < inner.index) ∧
      (id :: story.ancestors id).getLast? = some Story.root ∧
      (story.ancestors id = [] ↔ id = Story.root) ∧
      (∀ steps, story.size ≤ steps →
        story.subtreesFrom steps (story.children id) = story.descendants id ∧
          story.parentsFrom steps id = story.ancestors id) ∧
      ∀ other, other ∈ story.descendants id ↔ id ∈ story.ancestors other := by
  obtain ⟨files, text, file, session, ended, isRead⟩ :=
    exists_readText reads included
  have isTree := (isSound_of_readText isRead).isTree
  have spreads := spreads_of_readText isRead
  obtain ⟨count, ends, walks⟩ := spreads.exists_descendants_eq inRange
  have descendants := walks story.size (Nat.le_refl _)
  have below := spreads.mem_descendants_iff inRange
  have falls := isTree.pairwise_ancestors id
  have last := isTree.getLast?_ancestors inRange
  refine
    ⟨⟨count, descendants, ?_, ends⟩, falls, last, ?_, fun steps enough => ?_,
      fun other => (below other).trans isTree.mem_ancestors_iff.symm⟩
  · have once : (story.descendants id).Nodup := by
      rw [Story.descendants, descendants]
      exact List.Nodup.map (fun _ _ => NodeId.mk.inj) List.nodup_range'
    have asFinset :
        {inner | story.IsAbove id inner} = (story.descendants id).toFinset := by
      ext inner
      rw [List.coe_toFinset]
      exact (below inner).symm
    rw [asFinset, Set.ncard_coe_finset, List.toFinset_card_of_nodup once,
      Story.descendants, descendants, List.length_map, List.length_range']
  · constructor
    · intro noneAbove
      rw [noneAbove] at last
      exact Option.some.inj last
    · rintro rfl
      exact Story.IsTree.ancestors_of_no_parent isTree.parent?_root
  · exact
      ⟨(walks steps enough).trans descendants.symm,
        isTree.parentsFrom_eq (Nat.le_of_lt inRange) enough⟩

/-- The weave of an included file: it has five nodes below it, and one above. -/
theorem descendants_follow_and_ancestors_match_in_included_story :
    ∃ reading inner,
      readScript (.ofFiles [("a.ink", "* b\n")]) {} "INCLUDE a.ink\nc\n" none =
          .ok reading ∧
        reading.story.Includes inner ∧
        inner.ancestors ⟨1⟩ = [⟨0⟩] ∧
        inner.descendants ⟨1⟩ = [⟨2⟩, ⟨3⟩, ⟨4⟩, ⟨5⟩, ⟨6⟩] ∧
        ∀ other, other ∈ inner.descendants ⟨1⟩ ↔ ⟨1⟩ ∈ inner.ancestors other := by
  obtain ⟨reading, reads, includesOne⟩ :
      ∃ reading,
        readScript (.ofFiles [("a.ink", "* b\n")]) {} "INCLUDE a.ink\nc\n" none =
            .ok reading ∧
          reading.story.includedStories.any
              (fun inner =>
                inner.size == 7 &&
                  inner.ancestors ⟨1⟩ == [⟨0⟩] &&
                  inner.descendants ⟨1⟩ == [⟨2⟩, ⟨3⟩, ⟨4⟩, ⟨5⟩, ⟨6⟩]) =
            true := by
    apply exists_reading_of_any
    decide +kernel
  obtain ⟨inner, member, found⟩ := List.any_eq_true.mp includesOne
  simp only [Bool.and_eq_true, beq_iff_eq] at found
  obtain ⟨⟨isSize, above⟩, below⟩ := found
  have inRange : (⟨1⟩ : NodeId).index < inner.size := by
    rw [isSize]
    decide
  obtain ⟨-, -, -, -, -, matching⟩ :=
    descendants_follow_and_ancestors_match reads (.inr (.single member)) inRange
  exact ⟨reading, inner, reads, .single member, above, below, matching⟩

end InkSyntax.Reading
