import InkSyntax.Proofs.Reading.StoryShapes
import InkSyntax.Proofs.Reading.StoryTrees
import InkSyntax.Proofs.Story.Labels

namespace InkSyntax.Reading

/-!
# The lines of an outline

The outline of a reading lists every node of its story and of all that it includes.
Each node takes up one line, but for what its label takes from the text as it is.
Names end with their line, and so do the names of included files, which leaves the
name that the script itself was given and the literals of strings, where a line feed
may stand behind a backslash.
-/

variable
    {library : Library}
    {options : Options}
    {text : String}
    {file : Option String}
    {story : Story}
    {reading : Reading}

theorem comprises_iff :
    reading.story.Comprises story ↔
      story = reading.story ∨ reading.story.Includes story :=
  Relation.reflTransGen_iff_eq_or_transGen

/-- The stories of a reading are numbered in the order of their trees. -/
theorem isOrdered_of_comprises
    (reads : readScript library options text file = .ok reading)
    (comprises : reading.story.Comprises story) :
    story.IsOrdered := by
  obtain ⟨files, text, file, session, ended, isRead⟩ :=
    exists_readText reads (comprises_iff.mp comprises)
  exact ⟨(isSound_of_readText isRead).isTree, spreads_of_readText isRead⟩

theorem unbroken_labels_of_comprises_iff
    (reads : readScript library options text file = .ok reading)
    (comprises : reading.story.Comprises story) :
    (∀ id kind, story.kind? id = some kind → Unbroken (story.label id kind)) ↔
      story.IsUnbroken := by
  obtain ⟨files, text, file, session, ended, isRead⟩ :=
    exists_readText reads (comprises_iff.mp comprises)
  obtain ⟨roles, isStory, played⟩ := exists_roles_of_readText isRead
  exact
    Story.unbroken_labels_iff (isSound_of_readText isRead).isTree isStory played

/-- The name of an included file ends with the line that it stands in. -/
theorem unbroken_file_of_includes
    (reads : readScript library options text file = .ok reading)
    (includes : reading.story.Includes story) :
    ∀ name, story.file = some name → Unbroken name := by
  obtain ⟨files, named, content, session, ended, -, isRead, unbroken⟩ :=
    isOfFile_of_includes reads includes
  intro name isName
  rw [(isSound_of_readText isRead).file] at isName
  exact Option.some.inj isName ▸ unbroken

/-- Only the name of the script and the literals of strings can have line feeds. -/
theorem isUnbroken_of_comprises_iff
    (reads : readScript library options text file = .ok reading) :
    (∀ story, reading.story.Comprises story → story.IsUnbroken) ↔
      (∀ name, file = some name → Unbroken name) ∧
        ∀ story, reading.story.Comprises story → story.HasUnbrokenLiterals := by
  have isFile := (isSound_of_readScript reads).file
  constructor
  · intro unbroken
    refine ⟨?_, fun story comprises => (unbroken story comprises).literals⟩
    rw [← isFile]
    exact (unbroken reading.story .refl).file
  · rintro ⟨named, literals⟩ story comprises
    refine ⟨?_, literals story comprises⟩
    rcases comprises_iff.mp comprises with rfl | includes
    · rwa [isFile]
    · exact unbroken_file_of_includes reads includes

/-- An outline lists all nodes in order, and shows them one to a line just if the name of
the script and the literals of strings have no line feeds. -/
theorem outline_shows_one_node_per_line_iff
    (withSpans : Bool)
    (reads : readScript library options text file = .ok reading) :
    ∃ lines,
      reading.story.Lists 0 [Story.root] lines ∧
        lines.length = reading.story.total ∧
        reading.story.outline withSpans =
          String.join (lines.map fun line => line.text withSpans ++ "\n") ∧
        ((linesWithEnds (reading.story.outline withSpans).toList).length =
            reading.story.total ↔
          (∀ name, file = some name → Unbroken name) ∧
            ∀ story, reading.story.Comprises story → story.HasUnbrokenLiterals) ∧
        ((∀ name, file = some name → Unbroken name) →
          (∀ story, reading.story.Comprises story → story.HasUnbrokenLiterals) →
          linesWithEnds (reading.story.outline withSpans).toList =
            lines.map fun line => (line.text withSpans ++ "\n").toList) := by
  have areOrdered (inner : Story) (comprises : reading.story.Comprises inner) :
      inner.IsOrdered :=
    isOrdered_of_comprises reads comprises
  obtain ⟨lines, outlines⟩ := Story.exists_outlines withSpans areOrdered 0
  have unbroken :
      (∀ line ∈ lines, Unbroken (line.text withSpans)) ↔
        (∀ name, file = some name → Unbroken name) ∧
          ∀ story, reading.story.Comprises story → story.HasUnbrokenLiterals := by
    rw [outlines.unbroken_texts_iff areOrdered, ← isUnbroken_of_comprises_iff reads]
    exact
      forall₂_congr fun story comprises =>
        unbroken_labels_of_comprises_iff reads comprises
  exact
    ⟨lines, outlines.lists, outlines.total, outlines.outline_eq,
      outlines.length_linesWithEnds_iff.trans unbroken,
      fun named literals =>
        outlines.linesWithEnds_eq (unbroken.mpr ⟨named, literals⟩)⟩

/-- A script that is one inclusion: three nodes, six of the file, and nine lines. -/
theorem outline_shows_one_node_per_line_with_inclusion :
    ∃ reading inner,
      readScript (.ofFiles [("a.ink", "~ x = \"b\"\n")]) {} "INCLUDE a.ink\n" none =
          .ok reading ∧
        inner ∈ reading.story.includedStories ∧
        inner.size = 6 ∧
        reading.story.total = 9 ∧
        inner.HasUnbrokenLiterals ∧
        ∃ lines,
          reading.story.Lists 0 [Story.root] lines ∧
            linesWithEnds (reading.story.outline false).toList =
              lines.map fun line => (line.text false ++ "\n").toList := by
  obtain ⟨reading, reads, checked⟩ :
      ∃ reading,
        readScript (.ofFiles [("a.ink", "~ x = \"b\"\n")]) {} "INCLUDE a.ink\n"
              none =
            .ok reading ∧
          (reading.story.includedStories.any (·.size == 6) &&
              (reading.story.total == 9 &&
                (linesWithEnds (reading.story.outline false).toList).length == 9)) =
            true := by
    apply exists_reading_of_any
    decide +kernel
  simp only [Bool.and_eq_true, List.any_eq_true, beq_iff_eq] at checked
  obtain ⟨⟨inner, member, size⟩, total, count⟩ := checked
  obtain ⟨lines, lists, -, -, oneToALine, shown⟩ :=
    outline_shows_one_node_per_line_iff false reads
  obtain ⟨named, literals⟩ := oneToALine.mp (count.trans total.symm)
  exact
    ⟨reading, inner, reads, member, size, total, literals inner (.single member), lines,
      lists, shown named literals⟩

/-- The line feed behind a backslash breaks the line of the literal: six nodes, seven lines. -/
theorem outline_breaks_line_of_literal :
    (readScript (.ofFiles []) {} "~ x = \"a\\\nb\"\n" none).toOption.map
        (fun reading =>
          (reading.story.total,
            (linesWithEnds (reading.story.outline false).toList).length)) =
      some (6, 7) := by
  decide +kernel

end InkSyntax.Reading
