import InkSyntax.Proofs.Reading.IncludedReadings
import InkSyntax.Proofs.Reading.StatementHeads

namespace InkSyntax.Grammar

/-!
# Words of statements as whole words

A line with a declaration or a reminder begins with its word, and a longer name in that
place is another word.  An inclusion only looks for the letters of its word: whatever
stands behind them on the line is the name of the file, more letters as well.
-/

open Machine (Silent)
open Reading (Site exists_reading_of_any)

/-- The statements that begin with a word in capitals. -/
inductive WordedStatement where
  | global
  | constant
  | list
  | external
  | reminder
  | inclusion
  deriving DecidableEq, Repr

namespace WordedStatement

/-- The word that a statement begins with. -/
def word : WordedStatement → String
  | global => "VAR"
  | constant => "CONST"
  | list => "LIST"
  | external => "EXTERNAL"
  | reminder => "TODO"
  | inclusion => "INCLUDE"

/-- The rule of a statement. -/
def rule : WordedStatement → GrammarRule NodeId
  | global => variableDeclaration
  | constant => constantDeclaration
  | list => listDeclaration
  | external => externalDeclaration
  | reminder => Grammar.reminder
  | inclusion => Grammar.inclusion

end WordedStatement

variable
    {library : Library}
    {maxDepth files levels depth : Nat}
    {machine : Machine Workshop}
    {kinds : List StoryKind}
    {text more behind : List Char}
    {statement : WordedStatement}

/-- A word with further letters is another word. -/
theorem takeWhile_isIdentifierChar_ne
    (word : String)
    (someMore : more ≠ [])
    (letters : more.all isIdentifierChar = true)
    (behind : List Char) :
    (word.toList ++ more ++ behind).takeWhile isIdentifierChar ≠ word.toList := by
  intro same
  have whole : word.toList.all isIdentifierChar = true := by
    rw [← same]
    exact List.all_takeWhile
  have longer : (word.toList ++ more).all isIdentifierChar = true := by
    rw [List.all_append, whole, letters, Bool.and_true]
  rw [List.takeWhile_append_of_pos (List.all_eq_true.mp longer)] at same
  have lengths := congrArg List.length same
  simp only [List.length_append] at lengths
  have positive := List.length_pos_iff.mpr someMore
  omega

theorem fails_declarationWord_longer
    {word : String}
    (begins : withoutBlanks text = word.toList ++ more ++ behind)
    (someMore : more ≠ [])
    (letters : more.all isIdentifierChar = true) :
    Fails (declarationWord word) (depth + 2) ⟨text, kinds⟩ := by
  apply (comesTo_skipBlanks begins).bind_fails
  have other := takeWhile_isIdentifierChar_ne word someMore letters behind
  exact (fails_keyword other).bind

/-- A declaration or a reminder does not begin with a longer word. -/
theorem WordedStatement.fails_longer
    (notInclusion : statement ≠ .inclusion)
    (begins : withoutBlanks text = statement.word.toList ++ more ++ behind)
    (someMore : more ≠ [])
    (letters : more.all isIdentifierChar = true) :
    Fails statement.rule (depth + 2) ⟨text, kinds⟩ := by
  have fails : Fails (declarationWord statement.word) (depth + 2) ⟨text, kinds⟩ :=
    fails_declarationWord_longer begins someMore letters
  cases statement with
  | global | constant | list | external | reminder =>
      exact fails.bind
  | inclusion =>
      exact absurd rfl notInclusion

/-- What is left of the line is the name of a file, without the blanks at its end. -/
def fileNameOn (text : List Char) : String :=
  trimEnd (String.ofList (text.takeWhile fun c => c != '\n' && c != '\r'))

/-- Running a rule in front of others is running the others from where it ends. -/
theorem ComesTo.exists_goesOn
    {α β : Type}
    {first : GrammarRule α}
    {page middle : Page}
    {value : α}
    (comes : ComesTo first depth page (some value) middle)
    (ready : machine.IsReady depth levels page)
    (next : α → GrammarRule β) :
    ∃ after,
      Silent machine after ∧
        after.IsReady depth levels middle ∧
        Site.outcome library maxDepth ⟨files, levels, first >>= next, machine⟩ =
          Site.outcome library maxDepth ⟨files, levels, next value, after⟩ := by
  obtain ⟨after, silent, at_, ran⟩ :=
    comes library maxDepth files levels machine ready
  refine ⟨after, silent, ready.behind silent at_, ?_⟩
  change Outcome.andThen (Site.outcome library maxDepth
    ⟨files, levels, first, machine⟩) _ = _
  rw [ran]
  rfl

/-- Further letters behind the word of an inclusion belong to the name of its file. -/
theorem exists_asked_of_inclusion_longer
    (ready : machine.IsReady 1 levels machine.page)
    (begins :
      withoutBlanks machine.cursor.rest = "INCLUDE".toList ++ more ++ behind)
    (someMore : more ≠ [])
    (letters : more.all isIdentifierChar = true) :
    ∃ asked,
      Silent machine asked ∧
        Site.outcome library maxDepth ⟨files, levels, inclusion, machine⟩ =
          Site.outcome library maxDepth
            ⟨files, levels, includedNode (fileNameOn (more ++ behind)), asked⟩ := by
  obtain ⟨first, others, rfl⟩ := List.exists_cons_of_ne_nil someMore
  have isFirst : isIdentifierChar first = true :=
    (Bool.and_eq_true_iff.mp letters).1
  have dark : withoutBlanks (first :: others ++ behind) = first :: others ++ behind :=
    (startsWithout_cons.mpr
      (not_isInlineBlank_of_isIdentifierChar isFirst)).dropWhile
  have inLine : (first != '\n' && first != '\r') = true := by
    rw [Bool.and_eq_true, bne_iff_ne, bne_iff_ne]
    constructor <;> rintro rfl <;> exact absurd isFirst (by decide)
  have named :
      (first :: others ++ behind).takeWhile (fun c => c != '\n' && c != '\r') ≠ [] := by
    simp [inLine]
  rw [inclusion_eq_includedNode]
  obtain ⟨atWord, toWord, readyAtWord, ran⟩ :=
    (comesTo_skipBlanks begins).exists_goesOn ready _
  rw [ran]
  have stands :
      "INCLUDE".toList ++ first :: others ++ behind =
        "INCLUDE".toList ++ (first :: others ++ behind) :=
    List.append_assoc _ _ _
  obtain ⟨behindWord, toBehind, readyBehind, ran⟩ :=
    (comesTo_literal stands).exists_goesOn readyAtWord _
  rw [ran]
  obtain ⟨atName, toName, readyAtName, ran⟩ :=
    (comesTo_skipBlanks dark).exists_goesOn readyBehind _
  rw [ran]
  let rest := first :: others ++ behind
  have written :
      ComesTo
        (Rule.attempt (Rule.expect restOfLine "filename for include statement"))
        1 ⟨rest, machine.page.kinds⟩
        (some (some (String.ofList (rest.takeWhile fun c => c != '\n' && c != '\r'))))
        ⟨rest.dropWhile fun c => c != '\n' && c != '\r', machine.page.kinds⟩ :=
    (comesTo_chars 0 machine.page.kinds named).expect.attempt
  obtain ⟨asked, toAsked, -, ran⟩ := written.exists_goesOn readyAtName _
  rw [ran]
  exact ⟨asked, ((toWord.trans toBehind).trans toName).trans toAsked, rfl⟩

/-- Asking for a file gives a node, or breaks the reading off. -/
theorem includedNode_ne_failed
    {file : String}
    {after : Machine Workshop} :
    Site.outcome library maxDepth ⟨files, levels, includedNode file, machine⟩ ≠
      .failed after := by
  have included :
      Ensures library maxDepth files levels (.effect (.include file)) machine
        (fun _ _ => True) (fun _ => False) := by
    change (Reading.inclusions library maxDepth files file machine).Ensures _ _
    simp only [Reading.inclusions, Reading.includeFile]
    split
    · trivial
    · split
      · trivial
      · split <;> trivial
  have never :
      Ensures library maxDepth files levels (includedNode file) machine
        (fun _ _ => True) (fun _ => False) := by
    apply ensures_bind
    apply ensures_bind
    apply included.mono _ fun _ => id
    rintro (story | path | -) after - <;> trivial
  exact (Outcome.ensures_iff.mp never).2 after

/-- A longer word begins no declaration and no reminder, but it does begin an inclusion.

Instead of failing, the rule of an inclusion asks for the file that the rest of the line
names, from the letters on that follow its word. -/
theorem words_are_whole_iff
    (ready : machine.IsReady 2 levels machine.page)
    (begins :
      withoutBlanks machine.cursor.rest =
        statement.word.toList ++ more ++ behind)
    (someMore : more ≠ [])
    (letters : more.all isIdentifierChar = true) :
    ((∃ after,
        Silent machine after ∧
          Site.outcome library maxDepth ⟨files, levels, statement.rule, machine⟩ =
            .failed after) ↔
        statement ≠ .inclusion) ∧
      (statement = .inclusion →
        ∃ asked,
          Silent machine asked ∧
            Site.outcome library maxDepth
                ⟨files, levels, statement.rule, machine⟩ =
              Site.outcome library maxDepth
                ⟨files, levels, includedNode (fileNameOn (more ++ behind)),
                  asked⟩) := by
  have asks (isInclusion : statement = .inclusion) :
      ∃ asked,
        Silent machine asked ∧
          Site.outcome library maxDepth ⟨files, levels, statement.rule, machine⟩ =
            Site.outcome library maxDepth
              ⟨files, levels, includedNode (fileNameOn (more ++ behind)), asked⟩ := by
    subst isInclusion
    exact
      exists_asked_of_inclusion_longer (ready.mono (Nat.le_succ 1)) begins
        someMore letters
  refine ⟨⟨?_, ?_⟩, asks⟩
  · rintro ⟨after, -, failed⟩ isInclusion
    obtain ⟨asked, -, ran⟩ := asks isInclusion
    exact includedNode_ne_failed (ran.symm.trans failed)
  · intro notInclusion
    obtain ⟨last, comes⟩ : Fails statement.rule 2 machine.page :=
      WordedStatement.fails_longer notInclusion begins someMore letters
    obtain ⟨after, silent, -, failed⟩ :=
      comes library maxDepth files levels machine ready
    exact ⟨after, silent, failed⟩

/-- A line about variety is no declaration of a variable. -/
theorem words_are_whole_at_variety :
    let start : Machine Workshop :=
      .start " VARIETY, they say\n".toList 200 { file := none, session := {} }
    start.IsReady 2 2 start.page ∧
      ∃ after,
        Silent start after ∧
          Site.outcome (.ofFiles []) 200 ⟨0, 2, variableDeclaration, start⟩ =
            .failed after := by
  intro start
  have ready : start.IsReady 2 2 start.page :=
    Machine.IsReady.start _ _ (by decide) (by decide)
  have begins :
      withoutBlanks start.cursor.rest =
        WordedStatement.global.word.toList ++ "IETY".toList ++
          ", they say\n".toList := by
    decide
  refine
    ⟨ready, (words_are_whole_iff ready begins ?someMore ?letters).1.mpr ?declares⟩
  case someMore =>
    decide
  case letters =>
    decide
  case declares =>
    decide

/-- The line `INCLUDEs x` asks for a file of the name `s x`. -/
theorem longer_word_includes_file :
    let start : Machine Workshop :=
      .start "INCLUDEs x\n".toList 200 { file := none, session := {} }
    (¬ ∃ after,
        Silent start after ∧
          Site.outcome (.ofFiles []) 200 ⟨1, 2, inclusion, start⟩ =
            .failed after) ∧
      ∃ reading,
        readScript (.ofFiles []) {} "INCLUDEs x\n" none = .ok reading ∧
          reading.requested.map (·.text) = ["s x"] ∧
          reading.diagnostics.map (·.message) = ["Failed to load: 's x'"] ∧
          reading.story.nodes.map (·.kind.name) =
            ["Story", "Weave", "IncludedFile"] := by
  intro start
  constructor
  · rintro ⟨after, -, failed⟩
    have matches_ :
        Site.yields (.ofFiles []) 200 ⟨1, 2, inclusion, start⟩ (fun _ => true) =
          true := by
      decide +kernel
    obtain ⟨id, -, matched⟩ := Site.exists_matched_of_yields matches_
    cases failed.symm.trans matched
  · obtain ⟨reading, reads, found⟩ :
        ∃ reading,
          readScript (.ofFiles []) {} "INCLUDEs x\n" none = .ok reading ∧
            (reading.requested.map (·.text) == ["s x"] &&
                reading.diagnostics.map (·.message) ==
                  ["Failed to load: 's x'"] &&
                reading.story.nodes.map (·.kind.name) ==
                  ["Story", "Weave", "IncludedFile"]) =
              true := by
      apply exists_reading_of_any
      decide +kernel
    simp only [Bool.and_eq_true, beq_iff_eq] at found
    obtain ⟨⟨requested, complains⟩, kinds⟩ := found
    exact ⟨reading, reads, requested, complains, kinds⟩

end InkSyntax.Grammar
