import InkSyntax.Proofs.Text.Unbroken
import Mathlib.Data.List.DropRight

namespace InkSyntax

/-!
# The bytes of a line

A text falls into lines, each with its line feed, and what follows the last line feed is
a line of its own.  The range of bytes of a line begins behind as many line feeds as
there are lines before it, and ends in front of the carriage returns and the line feed
that end it.  It never cuts a character in two, whatever the text holds.
-/

section Definitions

/-- How many lines a text has: one for each line feed, and one for what follows the last. -/
def lineCount (text : List Char) : Nat :=
  text.count '\n' + if text = [] ∨ text.getLast? = some '\n' then 0 else 1

/-- A range of bytes parts a text in three, between characters. -/
structure ByteRange.Parts
    (range : ByteRange)
    (text before covered after : String) : Prop where
  whole : text = before ++ covered ++ after
  offset : range.offset = before.utf8ByteSize
  length : range.length = covered.utf8ByteSize

/-- A stretch of a text is what stands in the line of a number, counted from one. -/
structure IsLine (number : Nat) (before line after : String) : Prop where
  lineFeeds : before.toList.count '\n' = number - 1
  start : before = "" ∨ before.toList.getLast? = some '\n'
  unbroken : Unbroken line
  trimmed : line.toList.getLast? ≠ some '\r'
  /-- Behind it there are only carriage returns up to a line feed or the end of the text. -/
  ends :
    ∃ returns rest,
      after.toList = List.replicate returns '\r' ++ rest ∧
        (rest = [] ∨ rest.head? = some '\n')

/-- The characters that a line loses at its end. -/
def endsLine (character : Char) : Bool := character == '\n' || character == '\r'

/-- How a text falls into lines. -/
inductive FallsInto : List Char → List (List Char) → Prop where
  | nothing : FallsInto [] []
  | last {body : List Char} (noLineFeed : '\n' ∉ body) (nonempty : body ≠ []) :
      FallsInto body [body]
  | line
      {body rest : List Char}
      {lines : List (List Char)}
      (noLineFeed : '\n' ∉ body)
      (others : FallsInto rest lines) :
      FallsInto (body ++ '\n' :: rest) ((body ++ ['\n']) :: lines)

end Definitions

variable
    {text found : List Char}
    {lines : List (List Char)}
    {index : Nat}

theorem byteLength_eq_utf8ByteSize
    (text : List Char) :
    byteLength text = (String.ofList text).utf8ByteSize := by
  induction text with
  | nil =>
      rfl
  | cons character rest inductionHypothesis =>
      rw [byteLength, inductionHypothesis, String.ofList_cons,
        String.utf8ByteSize_append, String.utf8ByteSize_singleton]

/-- Both ends of a range that parts a text are boundaries of characters. -/
theorem ByteRange.Parts.isValid
    {range : ByteRange}
    {text before covered after : String}
    (parts : range.Parts text before covered after) :
    String.Pos.Raw.IsValid text ⟨range.offset⟩ ∧
      String.Pos.Raw.IsValid text ⟨range.offset + range.length⟩ := by
  obtain ⟨whole, offset, length⟩ := parts
  rw [String.Pos.Raw.isValid_iff_exists_append, String.Pos.Raw.isValid_iff_exists_append]
  refine ⟨⟨before, covered ++ after, ?_, ?_⟩, before ++ covered, after, whole, ?_⟩
  · rw [whole, String.append_assoc]
  · rw [offset]
    rfl
  · rw [offset, length, ← String.utf8ByteSize_append]
    rfl

section Lines

theorem fallsInto_linesWithEnds
    (text : List Char) :
    FallsInto text (linesWithEnds text) := by
  fun_induction linesWithEnds text with
  | case1 =>
      exact .nothing
  | case2 rest inductionHypothesis =>
      exact .line List.not_mem_nil inductionHypothesis
  | case3 character rest other none_ inductionHypothesis =>
      rw [none_] at inductionHypothesis
      cases inductionHypothesis
      exact .last (by simpa using Ne.symm other) (by simp)
  | case4 character rest other line others lines inductionHypothesis =>
      rw [lines] at inductionHypothesis
      -- The character goes before the first line, whether or not that one is ended.
      cases inductionHypothesis with
      | last noLineFeed nonempty =>
          exact .last (by simp [noLineFeed, Ne.symm other]) (by simp)
      | @line body rest lines noLineFeed falls =>
          have noOther : '\n' ∉ character :: body := by simp [noLineFeed, Ne.symm other]
          exact .line noOther falls

/-- A text has one line for each line feed, and one that is not ended. -/
theorem FallsInto.length
    (falls : FallsInto text lines) :
    lines.length = lineCount text := by
  induction falls with
  | nothing =>
      rfl
  | @last body noLineFeed nonempty =>
      have notEnded : body.getLast? ≠ some '\n' :=
        fun ended => noLineFeed (List.mem_of_getLast? ended)
      simp [lineCount, List.count_eq_zero.mpr noLineFeed, nonempty, notEnded]
  | @line body rest lines noLineFeed others inductionHypothesis =>
      have sameEnd :
          (body ++ '\n' :: rest = [] ∨ (body ++ '\n' :: rest).getLast? = some '\n') ↔
            (rest = [] ∨ rest.getLast? = some '\n') := by
        cases rest <;> simp [List.getLast?_cons_cons]
      rw [List.length_cons, inductionHypothesis, lineCount, lineCount, List.count_append,
        List.count_eq_zero.mpr noLineFeed, List.count_cons_self]
      simp only [sameEnd]
      omega

/-- The line behind some others, with the text before and after it. -/
theorem FallsInto.exists_split
    (falls : FallsInto text lines)
    (isLine : lines[index]? = some found) :
    ∃ body before after,
      text = before ++ found ++ after ∧
        before = (lines.take index).flatten ∧
        before.count '\n' = index ∧
        (before = [] ∨ before.getLast? = some '\n') ∧
        '\n' ∉ body ∧
        (found = body ++ ['\n'] ∨ found = body ∧ after = []) := by
  induction falls generalizing index with
  | nothing =>
      cases isLine
  | @last body noLineFeed nonempty =>
      cases index with
      | zero =>
          obtain rfl := Option.some.inj isLine
          exact ⟨body, [], [], by simp, rfl, rfl, .inl rfl, noLineFeed, .inr ⟨rfl, rfl⟩⟩
      | succ index =>
          cases isLine
  | @line body rest lines noLineFeed others inductionHypothesis =>
      cases index with
      | zero =>
          obtain rfl := Option.some.inj isLine
          exact ⟨body, [], rest, by simp, rfl, rfl, .inl rfl, noLineFeed, .inl rfl⟩
      | succ index =>
          obtain ⟨inner, before, after, rfl, taken, lineFeeds, start, ends⟩ :=
            inductionHypothesis isLine
          refine ⟨inner, body ++ '\n' :: before, after, by simp, ?_, ?_, .inr ?_, ends⟩
          · simp [taken]
          · simp [List.count_eq_zero.mpr noLineFeed, lineFeeds]
          · cases before with
            | nil =>
                simp
            | cons head tail =>
                simpa using start

theorem withoutEnd_lineFeed
    (body : List Char) :
    withoutEnd (body ++ ['\n']) = withoutEnd body :=
  List.rdropWhile_concat_pos endsLine body '\n' (by decide)

/-- What has no line feed loses the carriage returns at its end. -/
theorem exists_returns
    {body : List Char}
    (noLineFeed : '\n' ∉ body) :
    ∃ returns,
      body = withoutEnd body ++ List.replicate returns '\r' ∧
        (withoutEnd body).getLast? ≠ some '\r' := by
  have whole : withoutEnd body ++ body.rtakeWhile endsLine = body :=
    List.rdropWhile_append_rtakeWhile
  have areReturns : ∀ character ∈ body.rtakeWhile endsLine, character = '\r' := by
    intro character member
    have ends : endsLine character = true := List.mem_rtakeWhile_imp member
    have other : character ≠ '\n' := fun isLineFeed =>
      noLineFeed (isLineFeed ▸ (List.rtakeWhile_suffix endsLine body).subset member)
    simpa [endsLine, other] using ends
  refine ⟨(body.rtakeWhile endsLine).length, ?_, fun isReturn => ?_⟩
  · rw [← List.eq_replicate_length.mpr areReturns, whole]
  · have nonempty : withoutEnd body ≠ [] := by
      rintro none_
      simp [none_] at isReturn
    have kept : ¬endsLine ((withoutEnd body).getLast nonempty) = true :=
      List.rdropWhile_last_not endsLine body nonempty
    rw [List.getLast?_eq_some_getLast nonempty, Option.some.injEq] at isReturn
    exact kept (by simp [endsLine, isReturn])

/-- What a line has in it, and what ends it. -/
theorem exists_ends
    {body after : List Char}
    (noLineFeed : '\n' ∉ body)
    (ends : found = body ++ ['\n'] ∨ found = body ∧ after = []) :
    ∃ returns rest,
      found ++ after = withoutEnd found ++ (List.replicate returns '\r' ++ rest) ∧
        (rest = [] ∨ rest.head? = some '\n') ∧
        '\n' ∉ withoutEnd found ∧
        (withoutEnd found).getLast? ≠ some '\r' := by
  obtain ⟨returns, whole, trimmed⟩ := exists_returns noLineFeed
  have unbroken : '\n' ∉ withoutEnd body := by
    rw [whole] at noLineFeed
    exact fun member => noLineFeed (List.mem_append_left _ member)
  rcases ends with rfl | ⟨rfl, rfl⟩
  · rw [withoutEnd_lineFeed]
    refine ⟨returns, '\n' :: after, ?_, .inr rfl, unbroken, trimmed⟩
    conv => lhs; rw [whole]
    simp
  · refine ⟨returns, [], ?_, .inl rfl, unbroken, trimmed⟩
    simpa using whole

end Lines

section Ranges

variable {text : String}

theorem lineRange_of_line
    (isLine : (linesWithEnds text.toList)[index]? = some found) :
    lineRange text (index + 1) =
      ⟨byteLength ((linesWithEnds text.toList).take index).flatten,
        byteLength (withoutEnd found)⟩ := by
  simp [lineRange, isLine]

theorem lineRange_of_no_line
    {number : Nat}
    (none_ : ¬(1 ≤ number ∧ number ≤ lineCount text.toList)) :
    lineRange text number = ⟨byteLength text.toList, 0⟩ := by
  rw [← (fallsInto_linesWithEnds text.toList).length] at none_
  cases number with
  | zero =>
      rfl
  | succ index =>
      have beyond : (linesWithEnds text.toList)[index]? = none := by
        rw [List.getElem?_eq_none_iff]
        omega
      simp [lineRange, beyond]

/-- The range of a line covers what stands in it, and nothing at the end of the text where
there is no such line. -/
theorem lineRange_selects_line
    (text : String)
    (number : Nat) :
    ∃ before covered after : String,
      (lineRange text number).Parts text before covered after ∧
        String.Pos.Raw.IsValid text ⟨(lineRange text number).offset⟩ ∧
        String.Pos.Raw.IsValid text
          ⟨(lineRange text number).offset + (lineRange text number).length⟩ ∧
        (1 ≤ number ∧ number ≤ lineCount text.toList →
          IsLine number before covered after) ∧
        (¬(1 ≤ number ∧ number ≤ lineCount text.toList) →
          covered = "" ∧ after = "") := by
  by_cases exists_ : 1 ≤ number ∧ number ≤ lineCount text.toList
  · have falls := fallsInto_linesWithEnds text.toList
    obtain ⟨index, rfl⟩ := Nat.exists_eq_add_of_le' exists_.1
    have short : index < (linesWithEnds text.toList).length := by
      rw [falls.length]
      omega
    have isLine := List.getElem?_eq_getElem short
    obtain ⟨body, before, after, whole, taken, lineFeeds, start, noLineFeed, ends⟩ :=
      falls.exists_split isLine
    obtain ⟨returns, rest, split, ended, unbroken, trimmed⟩ := exists_ends noLineFeed ends
    have parts :
        (lineRange text (index + 1)).Parts text (.ofList before)
          (.ofList (withoutEnd (linesWithEnds text.toList)[index]))
          (.ofList (List.replicate returns '\r' ++ rest)) := by
      rw [lineRange_of_line isLine, ← taken]
      refine ⟨?_, byteLength_eq_utf8ByteSize _, byteLength_eq_utf8ByteSize _⟩
      rw [← String.ofList_append, ← String.ofList_append, List.append_assoc, ← split,
        ← List.append_assoc, ← whole, String.ofList_toList]
    refine ⟨_, _, _, parts, parts.isValid.1, parts.isValid.2, fun _ => ?_, absurd exists_⟩
    exact
      { lineFeeds := by simpa using lineFeeds
        start := by simpa using start
        unbroken := unbroken_ofList.mpr unbroken
        trimmed := by simpa using trimmed
        ends := ⟨returns, rest, String.toList_ofList, ended⟩ }
  · have parts :
        (lineRange text number).Parts text text "" "" := by
      rw [lineRange_of_no_line exists_]
      refine ⟨by simp, ?_, rfl⟩
      simp [byteLength_eq_utf8ByteSize]
    exact
      ⟨text, "", "", parts, parts.isValid.1, parts.isValid.2,
        fun isLine => absurd isLine exists_, fun _ => ⟨rfl, rfl⟩⟩

/-- The first line takes five bytes, its end included. -/
example : lineRange "né\r\nb" 2 = ⟨5, 1⟩ := by
  decide

end Ranges

end InkSyntax
