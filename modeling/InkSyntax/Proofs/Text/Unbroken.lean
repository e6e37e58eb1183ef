import InkSyntax.Story.Node
import InkSyntax.Text.Line
import InkSyntax.Text.Quoted
import Mathlib.Data.List.Basic

namespace InkSyntax

/-!
# Texts without line feeds

Numbers, places and quoted texts are shown without line feeds, and so is what is put
together from such texts.  Texts that are written one after the other, with a line
feed behind each, are the lines of the whole just if none of them has a line feed.
-/

/-- A text that has no line feed in it. -/
def Unbroken (text : String) : Prop := '\n' ∉ text.toList

instance (text : String) : Decidable (Unbroken text) :=
  inferInstanceAs (Decidable ('\n' ∉ text.toList))

section Composition

variable
    {first second separator : String}
    {texts : List String}

theorem unbroken_empty :
    Unbroken "" := by
  decide

@[simp] theorem unbroken_toString :
    Unbroken (toString first) ↔ Unbroken first :=
  Iff.rfl

@[simp] theorem unbroken_append :
    Unbroken (first ++ second) ↔ Unbroken first ∧ Unbroken second := by
  simp [Unbroken]

theorem unbroken_ofList
    {characters : List Char} :
    Unbroken (String.ofList characters) ↔ '\n' ∉ characters := by
  simp [Unbroken]

/-- Separators that are unbroken break nothing. -/
theorem unbroken_intercalate
    (between : Unbroken separator) :
    Unbroken (String.intercalate separator texts) ↔
      ∀ text ∈ texts, Unbroken text := by
  induction texts with
  | nil =>
      simp [unbroken_empty]
  | cons first rest inductionHypothesis =>
      cases rest with
      | nil =>
          simp
      | cons second others =>
          rw [String.intercalate_cons_cons, unbroken_append, unbroken_append,
            inductionHypothesis]
          simp [between]

end Composition

section Numbers

theorem lineFeed_notMem_toDigits
    {base : Nat}
    (two : 1 < base)
    (number : Nat) :
    '\n' ∉ Nat.toDigits base number := by
  induction number using Nat.strongRecOn with
  | ind number inductionHypothesis =>
      rw [Nat.toDigits_eq_if two]
      split
      · simp
      · next long =>
          have smaller : number / base < number :=
            Nat.div_lt_self (by omega) two
          simp [inductionHypothesis _ smaller]

@[simp] theorem unbroken_nat
    (number : Nat) :
    Unbroken number.repr := by
  rw [Nat.repr_eq_ofList_toDigits, unbroken_ofList]
  exact lineFeed_notMem_toDigits (by decide) number

@[simp] theorem unbroken_int
    (number : Int) :
    Unbroken number.repr := by
  cases number with
  | ofNat number =>
      exact unbroken_nat number
  | negSucc number =>
      have negative :
          (Int.negSucc number).repr = "-" ++ (number + 1).repr := rfl
      rw [negative, unbroken_append]
      exact ⟨by decide, unbroken_nat _⟩

namespace Decimal

theorem unbroken_plainText
    {digits : List Char}
    (noLineFeed : '\n' ∉ digits)
    (whole : Int) :
    Unbroken (plainText digits whole) := by
  have taken (count : Nat) : '\n' ∉ digits.take count :=
    fun member => noLineFeed (List.mem_of_mem_take member)
  have dropped (count : Nat) : '\n' ∉ digits.drop count :=
    fun member => noLineFeed (List.mem_of_mem_drop member)
  unfold plainText
  split
  · simp only [unbroken_append, String.ofList_append, unbroken_ofList]
    exact ⟨by decide, by simp, noLineFeed⟩
  · rw [unbroken_ofList]
    split <;> simp [taken, dropped]

theorem unbroken_exponentText
    {digits : List Char}
    (noLineFeed : '\n' ∉ digits)
    (power : Int) :
    Unbroken (exponentText digits power) := by
  have taken (count : Nat) : '\n' ∉ digits.take count :=
    fun member => noLineFeed (List.mem_of_mem_take member)
  have dropped : '\n' ∉ digits.tail :=
    fun member => noLineFeed (List.mem_of_mem_tail member)
  have mantissa :
      '\n' ∉ digits.take 1 ++
        if (digits.drop 1).isEmpty then [] else '.' :: digits.drop 1 := by
    split <;> simp [taken, dropped]
  simp only [exponentText, unbroken_append, unbroken_toString, unbroken_ofList]
  exact ⟨⟨mantissa, by decide⟩, unbroken_int power⟩

theorem unbroken_display
    (style : DecimalStyle)
    (decimal : Decimal) :
    Unbroken (decimal.display style) := by
  have noLineFeed :=
    lineFeed_notMem_toDigits (by decide : 1 < 10) decimal.digits
  unfold display
  extract_lets digits power
  split
  · decide
  · split
    · exact unbroken_plainText noLineFeed _
    · exact unbroken_exponentText noLineFeed _

end Decimal

theorem Binary32.unbroken_write
    (style : DecimalStyle)
    (number : Binary32) :
    Unbroken (number.write style) := by
  unfold write
  extract_lets magnitude
  have unbroken : Unbroken magnitude := by
    unfold magnitude
    split
    · decide
    · exact Decimal.unbroken_display _ _
  split
  · exact unbroken_append.mpr ⟨by decide, unbroken⟩
  · exact unbroken

theorem NumberValue.unbroken_display
    (value : NumberValue) :
    Unbroken value.display := by
  cases value with
  | int value =>
      exact unbroken_int value
  | float value =>
      exact Binary32.unbroken_write _ _
  | bool value =>
      cases value <;> decide

end Numbers

theorem Span.unbroken_display
    (span : Span) :
    Unbroken span.display := by
  simp +decide [display]

/-- Quoted texts are shown on one line, whatever they have in them. -/
theorem Quoted.unbroken_encode
    (text : String) :
    Unbroken (encode text) := by
  have hidden (character : Char) : '\n' ∉ encodeChar character := by
    unfold encodeChar
    split
    all_goals try decide
    next notLineFeed _ _ =>
      split
      · simpa using fun isLineFeed => notLineFeed isLineFeed.symm
      · simpa [hexadecimal] using lineFeed_notMem_toDigits (by decide) _
  simp only [encode, unbroken_ofList, List.mem_cons, List.mem_append,
    List.mem_flatMap, not_or, not_exists, not_and]
  exact ⟨by decide, fun character _ => hidden character, by decide⟩

section Lines

variable
    {text rest : List Char}
    {bodies : List (List Char)}

theorem linesWithEnds_ne_nil
    (nonempty : text ≠ []) :
    linesWithEnds text ≠ [] := by
  intro none_
  have whole := flatten_linesWithEnds text
  rw [none_] at whole
  exact nonempty whole.symm

/-- A character that is no line feed goes before the first line that there is. -/
theorem linesWithEnds_cons
    {character : Char}
    {line : List Char}
    {others : List (List Char)}
    (noLineFeed : character ≠ '\n')
    (lines : linesWithEnds text = line :: others) :
    linesWithEnds (character :: text) = (character :: line) :: others := by
  unfold linesWithEnds
  split
  · contradiction
  · next same => exact absurd (List.cons.inj same).1 noLineFeed
  · next same =>
      obtain ⟨rfl, rfl⟩ := List.cons.inj same
      rw [lines]

/-- Up to its first line feed a text is one line. -/
theorem linesWithEnds_append
    (noLineFeed : '\n' ∉ text)
    (rest : List Char) :
    linesWithEnds (text ++ '\n' :: rest) = (text ++ ['\n']) :: linesWithEnds rest := by
  induction text with
  | nil =>
      rfl
  | cons character text inductionHypothesis =>
      obtain ⟨other, others⟩ := List.ne_and_not_mem_of_not_mem_cons noLineFeed
      exact linesWithEnds_cons (Ne.symm other) (inductionHypothesis others)

/-- There are as many lines up to a line feed as line feeds. -/
theorem length_linesWithEnds_append
    (text rest : List Char) :
    (linesWithEnds (text ++ '\n' :: rest)).length =
      text.count '\n' + 1 + (linesWithEnds rest).length := by
  induction text with
  | nil =>
      exact Nat.add_comm _ _
  | cons character text inductionHypothesis =>
      by_cases isLineFeed : character = '\n'
      · subst isLineFeed
        have lines :
            linesWithEnds ('\n' :: (text ++ '\n' :: rest)) =
              ['\n'] :: linesWithEnds (text ++ '\n' :: rest) := rfl
        rw [List.cons_append, lines, List.length_cons, inductionHypothesis,
          List.count_cons_self]
        omega
      · have nonempty : text ++ '\n' :: rest ≠ [] := by simp
        obtain ⟨line, others, lines⟩ :=
          List.exists_cons_of_ne_nil (linesWithEnds_ne_nil nonempty)
        rw [List.cons_append, linesWithEnds_cons isLineFeed lines,
          List.count_cons_of_ne isLineFeed, ← inductionHypothesis, lines]
        rfl

/-- Texts with a line feed behind each are the lines of the whole if they are unbroken. -/
theorem linesWithEnds_flatMap
    (noLineFeed : ∀ body ∈ bodies, '\n' ∉ body) :
    linesWithEnds (bodies.flatMap (· ++ ['\n'])) = bodies.map (· ++ ['\n']) := by
  induction bodies with
  | nil =>
      rfl
  | cons body others inductionHypothesis =>
      obtain ⟨first, rest⟩ := List.forall_mem_cons.mp noLineFeed
      rw [List.flatMap_cons, List.append_assoc, List.singleton_append,
        linesWithEnds_append first, inductionHypothesis rest, List.map_cons]

/-- Otherwise there are more lines than texts. -/
theorem length_linesWithEnds_flatMap_iff :
    (linesWithEnds (bodies.flatMap (· ++ ['\n']))).length = bodies.length ↔
      ∀ body ∈ bodies, '\n' ∉ body := by
  have counted :
      (linesWithEnds (bodies.flatMap (· ++ ['\n']))).length =
        bodies.length + (bodies.map (·.count '\n')).sum := by
    induction bodies with
    | nil =>
        rfl
    | cons body others inductionHypothesis =>
        rw [List.flatMap_cons, List.append_assoc, List.singleton_append,
          length_linesWithEnds_append, inductionHypothesis, List.map_cons,
          List.sum_cons, List.length_cons]
        omega
  rw [counted, Nat.add_eq_left, List.sum_eq_zero_iff_forall_eq_nat]
  simp [List.count_eq_zero]

end Lines

end InkSyntax
