import InkSyntax.Proofs.Machine.Numerals
import InkSyntax.Proofs.Machine.ScannedTexts

namespace InkSyntax

/-!
# What raw scans leave behind

Each raw scanner is settled by the texts that it finds, which is said here without
reference to how it looks for them.  A raw scan that finds its text comes to stand behind
it.  One that finds none leaves the machine as it was, but for an integer that is too
large: its digits have been read over by the time that they are refused.
-/

/-- A number with a point is a numeral, the point and as many places as there are.

Where there are none, they count as one zero. -/
def Scanner.IsDecimal : Bool × String × String → List Char → List Char → Prop
  | (negative, whole, fraction), matched, rest =>
      ∃ (numeral : Numeral) (places : List Char),
        matched = numeral.written ++ '.' :: places ∧
          numeral.negative = negative ∧
          String.ofList numeral.digits = whole ∧
          places.all isDigit = true ∧
          StartsWithout isDigit rest ∧
          fraction.toList = if places.isEmpty then ['0'] else places

theorem Scanner.finds_decimalDigits :
    decimalDigits.Finds IsDecimal := by
  rintro text ⟨negative, whole, fraction⟩ length
  unfold decimalDigits
  constructor
  · intro scanned
    split at scanned
    · cases scanned
    · next negative' whole' length' found =>
        obtain ⟨numeral, rest, rfl, ends, rfl, rfl, rfl⟩ :=
          signedDigits_eq_some_iff.mp found
        rw [List.drop_left] at scanned
        split at scanned
        · next behind =>
            extract_lets places digits at scanned
            cases scanned
            refine
              ⟨numeral.written ++ '.' :: places, behind.dropWhile isDigit, ?_, ?_, numeral,
                places, rfl, rfl, rfl, List.all_takeWhile, startsWithout_dropWhile _ _, ?_⟩
            · rw [List.append_assoc, List.cons_append, List.takeWhile_append_dropWhile]
            · simp only [List.length_append, List.length_cons]
              omega
            · simp [digits]
        · cases scanned
  · rintro ⟨_, rest, rfl, rfl, numeral, places, rfl, rfl, rfl, areDigits, ends, isFraction⟩
    have point : StartsWithout isDigit ('.' :: (places ++ rest)) :=
      startsWithout_cons.mpr (by decide)
    have found := numeral.signedDigits_written point
    have run := takeWhile_run places areDigits ends
    rw [List.append_assoc, List.cons_append, found]
    simp only [List.drop_left, run]
    rw [← isFraction, String.ofList_toList]
    simp only [List.length_append, List.length_cons]
    congr 2
    omega

/-- The raw scans, each with what it is asked for. -/
inductive RawScan : Type → Type where
  | literal (expected : String) : RawScan Unit
  | anyChar : RawScan Char
  | chars (accept : Char → Bool) : RawScan String
  | charsAtMost (limit : Nat) (accept : Char → Bool) : RawScan String
  | lineBreak : RawScan Unit
  | integer : RawScan Int
  /-- A number with a decimal point: its sign, and its digits before and after the point. -/
  | decimal : RawScan (Bool × String × String)

namespace RawScan

/-- The rule by which a raw scan reads. -/
def rule {E : Type → Type 1} {α : Type} : RawScan α → Rule E α
  | literal expected => .literal expected
  | anyChar => .anyChar
  | chars accept => .chars accept
  | charsAtMost limit accept => .scan (.charsAtMost limit accept)
  | lineBreak => .lineBreak
  | integer => .integer
  | decimal => .scan .decimalDigits

/-- A text stands for the value of a raw scan, in front of what follows it. -/
def Matches {α : Type} : RawScan α → α → List Char → List Char → Prop
  | literal expected, _, matched, _ => matched = expected.toList
  | anyChar, character, matched, _ => matched = [character]
  | chars accept, found, matched, rest => Scanner.IsRun accept found matched rest
  | charsAtMost limit accept, found, matched, rest =>
      Scanner.IsRunWithin limit accept found matched rest
  | lineBreak, _, matched, _ => matched = ['\n'] ∨ matched = ['\r', '\n']
  | integer, value, matched, rest =>
      ∃ numeral : Numeral,
        matched = numeral.written ∧
          value = numeral.value ∧
          (numeral.magnitude : Int) ≤ Rule.integerBounds.2 ∧
          StartsWithout isDigit rest
  | decimal, found, matched, rest => Scanner.IsDecimal found matched rest

/-- A text begins with an integer that is too large for a raw scan. -/
def Overflows {α : Type} : RawScan α → List Char → Prop
  | integer, text =>
      ∃ (numeral : Numeral) (rest : List Char),
        text = numeral.written ++ rest ∧
          StartsWithout isDigit rest ∧
          Rule.integerBounds.2 < (numeral.magnitude : Int)
  | _, _ => False

section Running

variable
    {E : Type → Type 1}
    {H : Type}
    [Host H]
    {α : Type}
    {handle : {γ : Type} → E γ → Action H γ}
    {raw : RawScan α}
    {machine : Machine H}

/-- How a raw scan can come out. -/
inductive ComesTo
    (raw : RawScan α)
    (machine : Machine H) : Outcome H α → Prop where
  | found
      {value : α}
      {matched rest : List Char}
      (follows : machine.cursor.rest = matched ++ rest)
      (matches_ : raw.Matches value matched rest)
      (fits : ¬ raw.Overflows machine.cursor.rest) :
      ComesTo raw machine
        (.matched value (machine.moveTo (machine.cursor.advance matched.length)))
  | none
      (nothing :
        ∀ value matched rest,
          machine.cursor.rest = matched ++ rest → ¬ raw.Matches value matched rest)
      (fits : ¬ raw.Overflows machine.cursor.rest) :
      ComesTo raw machine (.failed machine)
  /-- An integer that is too large has been read over, which makes it no match. -/
  | overflow
      {after : Machine H}
      {length : Nat}
      (nothing :
        ∀ value matched rest,
          machine.cursor.rest = matched ++ rest → ¬ raw.Matches value matched rest)
      (overflows : raw.Overflows machine.cursor.rest)
      (moved : after.cursor = machine.cursor.advance length)
      (some_ : 0 < length)
      (within : length ≤ machine.cursor.rest.length) :
      ComesTo raw machine (.failed after)

theorem comesTo_of_finds
    {scanner : Scanner α}
    (finds : scanner.Finds raw.Matches)
    (fits : ¬ raw.Overflows machine.cursor.rest) :
    raw.ComesTo machine ((Rule.scan scanner : Rule E α).run handle machine) := by
  cases scanned : scanner machine.cursor.rest with
  | none =>
      rw [Rule.run_scan_of_none scanned]
      refine .none (fun value matched rest follows matches_ => ?_) fits
      have found := (finds _ _ _).mpr ⟨matched, rest, follows, rfl, matches_⟩
      cases scanned.symm.trans found
  | some result =>
      obtain ⟨value, length⟩ := result
      obtain ⟨matched, rest, follows, rfl, matches_⟩ := (finds _ _ _).mp scanned
      rw [Rule.run_scan_of_some scanned]
      exact .found follows matches_ fits

/-- An integer is read, or nothing is there to read, or it is too large. -/
theorem comesTo_integer :
    integer.ComesTo machine ((Rule.integer : Rule E Int).run handle machine) := by
  by_cases noDigits : Scanner.signedDigits machine.cursor.rest = none
  · have noNumeral
        (numeral : Numeral)
        (rest : List Char)
        (follows : machine.cursor.rest = numeral.written ++ rest) :
        ¬ StartsWithout isDigit rest := by
      intro ends
      rw [follows, numeral.signedDigits_written ends] at noDigits
      cases noDigits
    rw [Rule.integer_run_none noDigits]
    refine .none ?_ ?_
    · rintro value _ rest follows ⟨numeral, rfl, rfl, -, ends⟩
      exact noNumeral numeral rest follows ends
    · rintro ⟨numeral, rest, follows, ends, -⟩
      exact noNumeral numeral rest follows ends
  · obtain ⟨numeral, rest, follows, ends⟩ := exists_numeral_of_signedDigits noDigits
    have same
        (other : Numeral)
        (behind : List Char)
        (followsToo : machine.cursor.rest = other.written ++ behind)
        (endsToo : StartsWithout isDigit behind) :
        numeral.magnitude = other.magnitude :=
      Numeral.magnitude_unique (follows.symm.trans followsToo) ends endsToo
    by_cases within : (numeral.magnitude : Int) ≤ Rule.integerBounds.2
    · rw [Rule.integer_run_within follows ends within]
      refine .found follows ⟨numeral, rfl, rfl, within, ends⟩ ?_
      rintro ⟨other, behind, followsToo, endsToo, beyond⟩
      rw [← same other behind followsToo endsToo] at beyond
      exact Int.not_lt.mpr within beyond
    · have beyond := Int.not_le.mp within
      rw [Rule.integer_run_beyond follows ends beyond]
      refine
        .overflow ?_ ⟨numeral, rest, follows, ends, beyond⟩ (Machine.cursor_report _ _ _ _)
          numeral.length_written_pos ?_
      · rintro value _ behind followsToo ⟨other, rfl, rfl, withinToo, endsToo⟩
        rw [← same other behind followsToo endsToo] at withinToo
        exact within withinToo
      · rw [follows, List.length_append]
        exact Nat.le_add_right _ _

/-- Every raw scan comes out in one of these ways. -/
theorem comesTo_run
    (handle : {γ : Type} → E γ → Action H γ)
    (raw : RawScan α)
    (machine : Machine H) :
    raw.ComesTo machine (raw.rule.run handle machine) := by
  cases raw with
  | literal expected =>
      exact comesTo_of_finds (Scanner.finds_exactly expected.toList) id
  | anyChar =>
      exact comesTo_of_finds Scanner.finds_anyChar id
  | chars accept =>
      exact comesTo_of_finds (Scanner.finds_chars accept) id
  | charsAtMost limit accept =>
      exact comesTo_of_finds (Scanner.finds_charsAtMost limit accept) id
  | lineBreak =>
      exact comesTo_of_finds Scanner.finds_lineBreak id
  | integer =>
      exact comesTo_integer
  | decimal =>
      exact comesTo_of_finds Scanner.finds_decimalDigits id

end Running

/-- A raw scan that fails moves nothing, unless it is an integer that is too large.

It fails exactly where no text stands that matches.  One that matches ends directly behind
the text, which is as long as it can be, with its line and column there. -/
theorem failure_moves_nothing_iff
    {E : Type → Type 1}
    {H : Type}
    [Host H]
    {α : Type}
    (handle : {γ : Type} → E γ → Action H γ)
    (raw : RawScan α)
    (machine : Machine H) :
    let outcome := raw.rule.run handle machine
    (∀ fault, outcome ≠ .faulted fault) ∧
      ((∃ after, outcome = .failed after) ↔
        ∀ value matched rest,
          machine.cursor.rest = matched ++ rest → ¬ raw.Matches value matched rest) ∧
      (∀ after,
        outcome = .failed after →
        (after.cursor = machine.cursor ↔ ¬ raw.Overflows machine.cursor.rest)) ∧
      ∀ value after,
        outcome = .matched value after →
        ∃ matched,
          machine.cursor.rest = matched ++ after.cursor.rest ∧
            raw.Matches value matched after.cursor.rest ∧
            ∀ before,
              machine.cursor.Follows before → after.cursor.Follows (before ++ matched) := by
  intro outcome
  have comes : raw.ComesTo machine outcome := comesTo_run handle raw machine
  clear_value outcome
  cases comes with
  | found follows matches_ fits =>
      rename_i value matched rest
      have behind : (machine.cursor.advance matched.length).rest = rest := by
        rw [Cursor.rest_advance, follows, List.drop_left]
      refine ⟨nofun, iff_of_false nofun fun nothing => ?_, nofun, ?_⟩
      · exact nothing value matched rest follows matches_
      · rintro _ _ ⟨⟩
        refine ⟨matched, ?_, ?_, fun before stands => ?_⟩
        · exact behind.symm ▸ follows
        · exact behind.symm ▸ matches_
        · have advanced := stands.advance matched.length
          rw [follows, List.take_left] at advanced
          exact advanced
  | none nothing fits =>
      refine ⟨nofun, iff_of_true ⟨machine, rfl⟩ nothing, ?_, nofun⟩
      rintro _ ⟨⟩
      exact iff_of_true rfl fits
  | overflow nothing overflows moved some_ within =>
      rename_i after length
      refine ⟨nofun, iff_of_true ⟨after, rfl⟩ nothing, ?_, nofun⟩
      rintro _ ⟨⟩
      refine iff_of_false (fun same => ?_) fun fits => fits overflows
      -- Less text follows behind the digits than in front of them.
      have shorter := congrArg (·.rest.length) (moved.symm.trans same)
      simp only [Cursor.rest_advance, List.length_drop] at shorter
      omega

/-- A number whose point has no places behind it is read on the second line. -/
theorem failure_moves_nothing_at_decimal :
    let beginning : Machine Log := .start "a\r\n-3.x".toList 200 {}
    let start := beginning.moveTo (beginning.cursor.advance 3)
    start.cursor.Follows "a\r\n".toList ∧
      ∃ after,
        (decimal.rule : Rule RecipeEffect _).run (Log.handle fun _ => .failed) start =
            .matched (true, "3", "0") after ∧
          decimal.Matches (true, "3", "0") "-3.".toList after.cursor.rest ∧
          after.cursor.Follows ("a\r\n".toList ++ "-3.".toList) := by
  intro beginning start
  have stands : start.cursor.Follows "a\r\n".toList :=
    ⟨by decide +kernel, by decide +kernel, by decide +kernel⟩
  have found :
      Scanner.decimalDigits start.cursor.rest = some ((true, "3", "0"), 3) := by
    decide +kernel
  have ran :
      (decimal.rule : Rule RecipeEffect _).run (Log.handle fun _ => .failed) start =
        .matched (true, "3", "0") (start.moveTo (start.cursor.advance 3)) :=
    Rule.run_scan_of_some found
  obtain ⟨matched, follows, matches_, stood⟩ :=
    (failure_moves_nothing_iff (Log.handle fun _ => .failed) decimal start).2.2.2 _ _ ran
  have text : start.cursor.rest = "-3.".toList ++ ['x'] := by decide +kernel
  have behind : (start.moveTo (start.cursor.advance 3)).cursor.rest = ['x'] := by
    decide +kernel
  rw [text, behind] at follows
  obtain rfl := List.append_cancel_right follows
  exact ⟨stands, _, ran, matches_, stood _ stands⟩

/-- An integer that is too large fails behind its digits. -/
theorem too_large_integer_read_over :
    let start : Machine Log := .start "99999999999".toList 200 {}
    ∃ after,
      (integer.rule : Rule RecipeEffect Int).run (Log.handle fun _ => .failed) start =
          .failed after ∧
        start.cursor.offset = 0 ∧
        after.cursor = ⟨11, 0, 11, []⟩ := by
  intro start
  let numeral : Numeral :=
    ⟨false, [], "99999999999".toList, by decide, by decide, by decide⟩
  have follows : start.cursor.rest = numeral.written ++ [] := by decide +kernel
  have beyond : Rule.integerBounds.2 < (numeral.magnitude : Int) := by decide +kernel
  exact
    ⟨_, Rule.integer_run_beyond follows startsWithout_nil beyond, rfl, by decide +kernel⟩

end RawScan

end InkSyntax
