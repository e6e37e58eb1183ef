import InkSyntax.Machine.Recipe
import InkSyntax.Proofs.Machine.Cursors
import InkSyntax.Proofs.Machine.Outcome

namespace InkSyntax

/-!
# Numerals

A numeral is an integer as it may be written: with a minus sign or without, with blanks
behind the sign, and with as many digits as one likes.  Scanning finds exactly the
numerals, and reading an integer comes to the value of the numeral that stands there, or
refuses it with a report.
-/

/-- An integer as it is written. -/
structure Numeral where
  negative : Bool
  /-- What stands between the sign and the digits. -/
  blanks : List Char
  digits : List Char
  areBlanks : blanks.all isInlineBlank = true
  someDigit : digits ≠ []
  areDigits : digits.all isDigit = true

namespace Numeral

def sign (numeral : Numeral) : List Char :=
  if numeral.negative then ['-'] else []

def written (numeral : Numeral) : List Char :=
  numeral.sign ++ (numeral.blanks ++ numeral.digits)

def magnitude (numeral : Numeral) : Nat :=
  Rule.digitsValue (String.ofList numeral.digits)

def value (numeral : Numeral) : Int :=
  if numeral.negative then -(numeral.magnitude : Int) else numeral.magnitude

/-- What is said of a numeral that is refused; it states the bounds. -/
def refusal (numeral : Numeral) : String :=
  s!"Failed to read integer value: {String.ofList numeral.digits}. Perhaps it's out of the range of acceptable " ++
    s!"numbers ink supports? ({Rule.integerBounds.1} to {Rule.integerBounds.2})"

end Numeral

section Scanning

variable
    {character : Char}
    {text rest : List Char}
    {negative : Bool}
    {digits : String}
    {length : Nat}

theorem not_isInlineBlank_of_isDigit
    (digit : isDigit character = true) :
    isInlineBlank character = false := by
  apply Bool.eq_false_iff.mpr
  intro blank
  have isBlank : character = ' ' ∨ character = '\t' := by
    simpa [isInlineBlank] using blank
  rcases isBlank with rfl | rfl
  · exact absurd digit (by decide)
  · exact absurd digit (by decide)

namespace Numeral

theorem startsWithout_digits
    (numeral : Numeral)
    (rest : List Char) :
    StartsWithout isInlineBlank (numeral.digits ++ rest) := by
  have areDigits := numeral.areDigits
  obtain ⟨first, others, digits⟩ := List.exists_cons_of_ne_nil numeral.someDigit
  rw [digits] at areDigits ⊢
  exact
    startsWithout_cons.mpr
      (not_isInlineBlank_of_isDigit (Bool.and_eq_true_iff.mp areDigits).1)

/-- What stands behind the sign begins with a blank or a digit. -/
theorem head?_ne_minus
    (numeral : Numeral)
    (rest : List Char) :
    (numeral.blanks ++ (numeral.digits ++ rest)).head? ≠ some '-' := by
  have areBlanks := numeral.areBlanks
  have areDigits := numeral.areDigits
  intro first
  cases blanks : numeral.blanks with
  | cons blank others =>
      rw [blanks] at first areBlanks
      cases first
      exact absurd (Bool.and_eq_true_iff.mp areBlanks).1 (by decide)
  | nil =>
      obtain ⟨digit, others, digits⟩ := List.exists_cons_of_ne_nil numeral.someDigit
      rw [digits] at areDigits
      rw [blanks, digits] at first
      cases first
      exact absurd (Bool.and_eq_true_iff.mp areDigits).1 (by decide)

/-- A numeral with no digit behind it is found as it is written. -/
theorem signedDigits_written
    (numeral : Numeral)
    (ends : StartsWithout isDigit rest) :
    Scanner.signedDigits (numeral.written ++ rest) =
      some ((numeral.negative, String.ofList numeral.digits), numeral.written.length) := by
  have blanks :=
    takeWhile_run numeral.blanks numeral.areBlanks (numeral.startsWithout_digits rest)
  have digits := takeWhile_run numeral.digits numeral.areDigits ends
  have someDigit := numeral.someDigit
  have noMinus := numeral.head?_ne_minus rest
  unfold Scanner.signedDigits written sign
  cases numeral.negative with
  | true =>
      simp only [List.cons_append, List.nil_append, List.append_assoc, List.head?_cons,
        beq_self_eq_true, ↓reduceIte, List.tail_cons, blanks, List.drop_left, digits]
      congr 2
      simp only [List.length_cons, List.length_append]
      omega
  | false =>
      have noSign :
          ((numeral.blanks ++ (numeral.digits ++ rest)).head? == some '-') = false :=
        beq_eq_false_iff_ne.mpr noMinus
      simp only [Bool.false_eq_true, List.nil_append, List.append_assoc, noSign,
        ↓reduceIte, blanks, List.drop_left, digits, Nat.zero_add, List.length_append]

theorem length_written_pos
    (numeral : Numeral) :
    0 < numeral.written.length := by
  have some_ := List.length_pos_iff.mpr numeral.someDigit
  simp only [written, List.length_append]
  omega

/-- Numerals that stand at the same place have the same magnitude. -/
theorem magnitude_unique
    {numeral other : Numeral}
    {behind : List Char}
    (same : numeral.written ++ rest = other.written ++ behind)
    (ends : StartsWithout isDigit rest)
    (endsToo : StartsWithout isDigit behind) :
    numeral.magnitude = other.magnitude := by
  have found := numeral.signedDigits_written ends
  rw [same, other.signedDigits_written endsToo] at found
  simp only [Option.some.injEq, Prod.mk.injEq] at found
  rw [magnitude, magnitude, found.1.2]

end Numeral

/-- Where something is found, a numeral stands that has no digit behind it. -/
theorem exists_numeral_of_signedDigits
    (found : Scanner.signedDigits text ≠ none) :
    ∃ (numeral : Numeral) (rest : List Char),
      text = numeral.written ++ rest ∧ StartsWithout isDigit rest := by
  unfold Scanner.signedDigits at found
  extract_lets isNegative unsigned blanks at found
  split at found
  · exact absurd rfl found
  · next someDigit =>
      have signed : text = (if isNegative then ['-'] else []) ++ unsigned := by
        cases text with
        | nil =>
            rfl
        | cons first others =>
            by_cases isMinus : first = '-' <;> simp [isNegative, unsigned, isMinus]
      have run : blanks ++ unsigned.drop blanks.length = unsigned :=
        List.prefix_iff_eq_append.mp (List.takeWhile_prefix isInlineBlank)
      refine
        ⟨⟨isNegative, blanks, (unsigned.drop blanks.length).takeWhile isDigit,
            List.all_takeWhile, someDigit, List.all_takeWhile⟩,
          (unsigned.drop blanks.length).dropWhile isDigit, ?_, startsWithout_dropWhile _ _⟩
      rw [Numeral.written, List.append_assoc, List.append_assoc,
        List.takeWhile_append_dropWhile, run]
      exact signed

/-- What is found are the numerals that have no digit behind them. -/
theorem signedDigits_eq_some_iff :
    Scanner.signedDigits text = some ((negative, digits), length) ↔
      ∃ (numeral : Numeral) (rest : List Char),
        text = numeral.written ++ rest ∧
          StartsWithout isDigit rest ∧
          numeral.negative = negative ∧
          String.ofList numeral.digits = digits ∧
          numeral.written.length = length := by
  constructor
  · intro found
    obtain ⟨numeral, rest, rfl, ends⟩ :=
      exists_numeral_of_signedDigits (Option.ne_none_iff_exists'.mpr ⟨_, found⟩)
    have written := numeral.signedDigits_written ends
    obtain ⟨⟨rfl, rfl⟩, rfl⟩ : _ ∧ _ := by
      simpa using written.symm.trans found
    exact ⟨numeral, rest, rfl, ends, rfl, rfl, rfl⟩
  · rintro ⟨numeral, rest, rfl, ends, rfl, rfl, rfl⟩
    exact numeral.signedDigits_written ends

end Scanning

namespace Rule

section Integers

variable
    {E : Type → Type 1}
    {H : Type}
    [Host H]
    {handle : {γ : Type} → E γ → Action H γ}
    {numeral : Numeral}
    {machine : Machine H}
    {rest : List Char}

/-- A numeral whose magnitude is no larger than the largest integer is read. -/
theorem integer_run_within
    (stands : machine.cursor.rest = numeral.written ++ rest)
    (ends : StartsWithout isDigit rest)
    (within : (numeral.magnitude : Int) ≤ integerBounds.2) :
    (integer : Rule E Int).run handle machine =
      .matched numeral.value
        (machine.moveTo (machine.cursor.advance numeral.written.length)) := by
  have found := numeral.signedDigits_written ends
  rw [← stands] at found
  rw [integer, run_bind, run_scan_of_some found]
  rw [Numeral.magnitude] at within
  simp only [Outcome.andThen]
  rw [if_pos within]
  rfl

/-- Any other numeral is refused with a report, from behind its digits. -/
theorem integer_run_beyond
    (stands : machine.cursor.rest = numeral.written ++ rest)
    (ends : StartsWithout isDigit rest)
    (beyond : integerBounds.2 < (numeral.magnitude : Int)) :
    (integer : Rule E Int).run handle machine =
      let reached := machine.moveTo (machine.cursor.advance numeral.written.length)
      .failed (reached.report .error (reached.cursor.line + 1) numeral.refusal) := by
  have found := numeral.signedDigits_written ends
  rw [← stands] at found
  rw [integer, run_bind, run_scan_of_some found]
  rw [Numeral.magnitude] at beyond
  simp only [Outcome.andThen]
  rw [if_neg (Int.not_le.mpr beyond)]
  rfl

/-- Where no numeral stands, no integer is read. -/
theorem integer_run_none
    (noDigits : Scanner.signedDigits machine.cursor.rest = none) :
    (integer : Rule E Int).run handle machine = .failed machine := by
  rw [integer, run_bind, run_scan_of_none noDigits]
  rfl

end Integers

/-- An integer is read within the bounds that its refusal states, but for the smallest one.

At a numeral, of any length and with any leading zeros, an integer within the bounds is
read without a report, and one outside is reported once.  This holds of all values but the
lower bound itself, which is refused like those below it. -/
theorem integer_keeps_to_bounds_iff
    {E : Type → Type 1}
    {H : Type}
    [Host H]
    (handle : {γ : Type} → E γ → Action H γ)
    (numeral : Numeral)
    (rest : List Char)
    (machine : Machine H)
    (stands : machine.cursor.rest = numeral.written ++ rest)
    (ends : StartsWithout isDigit rest) :
    let reached := machine.moveTo (machine.cursor.advance numeral.written.length)
    let refused := reached.report .error (reached.cursor.line + 1) numeral.refusal
    let outcome := (integer : Rule E Int).run handle machine
    ((outcome =
          if integerBounds.1 ≤ numeral.value ∧ numeral.value ≤ integerBounds.2 then
            .matched numeral.value reached
          else
            .failed refused) ↔
        numeral.value ≠ integerBounds.1) ∧
      (numeral.value = integerBounds.1 → outcome = .failed refused) := by
  intro reached refused outcome
  have bounds : integerBounds = (-2147483648, 2147483647) := rfl
  by_cases within : (numeral.magnitude : Int) ≤ integerBounds.2
  · have ran : outcome = .matched numeral.value reached :=
      integer_run_within stands ends within
    have inBounds :
        integerBounds.1 < numeral.value ∧ numeral.value ≤ integerBounds.2 := by
      simp only [Numeral.value, bounds] at within ⊢
      split <;> omega
    rw [ran, if_pos ⟨Int.le_of_lt inBounds.1, inBounds.2⟩]
    exact
      ⟨iff_of_true rfl (Int.ne_of_gt inBounds.1), fun smallest =>
        absurd smallest (Int.ne_of_gt inBounds.1)⟩
  · have ran : outcome = .failed refused :=
      integer_run_beyond stands ends (Int.not_le.mp within)
    refine ⟨?_, fun _ => ran⟩
    rw [ran]
    have inBounds_iff :
        integerBounds.1 ≤ numeral.value ∧ numeral.value ≤ integerBounds.2 ↔
          numeral.value = integerBounds.1 := by
      simp only [Numeral.value, bounds] at within ⊢
      split <;> omega
    by_cases smallest : numeral.value = integerBounds.1
    · rw [if_pos (inBounds_iff.mpr smallest)]
      exact iff_of_false nofun fun other => other smallest
    · rw [if_neg (mt inBounds_iff.mp smallest)]
      exact iff_of_true rfl smallest

/-- A negative numeral is read with its blanks and its leading zeros. -/
theorem integer_keeps_to_bounds_above_smallest :
    let numeral : Numeral :=
      ⟨true, ['\t', ' '], "0002147483647".toList, by decide, by decide, by decide⟩
    let start : Machine Log := .start "-\t 0002147483647;".toList 200 {}
    start.cursor.rest = numeral.written ++ [';'] ∧
      StartsWithout isDigit [';'] ∧
      numeral.value = -2147483647 ∧
      (integer : Rule RecipeEffect Int).run (Log.handle fun _ => .failed) start =
        .matched (-2147483647) (start.moveTo ⟨16, 0, 16, [';']⟩) := by
  intro numeral start
  have stands : start.cursor.rest = numeral.written ++ [';'] := by
    decide +kernel
  have ends : StartsWithout isDigit [';'] := startsWithout_cons.mpr (by decide)
  have value : numeral.value = -2147483647 := by decide +kernel
  have ran :=
    (integer_keeps_to_bounds_iff (Log.handle fun _ => .failed) numeral [';'] start
      stands ends).1.mpr (by rw [value]; decide)
  rw [if_pos (by rw [value]; decide), value] at ran
  have reached :
      start.cursor.advance numeral.written.length = ⟨16, 0, 16, [';']⟩ := by
    decide +kernel
  rw [reached] at ran
  exact ⟨stands, ends, value, ran⟩

/-- The smallest integer is refused, with a report that names it as acceptable. -/
theorem smallest_integer_refused :
    let numeral : Numeral :=
      ⟨true, [], "2147483648".toList, by decide, by decide, by decide⟩
    let start : Machine Log := .start "-2147483648".toList 200 {}
    start.cursor.rest = numeral.written ++ [] ∧
      integerBounds.1 ≤ numeral.value ∧
      numeral.value ≤ integerBounds.2 ∧
      ∃ after,
        (integer : Rule RecipeEffect Int).run (Log.handle fun _ => .failed) start =
            .failed after ∧
          after.host.reports = [(numeral.refusal, 1, .error)] := by
  intro numeral start
  have stands : start.cursor.rest = numeral.written ++ [] := by decide +kernel
  have beyond : integerBounds.2 < (numeral.magnitude : Int) := by decide +kernel
  exact
    ⟨stands, by decide +kernel, by decide +kernel, _,
      integer_run_beyond stands startsWithout_nil beyond, rfl⟩

end Rule

end InkSyntax
