import InkSyntax.Grammar.Flow
import Mathlib.Data.List.DropRight

namespace InkSyntax.Grammar

/-!
# Malformed headers

Whether the header of a knot or stitch is malformed can be told from the text
alone: its name is missing, a parameter has no name, or the parameters are not
closed.  What is said here about texts follows the words of a header and knows
nothing of scopes, nodes or diagnostics.
-/

/-- A text without the blanks in front of it. -/
def withoutBlanks (text : List Char) : List Char :=
  text.dropWhile isInlineBlank

@[simp] theorem withoutBlanks_withoutBlanks
    (text : List Char) :
    withoutBlanks (withoutBlanks text) = withoutBlanks text :=
  List.dropWhile_idempotent isInlineBlank text

/-- What follows some characters at the start of a text. -/
def following? (expected : String) (text : List Char) :
    Option (List Char) :=
  if expected.toList.isPrefixOf text then
    some (text.drop expected.toList.length)
  else none

/-- The name at the start of a text, and what follows it. -/
def nameAt? (text : List Char) : Option (String × List Char) :=
  let word := text.takeWhile isIdentifierChar
  if word.all isDigit then none
  else some (String.ofList word, text.drop word.length)

/-- What follows the name at the start of a text, if there is one. -/
def afterName (text : List Char) : List Char :=
  match nameAt? text with
  | some (_, rest) => rest
  | none => text

/-- Where the arrow of a parameter may stand. -/
def arrowText (text : List Char) : List Char :=
  withoutBlanks (afterName text)

/-- Where the second name of a parameter may stand. -/
def secondText (text : List Char) : List Char :=
  withoutBlanks ((following? "->" (arrowText text)).getD (arrowText text))

/-- The parameter at the start of a text: whether it is malformed, and what follows. -/
def parameterAt? (text : List Char) : Option (Bool × List Char) :=
  let first := (nameAt? text).map (·.1)
  let isDivertTarget := (following? "->" (arrowText text)).isSome
  let second := (nameAt? (secondText text)).map (·.1)
  if first.isNone && second.isNone then none
  else
    some ((chosenName first isDivertTarget second).isNone,
      afterName (secondText text))

/-- The parameter at the start of a text with blanks around it. -/
def spacedParameterAt? (text : List Char) : Option (Bool × List Char) :=
  (parameterAt? (withoutBlanks text)).map fun (malformed, rest) =>
    (malformed, withoutBlanks rest)

/-- Whether a parenthesis closes at the start of a text. -/
def closes (text : List Char) : Bool := text.head? == some ')'

theorem length_withoutBlanks_le
    (text : List Char) :
    (withoutBlanks text).length ≤ text.length :=
  (List.dropWhile_sublist isInlineBlank).length_le

theorem length_afterName_le
    (text : List Char) :
    (afterName text).length ≤ text.length := by
  simp only [afterName, nameAt?]
  by_cases digits : (text.takeWhile isIdentifierChar).all isDigit = true
  · simp [digits]
  · simp [digits]

theorem length_following?_le
    {expected : String}
    {text rest : List Char}
    (follows : following? expected text = some rest) :
    rest.length ≤ text.length := by
  simp only [following?] at follows
  split at follows
  · cases follows
    simp
  · cases follows

theorem length_secondText_le
    (text : List Char) :
    (secondText text).length ≤ text.length := by
  have arrow : (arrowText text).length ≤ text.length :=
    Nat.le_trans (length_withoutBlanks_le _) (length_afterName_le _)
  refine Nat.le_trans (length_withoutBlanks_le _) ?_
  cases follows : following? "->" (arrowText text) with
  | none =>
      exact arrow
  | some rest =>
      exact Nat.le_trans (length_following?_le follows) arrow

theorem length_parameterAt?_le
    {text rest : List Char}
    {malformed : Bool}
    (found : parameterAt? text = some (malformed, rest)) :
    rest.length ≤ text.length := by
  simp only [parameterAt?] at found
  split at found
  · cases found
  · cases found
    exact
      Nat.le_trans (length_afterName_le _) (length_secondText_le text)

/-- A parameter takes up a part of the text. -/
theorem length_spacedParameterAt?_le
    {text rest : List Char}
    {malformed : Bool}
    (found : spacedParameterAt? text = some (malformed, rest)) :
    rest.length ≤ text.length := by
  simp only [spacedParameterAt?, Option.map_eq_some_iff] at found
  obtain ⟨⟨_, inner⟩, foundInner, same⟩ := found
  cases same
  exact
    Nat.le_trans (length_withoutBlanks_le inner)
      (Nat.le_trans (length_parameterAt?_le foundInner)
        (length_withoutBlanks_le text))

/-- Whether what follows a parameter, up to the end of the list, is malformed.

A comma without a parameter after it counts as the end of the list, which is
malformed unless the list closes right after the comma. -/
def malformedMore (text : List Char) : Bool :=
  match text with
  | ',' :: more =>
      match found : spacedParameterAt? more with
      | none => !closes more
      | some (true, _) => true
      | some (false, rest) =>
          have := length_spacedParameterAt?_le found
          malformedMore rest
  | rest => !closes rest
termination_by text.length

/-- Whether what follows the opening parenthesis of a list is malformed. -/
def malformedList (text : List Char) : Bool :=
  match spacedParameterAt? text with
  | none => !closes text
  | some (true, _) => true
  | some (false, rest) => malformedMore rest

theorem malformedMore_of_comma
    {text more : List Char}
    (comma : following? "," text = some more) :
    malformedMore text = malformedList more := by
  cases text with
  | nil =>
      cases comma
  | cons first others =>
      simp only [following?] at comma
      split at comma
      · next begins =>
          cases comma
          obtain rfl : first = ',' := by
            simpa using Eq.symm (by simpa using begins)
          rw [malformedMore, malformedList]
          split <;> split <;> simp_all
      · cases comma

theorem malformedMore_of_not_comma
    {text : List Char}
    (noComma : following? "," text = none) :
    malformedMore text = !closes text := by
  rw [malformedMore]
  rintro more rfl
  simp [following?] at noComma

/-- A list closes exactly where its parenthesis can be read. -/
theorem isSome_following?_close
    (text : List Char) :
    (following? ")" text).isSome = closes text := by
  cases text with
  | nil =>
      rfl
  | cons first others =>
      by_cases closing : first = ')'
      · subst closing
        rfl
      · have opening : ¬ ')' = first := fun same => closing same.symm
        simp [following?, closes, closing, opening]

/-- Whether parameters in parentheses are malformed; there need not be any. -/
def malformedParameters (text : List Char) : Bool :=
  match following? "(" (withoutBlanks text) with
  | none => false
  | some inside => malformedList inside

/-- Whether what follows the word `function` is malformed: a blank and a name are due. -/
def malformedFunction (text : List Char) : Bool :=
  !(text.head?.any isInlineBlank) ||
    match nameAt? (withoutBlanks text) with
    | none => true
    | some (_, rest) => malformedParameters rest

/-- Whether the name of a knot, or what follows it, is malformed. -/
def malformedName (text : List Char) : Bool :=
  match nameAt? text with
  | none => true
  | some (word, rest) =>
      if word == "function" then malformedFunction rest
      else malformedParameters rest

/-- The equals signs at the start of a text. -/
def knotSigns (text : List Char) : List Char :=
  (withoutBlanks text).takeWhile isEqualsSign

/-- Whether the header of a knot begins at the start of a text. -/
def startsKnot (text : List Char) : Bool :=
  decide (1 < (knotSigns text).length)

/-- Whether the header of a knot stands here and is malformed. -/
def malformedKnot (text : List Char) : Bool :=
  startsKnot text &&
    malformedName
      (withoutBlanks
        ((withoutBlanks text).drop (knotSigns text).length))

/-- What stands behind the keyword for functions in the header of a stitch. -/
def stitchText (text : List Char) : List Char :=
  match following? "function" text with
  | some rest => withoutBlanks rest
  | none => text

/-- Whether the header of a stitch stands here and is malformed. -/
def malformedStitch (text : List Char) : Bool :=
  match following? "=" (withoutBlanks text) with
  | none => false
  | some rest =>
      !(following? "=" rest).isSome &&
        match nameAt? (stitchText (withoutBlanks rest)) with
        | none => false
        | some (_, rest) => malformedParameters rest

/-- No header is that of a knot and that of a stitch. -/
theorem malformedStitch_of_startsKnot
    {text : List Char}
    (starts : startsKnot text = true) :
    malformedStitch text = false := by
  have enough :
      1 < ((withoutBlanks text).takeWhile isEqualsSign).length :=
    of_decide_eq_true starts
  match signs : withoutBlanks text, enough with
  | [], enough =>
      simp at enough
  | first :: [], enough =>
      by_cases isSign : isEqualsSign first = true <;> simp [isSign] at enough
  | first :: second :: rest, enough =>
      by_cases firstIs : isEqualsSign first = true
      · by_cases secondIs : isEqualsSign second = true
        · obtain rfl : first = '=' := by simpa [isEqualsSign] using firstIs
          obtain rfl : second = '=' := by simpa [isEqualsSign] using secondIs
          simp [malformedStitch, signs, following?]
        · simp [firstIs, secondIs] at enough
      · simp [firstIs] at enough

example : malformedKnot "== knot".toList = false := by decide +kernel
example : malformedKnot "==\ny".toList = true := by decide +kernel

end InkSyntax.Grammar
