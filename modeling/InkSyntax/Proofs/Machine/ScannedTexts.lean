import InkSyntax.Machine.Scanner
import InkSyntax.Proofs.Machine.Cursors

namespace InkSyntax

/-!
# The texts that scanners find

A scanner is settled by the texts that it finds and by what may follow them, and these are
told without reference to how it looks for them.
-/

namespace Scanner

/-- A run of accepted characters is never empty and as long as it can be. -/
structure IsRun
    (accept : Char → Bool)
    (found : String)
    (matched rest : List Char) : Prop where
  text : matched = found.toList
  someCharacter : matched ≠ []
  accepted : matched.all accept = true
  ends : StartsWithout accept rest

/-- A bounded run is as long as it can be within its bound. -/
structure IsRunWithin
    (limit : Nat)
    (accept : Char → Bool)
    (found : String)
    (matched rest : List Char) : Prop where
  text : matched = found.toList
  someCharacter : matched ≠ []
  accepted : matched.all accept = true
  within : matched.length ≤ limit
  ends : matched.length = limit ∨ StartsWithout accept rest

variable {α : Type}

/-- A scanner finds a value exactly where a text stands for it and the rest may follow. -/
def Finds
    (scanner : Scanner α)
    (standsFor : α → List Char → List Char → Prop) : Prop :=
  ∀ text value length,
    scanner text = some (value, length) ↔
      ∃ matched rest,
        text = matched ++ rest ∧ matched.length = length ∧ standsFor value matched rest

theorem finds_exactly
    (expected : List Char) :
    (exactly expected).Finds fun _ matched _ => matched = expected := by
  rintro text ⟨⟩ length
  unfold exactly
  constructor
  · intro found
    split at found
    · next isPrefix =>
        obtain ⟨rest, rfl⟩ := List.isPrefixOf_iff_prefix.mp isPrefix
        cases found
        exact ⟨expected, rest, rfl, rfl, rfl⟩
    · cases found
  · rintro ⟨_, rest, rfl, rfl, rfl⟩
    simp

theorem finds_anyChar :
    anyChar.Finds fun character matched _ => matched = [character] := by
  intro text character length
  constructor
  · intro found
    cases text with
    | nil =>
        cases found
    | cons first rest =>
        cases found
        exact ⟨[character], rest, rfl, rfl, rfl⟩
  · rintro ⟨_, rest, rfl, rfl, rfl⟩
    rfl

theorem finds_lineBreak :
    lineBreak.Finds fun _ matched _ => matched = ['\n'] ∨ matched = ['\r', '\n'] := by
  rintro text ⟨⟩ length
  constructor
  · intro found
    unfold lineBreak at found
    split at found
    · next rest =>
        cases found
        exact ⟨['\r', '\n'], rest, rfl, rfl, .inr rfl⟩
    · next rest =>
        cases found
        exact ⟨['\n'], rest, rfl, rfl, .inl rfl⟩
    · cases found
  · rintro ⟨_, rest, rfl, rfl, rfl | rfl⟩
    · rfl
    · rfl

theorem finds_chars
    (accept : Char → Bool) :
    (chars accept).Finds (IsRun accept) := by
  intro text found length
  unfold chars
  constructor
  · intro scanned
    split at scanned
    · cases scanned
    · next some_ =>
        cases scanned
        exact
          ⟨text.takeWhile accept, text.dropWhile accept,
            List.takeWhile_append_dropWhile.symm, rfl, String.toList_ofList.symm, some_,
            List.all_takeWhile, startsWithout_dropWhile accept text⟩
  · rintro ⟨_, rest, rfl, rfl, rfl, some_, accepted, ends⟩
    simp only [takeWhile_run _ accepted ends, String.ofList_toList]

theorem finds_charsAtMost
    (limit : Nat)
    (accept : Char → Bool) :
    (charsAtMost limit accept).Finds (IsRunWithin limit accept) := by
  intro text found length
  unfold charsAtMost
  constructor
  · intro scanned
    split at scanned
    · cases scanned
    · next some_ =>
        cases scanned
        have run := List.takeWhile_prefix (l := text.take limit) accept
        have short := run.length_le
        rw [List.length_take] at short
        have stands := List.prefix_iff_eq_append.mp (run.trans (List.take_prefix limit text))
        refine
          ⟨_, _, stands.symm, rfl, String.toList_ofList.symm, some_, List.all_takeWhile,
            by omega, ?_⟩
        rw [Decidable.or_iff_not_imp_left]
        intro shorter
        have ends := startsWithout_dropWhile accept (text.take limit)
        rw [← drop_length_takeWhile, List.drop_take] at ends
        exact ends.of_take (by omega)
  · rintro ⟨_, rest, rfl, rfl, rfl, some_, accepted, within, ends⟩
    have endsWithin :
        StartsWithout accept (rest.take (limit - found.toList.length)) := by
      rcases ends with reached | ends
      · simp [reached]
      · exact ends.take _
    have run := takeWhile_run _ accepted endsWithin
    rw [List.take_append, List.take_of_length_le within]
    simp only [run, String.ofList_toList]

end Scanner

end InkSyntax
