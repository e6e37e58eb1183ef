import InkSyntax.Machine.Cursor

namespace InkSyntax

/-!
# Moving through a text

A run takes accepted characters as long as there are any.  So it ends where the text
does, or before a character that is rejected, and what follows it settles how long it is.
A cursor that moves on drops characters from the text that follows it, and all the
places that it comes to are further in the text than the one where it was.
-/

/-- Whatever character stands at the start of a text, a test rejects it. -/
def StartsWithout
    (accept : Char → Bool)
    (text : List Char) : Prop :=
  ∀ character, text.head? = some character → accept character = false

section Runs

variable
    {accept : Char → Bool}
    {character : Char}
    {text rest : List Char}

@[simp] theorem startsWithout_nil :
    StartsWithout accept [] :=
  nofun

@[simp] theorem startsWithout_cons :
    StartsWithout accept (character :: rest) ↔ accept character = false := by
  simp [StartsWithout]

theorem StartsWithout.takeWhile
    (starts : StartsWithout accept text) :
    text.takeWhile accept = [] := by
  cases text with
  | nil =>
      rfl
  | cons character rest =>
      simp [startsWithout_cons.mp starts]

theorem StartsWithout.dropWhile
    (starts : StartsWithout accept text) :
    text.dropWhile accept = text := by
  cases text with
  | nil =>
      rfl
  | cons character rest =>
      simp [startsWithout_cons.mp starts]

theorem StartsWithout.take
    (starts : StartsWithout accept text)
    (count : Nat) :
    StartsWithout accept (text.take count) := by
  intro first isFirst
  rw [List.head?_take] at isFirst
  split at isFirst
  · cases isFirst
  · exact starts first isFirst

theorem StartsWithout.of_take
    {count : Nat}
    (starts : StartsWithout accept (text.take count))
    (positive : 0 < count) :
    StartsWithout accept text := by
  intro first isFirst
  apply starts first
  rwa [List.head?_take, if_neg (Nat.ne_of_gt positive)]

theorem startsWithout_dropWhile
    (accept : Char → Bool)
    (text : List Char) :
    StartsWithout accept (text.dropWhile accept) := by
  intro character first
  have rejected := List.head?_dropWhile_not accept text
  rw [first] at rejected
  simpa using rejected

/-- A run of accepted characters ends where one is rejected. -/
theorem takeWhile_run
    (run : List Char)
    (accepted : run.all accept = true)
    (ends : StartsWithout accept rest) :
    (run ++ rest).takeWhile accept = run := by
  rw [List.takeWhile_append_of_pos (List.all_eq_true.mp accepted),
    ends.takeWhile, List.append_nil]

theorem dropWhile_run
    (run : List Char)
    (accepted : run.all accept = true)
    (ends : StartsWithout accept rest) :
    (run ++ rest).dropWhile accept = rest := by
  rw [List.dropWhile_append_of_pos (List.all_eq_true.mp accepted),
    ends.dropWhile]

theorem drop_length_takeWhile
    (accept : Char → Bool)
    (text : List Char) :
    text.drop (text.takeWhile accept).length = text.dropWhile accept := by
  induction text with
  | nil =>
      rfl
  | cons character rest inductionHypothesis =>
      by_cases accepted : accept character = true
      · simp [accepted, inductionHypothesis]
      · simp [accepted]

end Runs

namespace Cursor

/-- The second cursor is where the first one is, or further in the text. -/
def Reaches (start later : Cursor) : Prop :=
  ∃ count, later = start.advance count

theorem advance_advance
    (cursor : Cursor)
    (first second : Nat) :
    (cursor.advance first).advance second = cursor.advance (first + second) := by
  induction first generalizing cursor with
  | zero =>
      simp [advance]
  | succ count inductionHypothesis =>
      rw [Nat.succ_add]
      cases rest : cursor.rest with
      | nil =>
          cases second with
          | zero =>
              simp [advance]
          | succ second =>
              simp [advance, rest]
      | cons character others =>
          simp only [advance, rest]
          exact inductionHypothesis _

theorem rest_advance
    (cursor : Cursor)
    (count : Nat) :
    (cursor.advance count).rest = cursor.rest.drop count := by
  induction count generalizing cursor with
  | zero =>
      rfl
  | succ count inductionHypothesis =>
      cases rest : cursor.rest with
      | nil =>
          simp [advance, rest]
      | cons character others =>
          simp only [advance, rest, inductionHypothesis, past]
          split <;> rfl

theorem offset_le_advance
    (cursor : Cursor)
    (count : Nat) :
    cursor.offset ≤ (cursor.advance count).offset := by
  induction count generalizing cursor with
  | zero =>
      exact Nat.le_refl _
  | succ count inductionHypothesis =>
      cases rest : cursor.rest with
      | nil =>
          simp [advance, rest]
      | cons character others =>
          simp only [advance, rest]
          have step : cursor.offset ≤ (cursor.past character others).offset := by
            unfold past
            split <;> exact Nat.le_succ _
          exact Nat.le_trans step (inductionHypothesis _)

namespace Reaches

theorem refl
    (cursor : Cursor) :
    cursor.Reaches cursor :=
  ⟨0, rfl⟩

theorem trans
    {first second third : Cursor}
    (reaches : first.Reaches second)
    (further : second.Reaches third) :
    first.Reaches third := by
  obtain ⟨count, rfl⟩ := reaches
  obtain ⟨more, rfl⟩ := further
  exact ⟨count + more, first.advance_advance count more⟩

theorem offset_le
    {start later : Cursor}
    (reaches : start.Reaches later) :
    start.offset ≤ later.offset := by
  obtain ⟨count, rfl⟩ := reaches
  exact start.offset_le_advance count

theorem length_le
    {start later : Cursor}
    (reaches : start.Reaches later) :
    later.rest.length ≤ start.rest.length := by
  obtain ⟨count, rfl⟩ := reaches
  rw [rest_advance, List.length_drop]
  exact Nat.sub_le _ _

end Reaches

/-- A cursor stands behind some text, counted from the start. -/
structure Follows
    (before : List Char)
    (cursor : Cursor) : Prop where
  offset : cursor.offset = before.length
  line : cursor.line = before.count '\n'
  column :
    cursor.column = (before.reverse.takeWhile (· != '\n')).length

theorem Follows.past
    {before : List Char}
    {cursor : Cursor}
    (follows : cursor.Follows before)
    (character : Char)
    (rest : List Char) :
    (cursor.past character rest).Follows (before ++ [character]) := by
  unfold Cursor.past
  split
  · next isBreak =>
      subst isBreak
      constructor <;> simp [follows.offset, follows.line]
  · next isOther =>
      constructor <;>
        simp [follows.offset, follows.line, follows.column, isOther]

/-- A cursor that moves on stands behind what it moved over as well. -/
theorem Follows.advance
    {before : List Char}
    {cursor : Cursor}
    (follows : cursor.Follows before)
    (count : Nat) :
    (cursor.advance count).Follows (before ++ cursor.rest.take count) := by
  induction count generalizing before cursor with
  | zero =>
      simpa [Cursor.advance] using follows
  | succ count inductionHypothesis =>
      cases rest : cursor.rest with
      | nil =>
          simpa [Cursor.advance, rest] using follows
      | cons character others =>
          have further := inductionHypothesis (follows.past character others)
          have stays : (cursor.past character others).rest = others := by
            unfold Cursor.past
            split <;> rfl
          rw [stays, List.append_assoc] at further
          simpa [Cursor.advance, rest] using further

end Cursor

end InkSyntax
