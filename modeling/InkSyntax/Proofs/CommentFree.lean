import InkSyntax.Proofs.Comments
import Mathlib.Data.List.Chain

namespace InkSyntax.Comment

/-!
# What is left without comments

Taking the comments out of a text keeps its line feeds, so every line keeps its number.
It leaves nothing that begins a comment: behind a slash that stays stands what stood
behind it before, or a line feed.
-/

variable
    {character : Char}
    {text rest : List Char}

section Lines

/-- A block comment and what follows it have the line feeds of both. -/
theorem count_blockBody
    (text : List Char) :
    (blockBody text).count '\n' +
        (text.drop ((blockBody text).length + 2)).count '\n' =
      text.count '\n' := by
  fun_induction blockBody text with
  | case1 =>
      rfl
  | case2 rest =>
      simp
  | case3 character rest _ inductionHypothesis =>
      rw [List.count_cons, List.count_cons, ← inductionHypothesis, List.length_cons,
        Nat.add_right_comm, List.drop_succ_cons, Nat.add_right_comm]

/-- A line comment ends before the line feed. -/
theorem count_dropWhile_inLine
    (text : List Char) :
    (text.dropWhile inLine).count '\n' = text.count '\n' := by
  induction text with
  | nil =>
      rfl
  | cons character rest inductionHypothesis =>
      rw [List.dropWhile_cons]
      split
      · next inside =>
          have notFeed : character ≠ '\n' := by
            rintro rfl
            cases inside
          rw [List.count_cons_of_ne notFeed, inductionHypothesis]
      · rfl

theorem count_withoutComments
    (text : List Char) :
    (withoutComments text).count '\n' = text.count '\n' := by
  fun_induction withoutComments text with
  | case1 =>
      rfl
  | case2 rest inductionHypothesis =>
      rw [inductionHypothesis, count_dropWhile_inLine]
      simp
  | case3 rest inductionHypothesis =>
      rw [List.count_append, List.count_replicate_self, inductionHypothesis,
        count_blockBody]
      simp
  | case4 rest inductionHypothesis =>
      simp [inductionHypothesis]
  | case5 character rest _ _ _ inductionHypothesis =>
      rw [List.count_cons, List.count_cons, inductionHypothesis]

end Lines

section Openings

/-- The opening mark of a comment stands somewhere in a text. -/
def HasComment (text : List Char) : Prop :=
  lineMark <:+: text ∨ blockMark <:+: text

/-- What may stand behind a slash that begins no comment. -/
def OpensNone (text : List Char) : Prop :=
  ∀ character ∈ text.head?, character ≠ '/' ∧ character ≠ '*'

theorem HasComment.of_cons
    (hasComment : HasComment (character :: text))
    (opensNone : character = '/' → OpensNone text) :
    HasComment text := by
  have beginsNone
      {second : Char}
      (opens : second = '/' ∨ second = '*') :
      ¬ ['/', second] <+: character :: text := by
    rintro ⟨others, same⟩
    obtain ⟨rfl, rfl⟩ := List.cons.inj same
    obtain ⟨notSlash, notStar⟩ := opensNone rfl second rfl
    exact opens.elim notSlash notStar
  refine hasComment.imp (fun stands => ?_) fun stands => ?_
  · exact (List.infix_cons_iff.mp stands).resolve_left (beginsNone (.inl rfl))
  · exact (List.infix_cons_iff.mp stands).resolve_left (beginsNone (.inr rfl))

theorem HasComment.of_lineFeeds
    {count : Nat}
    (hasComment : HasComment (List.replicate count '\n' ++ text)) :
    HasComment text := by
  induction count with
  | zero =>
      exact hasComment
  | succ count inductionHypothesis =>
      exact inductionHypothesis (hasComment.of_cons fun isSlash => by cases isSlash)

/-- Text that goes on without a comment goes on with its own first character, or a line feed. -/
theorem OpensNone.withoutComments
    (opensNone : OpensNone text) :
    OpensNone (withoutComments text) := by
  fun_cases Comment.withoutComments text with
  | case1 =>
      exact opensNone
  | case2 | case3 =>
      exact absurd rfl (opensNone '/' rfl).1
  | case4 rest =>
      rintro _ ⟨⟩
      decide
  | case5 first rest =>
      rintro _ ⟨⟩
      exact opensNone _ rfl

theorem not_hasComment_withoutComments
    (text : List Char) :
    ¬ HasComment (withoutComments text) := by
  fun_induction withoutComments text with
  | case1 =>
      simp [HasComment, lineMark, blockMark]
  | case2 rest inductionHypothesis =>
      exact inductionHypothesis
  | case3 rest inductionHypothesis =>
      exact fun hasComment => inductionHypothesis hasComment.of_lineFeeds
  | case4 rest inductionHypothesis =>
      exact fun hasComment =>
        inductionHypothesis (hasComment.of_cons fun isSlash => by cases isSlash)
  | case5 character rest notLine notBlock _ inductionHypothesis =>
      refine fun hasComment =>
        inductionHypothesis (hasComment.of_cons fun isSlash => ?_)
      refine OpensNone.withoutComments fun second isSecond => ?_
      obtain ⟨others, rfl⟩ := List.head?_eq_some_iff.mp isSecond
      exact
        ⟨fun again => notLine others isSlash (by rw [again]),
          fun star => notBlock others isSlash (by rw [star])⟩

end Openings

/-- Without its comments a script has the same number of line feeds, and no comment at all. -/
theorem strip_keeps_lines_and_leaves_no_comment
    (source : String) :
    ∃ text,
      strip source = .ok text ∧
        text.toList.count '\n' = source.toList.count '\n' ∧
        ¬ "//".toList <:+: text.toList ∧
        ¬ "/*".toList <:+: text.toList := by
  obtain ⟨text, stripped⟩ := exists_strip source
  have left := strip_eq_ok_iff.mp stripped
  have noComment := not_hasComment_withoutComments source.toList
  rw [← left] at noComment
  obtain ⟨noLine, noBlock⟩ := not_or.mp noComment
  refine ⟨text, stripped, ?_, noLine, noBlock⟩
  rw [left, count_withoutComments]

/-- Two characters in a row open no comment and are no line break. -/
def StandApart (first second : Char) : Prop :=
  (first = '/' → second ≠ '/' ∧ second ≠ '*') ∧ (first = '\r' → second ≠ '\n')

/-- A text in which nothing can be taken out is left as it is. -/
theorem withoutComments_of_isChain
    (apart : text.IsChain StandApart) :
    withoutComments text = text := by
  fun_induction withoutComments text with
  | case1 =>
      rfl
  | case2 | case3 | case4 =>
      simp [StandApart] at apart
  | case5 character rest _ _ _ inductionHypothesis =>
      rw [inductionHypothesis apart.of_cons]

/-- Only a slash or a carriage return begins what can be taken out. -/
theorem isChain_of_forall
    (alone : ∀ character ∈ text, character ≠ '/' ∧ character ≠ '\r') :
    text.IsChain StandApart := by
  induction text with
  | nil =>
      exact .nil
  | cons first others inductionHypothesis =>
      obtain ⟨noSlash, noReturn⟩ := alone first List.mem_cons_self
      have behind :=
        inductionHypothesis fun character member =>
          alone character (List.mem_cons_of_mem first member)
      cases others with
      | nil =>
          exact .singleton first
      | cons second rest =>
          exact
            .cons_cons
              ⟨fun slash => absurd slash noSlash, fun carriage => absurd carriage noReturn⟩
              behind

theorem strip_of_isChain
    {source : String}
    (apart : source.toList.IsChain StandApart) :
    strip source = .ok source :=
  strip_eq_ok_iff.mpr (withoutComments_of_isChain apart).symm

end InkSyntax.Comment
