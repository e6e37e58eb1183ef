import InkSyntax.Proofs.CommentFree
import InkSyntax.Reading

namespace InkSyntax

/-!
# Line endings

A script may end its lines with a line feed alone or with a carriage return before it.
What is left without comments is the same text either way, so the script reads the
same, to the place of everything in it.
-/

/-- A text with a carriage return put before every line feed. -/
def withCarriageReturns : List Char → List Char
  | [] => []
  | character :: rest =>
      if character = '\n' then
        '\r' :: '\n' :: withCarriageReturns rest
      else
        character :: withCarriageReturns rest

variable
    {character : Char}
    {text rest : List Char}

theorem withCarriageReturns_lineFeed
    (rest : List Char) :
    withCarriageReturns ('\n' :: rest) = '\r' :: '\n' :: withCarriageReturns rest :=
  rfl

theorem withCarriageReturns_cons
    (notFeed : character ≠ '\n')
    (rest : List Char) :
    withCarriageReturns (character :: rest) = character :: withCarriageReturns rest :=
  if_neg notFeed

/-- Nothing but a carriage return can be new at the start of a text. -/
theorem eq_cons_of_withCarriageReturns
    (starts : withCarriageReturns text = character :: rest)
    (notReturn : character ≠ '\r') :
    ∃ others, text = character :: others := by
  cases text with
  | nil =>
      cases starts
  | cons first others =>
      by_cases isFeed : first = '\n'
      · subst isFeed
        exact absurd (List.cons.inj starts).1.symm notReturn
      · rw [withCarriageReturns_cons isFeed] at starts
        exact ⟨others, by rw [(List.cons.inj starts).1]⟩

theorem count_withCarriageReturns
    (text : List Char) :
    (withCarriageReturns text).count '\n' = text.count '\n' := by
  induction text with
  | nil =>
      rfl
  | cons character rest inductionHypothesis =>
      by_cases isFeed : character = '\n'
      · subst isFeed
        simp [withCarriageReturns_lineFeed, inductionHypothesis]
      · rw [withCarriageReturns_cons isFeed, List.count_cons_of_ne isFeed,
          List.count_cons_of_ne isFeed, inductionHypothesis]

namespace Comment

/-- A line comment ends before the carriage return as it does before the line feed. -/
theorem dropWhile_inLine_withCarriageReturns
    (text : List Char) :
    (withCarriageReturns text).dropWhile inLine =
      withCarriageReturns (text.dropWhile inLine) := by
  induction text with
  | nil =>
      rfl
  | cons character rest inductionHypothesis =>
      by_cases isFeed : character = '\n'
      · subst isFeed
        rfl
      · rw [withCarriageReturns_cons isFeed, List.dropWhile_cons, List.dropWhile_cons]
        split
        · exact inductionHypothesis
        · exact (withCarriageReturns_cons isFeed rest).symm

/-- No carriage return stands in the mark that ends a block comment. -/
theorem not_endMark_withCarriageReturns
    (notEnd : ¬ endMark <+: character :: text) :
    ¬ endMark <+: character :: withCarriageReturns text := by
  rintro ⟨others, ends⟩
  obtain ⟨rfl, follows⟩ := List.cons.inj ends
  obtain ⟨rest, rfl⟩ := eq_cons_of_withCarriageReturns follows.symm (by decide)
  exact notEnd ⟨rest, rfl⟩

/-- The body of a block comment and what follows it have their lines ended alike. -/
theorem blockBody_withCarriageReturns
    (text : List Char) :
    blockBody (withCarriageReturns text) = withCarriageReturns (blockBody text) ∧
      (withCarriageReturns text).drop
          ((blockBody (withCarriageReturns text)).length + 2) =
        withCarriageReturns (text.drop ((blockBody text).length + 2)) := by
  fun_induction blockBody text with
  | case1 =>
      exact ⟨rfl, rfl⟩
  | case2 rest =>
      exact ⟨rfl, rfl⟩
  | case3 character rest notEnd inductionHypothesis =>
      obtain ⟨sameBody, sameRest⟩ := inductionHypothesis
      by_cases isFeed : character = '\n'
      · subst isFeed
        have body :
            blockBody (withCarriageReturns ('\n' :: rest)) =
              '\r' :: '\n' :: blockBody (withCarriageReturns rest) := by
          simp [withCarriageReturns_lineFeed, blockBody]
        rw [body]
        exact ⟨by rw [sameBody, withCarriageReturns_lineFeed], sameRest⟩
      · have staysOpen : ¬ endMark <+: character :: rest := by
          rintro ⟨others, ends⟩
          obtain ⟨rfl, rfl⟩ := List.cons.inj ends
          exact notEnd others rfl rfl
        rw [withCarriageReturns_cons isFeed, withCarriageReturns_cons isFeed,
          blockBody_cons (not_endMark_withCarriageReturns staysOpen)]
        exact ⟨by rw [sameBody], sameRest⟩

/-- Whichever way its lines end, the same is left of a text without its comments. -/
theorem withoutComments_withCarriageReturns
    (noReturn : '\r' ∉ text) :
    withoutComments (withCarriageReturns text) = withoutComments text := by
  fun_induction withoutComments text with
  | case1 =>
      rw [withCarriageReturns, withoutComments]
  | case2 rest inductionHypothesis =>
      have leftover : '\r' ∉ rest.dropWhile inLine :=
        fun within => noReturn (by simp [(List.dropWhile_sublist inLine).subset within])
      rw [withCarriageReturns_cons (by decide), withCarriageReturns_cons (by decide),
        withoutComments, dropWhile_inLine_withCarriageReturns, inductionHypothesis leftover]
  | case3 rest inductionHypothesis =>
      have leftover : '\r' ∉ rest.drop ((blockBody rest).length + 2) :=
        fun within => noReturn (by simp [List.mem_of_mem_drop within])
      obtain ⟨sameBody, sameRest⟩ := blockBody_withCarriageReturns rest
      rw [withCarriageReturns_cons (by decide), withCarriageReturns_cons (by decide),
        withoutComments, sameRest, sameBody, count_withCarriageReturns,
        inductionHypothesis leftover]
  | case4 rest inductionHypothesis =>
      exact absurd List.mem_cons_self noReturn
  | case5 character rest notLine notBlock _ inductionHypothesis =>
      have notReturn : character ≠ '\r' :=
        fun isReturn => noReturn (isReturn ▸ List.mem_cons_self)
      have same := inductionHypothesis fun within => noReturn (List.mem_cons_of_mem _ within)
      by_cases isFeed : character = '\n'
      · subst isFeed
        rw [withCarriageReturns_lineFeed, withoutComments, same]
      · rw [withCarriageReturns_cons isFeed, withoutComments, same]
        · intro others isSlash follows
          obtain ⟨rest, rfl⟩ := eq_cons_of_withCarriageReturns follows (by decide)
          exact notLine rest isSlash rfl
        · intro others isSlash follows
          obtain ⟨rest, rfl⟩ := eq_cons_of_withCarriageReturns follows (by decide)
          exact notBlock rest isSlash rfl
        · exact fun _ isReturn => absurd isReturn notReturn

end Comment

/-- The line endings of a script make no difference to what is left of it without
comments, and none to its story, the places in it or what the user is told. -/
theorem readScript_withCarriageReturns
    (source : String)
    (noReturn : '\r' ∉ source.toList) :
    Comment.strip (String.ofList (withCarriageReturns source.toList)) =
        Comment.strip source ∧
      ∀ (library : Library) (options : Options) (file : Option String),
        readScript library options (String.ofList (withCarriageReturns source.toList)) file =
          readScript library options source file := by
  have sameText :
      Comment.strip (String.ofList (withCarriageReturns source.toList)) =
        Comment.strip source := by
    rw [Comment.strip_eq_withoutComments, Comment.strip_eq_withoutComments,
      String.toList_ofList, Comment.withoutComments_withCarriageReturns noReturn]
  refine ⟨sameText, fun library options file => ?_⟩
  unfold readScript
  simp only [Reading.readText, sameText]

/-- Lines that end in a block comment, behind a line comment and behind plain text. -/
theorem readScript_withCarriageReturns_comments :
    withCarriageReturns "a/*b\n*/c//d\ne\n".toList =
        "a/*b\r\n*/c//d\r\ne\r\n".toList ∧
      '\r' ∉ "a/*b\n*/c//d\ne\n".toList ∧
      Comment.strip (String.ofList "a/*b\r\n*/c//d\r\ne\r\n".toList) =
        Comment.strip "a/*b\n*/c//d\ne\n" ∧
      ∀ (library : Library) (options : Options) (file : Option String),
        readScript library options (String.ofList "a/*b\r\n*/c//d\r\ne\r\n".toList) file =
          readScript library options "a/*b\n*/c//d\ne\n" file := by
  have written :
      withCarriageReturns "a/*b\n*/c//d\ne\n".toList =
        "a/*b\r\n*/c//d\r\ne\r\n".toList := by
    decide
  have noReturn : '\r' ∉ "a/*b\n*/c//d\ne\n".toList := by decide
  refine ⟨written, noReturn, ?_⟩
  rw [← written]
  exact readScript_withCarriageReturns _ noReturn

end InkSyntax
