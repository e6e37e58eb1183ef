import InkSyntax.Proofs.Reading.DescribedTerms
import Mathlib.Data.List.TakeWhile

namespace InkSyntax

/-!
# Which descriptions are read back

A description is read back to the end of its line, unless a sign in it stands before
a minus and a digit.  There the minus and the digits behind it are read as a number,
and what is left of the name behind the digits is not read at all.
-/

namespace Term

/-- A sign before a minus and digits, which are small enough for a number. -/
def IsMisread : Term → Prop
  | unary _ (unary .negate operand) =>
      operand.written.toList.head?.any isDigit = true ∧
        Rule.digitsValue
            (String.ofList (operand.written.toList.takeWhile isDigit)) ≤
          2147483647
  | _ => False

end Term

namespace Grammar

open Machine (Silent IsReady)
open Reading (Site)

variable
    {kinds : List StoryKind}
    {text rest tail letters digits : List Char}
    {word : String}
    {term other operand : Term}
    {op : UnaryOp}

section Misreading

/-- In the middle of a word no operator begins that could be read. -/
theorem endsAbove_of_letters
    (weakerThan : Nat)
    (nonempty : letters ≠ [])
    (areLetters : letters.all isIdentifierChar = true)
    (ends : StartsWithout isIdentifierChar rest)
    (dark : StartsWithout isInlineBlank rest) :
    EndsAbove weakerThan (letters ++ rest) := by
  have words :
      ∀ candidate ∈ infixes,
        candidate.spelling.toList.all isIdentifierChar = candidate.isWord ∧
          candidate.spelling.toList.head?.any isIdentifierChar =
            candidate.isWord := by
    decide
  apply EndsAbove.noOperator
  intro candidate member left stands
  obtain ⟨allLetters, firstLetter⟩ := words candidate member
  obtain ⟨first, others, spelled, -⟩ := spelling_startsDark candidate member
  obtain ⟨letter, further, rfl⟩ := List.exists_cons_of_ne_nil nonempty
  have isWord : candidate.isWord = true := by
    rw [spelled, List.cons_append, List.cons_append] at stands
    obtain ⟨rfl, -⟩ := List.cons.inj stands
    rw [← firstLetter, spelled]
    exact (Bool.and_eq_true_iff.mp areLetters).1
  refine ⟨isWord, ?_⟩
  rw [isWord] at allLetters
  rcases List.append_eq_append_iff.mp stands with
    ⟨between, same, rfl⟩ | ⟨between, same, rfl⟩
  · cases between with
    | nil =>
        exact dark
    | cons character others =>
        rw [same] at allLetters
        have isLetter := List.all_eq_true.mp allLetters character (by simp)
        rw [startsWithout_cons.mp ends] at isLetter
        cases isLetter
  · cases between with
    | nil =>
        exact dark
    | cons character others =>
        rw [same] at areLetters
        have isLetter := List.all_eq_true.mp areLetters character (by simp)
        exact
          startsWithout_cons.mpr (not_isInlineBlank_of_isIdentifierChar isLetter)

/-- A minus and digits are a number, though a word may go on behind them. -/
theorem readsTerm_bare_minus_digits
    (nonempty : digits ≠ [])
    (areDigits : digits.all isDigit = true)
    (small : Rule.digitsValue (String.ofList digits) ≤ 2147483647)
    (ends : StartsWithout isDigit rest)
    (noPoint : rest.head? ≠ some '.') :
    ReadsTerm bareTerm 7 ('-' :: (digits ++ rest))
      (.int (-(Rule.digitsValue (String.ofList digits) : Int))) rest := by
  have left : ('-' :: (digits ++ rest)).drop (digits.length + 1) = rest := by
    simp
  have literal :
      ReadsTerm literalValue 5 ('-' :: (digits ++ rest))
        (.int (-(Rule.digitsValue (String.ofList digits) : Int))) rest := by
    intro kinds
    have comes :=
      comesTo_literalValue_digits 3 kinds
        (signedDigits_minus_digits nonempty areDigits ends) left noPoint small
    exact ⟨_, _, comes, kindAmong_last _ _⟩
  apply ReadsTerm.among_bare [_, _, _, _] literal rfl
  intro kinds other member
  have noWord :
      StartsWithout isIdentifierChar ('-' :: (digits ++ rest)) :=
    startsWithout_cons.mpr (by decide)
  obtain ⟨noCall, noReference⟩ := fails_names [] rfl noWord
  simp only [List.mem_cons, List.not_mem_nil, or_false] at member
  rcases member with rfl | rfl | rfl | rfl
  · exact fails_listLiteral (startsWithout_cons.mpr (by decide)) (by simp)
  · exact fails_parenthesised (by simp)
  · exact noCall
  · exact noReference

/-- An expression ends behind such a number, in the middle of a word. -/
theorem readsTerm_expression_misread
    (nonempty : digits ≠ [])
    (areDigits : digits.all isDigit = true)
    (small : Rule.digitsValue (String.ofList digits) ≤ 2147483647)
    (someLetter : letters ≠ [])
    (areLetters : letters.all isIdentifierChar = true)
    (noDigit : StartsWithout isDigit (letters ++ rest))
    (ends : StartsWithout isIdentifierChar rest)
    (dark : StartsWithout isInlineBlank rest) :
    ReadsTerm expression 10
      (op.symbol.toList ++ '-' :: (digits ++ (letters ++ rest)))
      (.ofSign op (-(Rule.digitsValue (String.ofList digits) : Int)))
      (letters ++ rest) := by
  have starts
      {character : Char}
      (other : isIdentifierChar character = false) :
      (letters ++ rest).head? ≠ some character := by
    obtain ⟨letter, others, rfl⟩ := List.exists_cons_of_ne_nil someLetter
    rintro ⟨⟩
    rw [(Bool.and_eq_true_iff.mp areLetters).1] at other
    cases other
  have noBlank : withoutBlanks (letters ++ rest) = letters ++ rest := by
    obtain ⟨letter, others, rfl⟩ := List.exists_cons_of_ne_nil someLetter
    have isLetter := (Bool.and_eq_true_iff.mp areLetters).1
    exact
      (startsWithout_cons.mpr
        (not_isInlineBlank_of_isIdentifierChar isLetter)).dropWhile
  have read :=
    ReadsTerm.of_sign op
      (readsTerm_bare_minus_digits nonempty areDigits small noDigit
        (starts (by decide)))
      (startsWithout_cons.mpr (by decide)) (by simp)
      (by rw [noBlank]; exact not_prefix_of_head? rfl (starts (by decide)))
      (by rw [noBlank]; exact not_prefix_of_head? rfl (starts (by decide)))
  rw [noBlank] at read
  have above := endsAbove_of_letters 0 someLetter areLetters ends dark
  rw [← noBlank] at above
  have whole := read.as_expression dark_symbol.dropWhile above
  rw [noBlank] at whole
  intro kinds
  obtain ⟨id, more, comes, represents⟩ := whole kinds
  exact ⟨id, more, ComesTo.read _ comes, represents⟩

/-- A name that begins with a digit is some digits and what makes it a name. -/
theorem exists_digits_and_letters
    (isName : IsName word)
    (startsDigit : word.toList.head?.any isDigit = true) :
    ∃ digits letters,
      word.toList = digits ++ letters ∧
        digits ≠ [] ∧
        digits.all isDigit = true ∧
        letters ≠ [] ∧
        letters.all isIdentifierChar = true ∧
        ∀ rest, StartsWithout isDigit (letters ++ rest) := by
  obtain ⟨areLetters, notDigits⟩ := isName
  have whole :=
    List.takeWhile_append_dropWhile (p := isDigit) (l := word.toList)
  have someLetter : word.toList.dropWhile isDigit ≠ [] := by
    intro none
    rw [List.dropWhile_eq_nil_iff] at none
    rw [List.all_eq_true.mpr none] at notDigits
    cases notDigits
  refine
    ⟨word.toList.takeWhile isDigit, word.toList.dropWhile isDigit, whole.symm, ?_,
      ?_, someLetter, ?_, ?_⟩
  · intro none
    cases letters : word.toList with
    | nil =>
        rw [letters] at startsDigit
        cases startsDigit
    | cons first others =>
        rw [letters] at startsDigit none
        have isFirst : isDigit first = true := startsDigit
        simp [isFirst] at none
  · exact List.all_takeWhile
  · apply List.all_eq_true.mpr
    intro letter member
    exact
      List.all_eq_true.mp areLetters letter
        ((List.dropWhile_suffix isDigit).subset member)
  · intro rest
    obtain ⟨letter, others, letters⟩ := List.exists_cons_of_ne_nil someLetter
    have notDigit :=
      startsWithout_dropWhile isDigit word.toList letter (by rw [letters]; rfl)
    rw [letters]
    exact startsWithout_cons.mpr notDigit

/-- A term behind a minus that begins with a digit begins with a name. -/
theorem exists_name_of_startsDigit
    (writable : operand.IsWritable)
    (takes : operand.TakesSign op)
    (startsDigit : operand.written.toList.head?.any isDigit = true) :
    ∃ word further,
      IsName word ∧
        operand.written.toList = word.toList ++ further ∧
        ∀ tail,
          EndsLine tail →
            StartsWithout isIdentifierChar (further ++ tail) ∧
              StartsWithout isInlineBlank (further ++ tail) := by
  cases operand with
  | int value =>
      cases takes
  | bool value =>
      cases value <;> exact absurd startsDigit (by decide)
  | reference path =>
      cases path with
      | nil =>
          cases writable
      | cons first others =>
          have written := toList_intercalate_names [] first others
          rw [List.append_nil] at written
          refine
            ⟨first, furtherWords ['.'] [] others,
              writable.2 first List.mem_cons_self, written, ?_⟩
          intro tail ends
          cases others with
          | nil =>
              exact
                ⟨ends.startsWithout (by decide) (by decide),
                  ends.startsWithout (by decide) (by decide)⟩
          | cons second others =>
              exact
                ⟨startsWithout_cons.mpr (by decide),
                  startsWithout_cons.mpr (by decide)⟩
  | list items =>
      simp only [Term.written, String.toList_append] at startsDigit
      exact absurd startsDigit (by simp; decide)
  | call name arguments =>
      have written := Term.toList_written_call [] name arguments
      rw [List.append_nil] at written
      refine ⟨name, _, writable.1, written, ?_⟩
      intro tail _
      exact
        ⟨startsWithout_cons.mpr (by decide), startsWithout_cons.mpr (by decide)⟩
  | unary inner operand =>
      rw [Term.written, String.toList_append] at startsDigit
      rcases symbol_eq inner with symbol | symbol
      all_goals
        rw [symbol] at startsDigit
        exact absurd startsDigit (by simp; decide)
  | binary left inner right =>
      simp only [Term.written, String.toList_append] at startsDigit
      exact absurd startsDigit (by simp; decide)

/-- A misread term is read as a number, up to the letters of its name. -/
theorem exists_readsTerm_misread
    (writable : term.Throughout Term.IsWritable)
    (misread : term.IsMisread)
    (ends : EndsLine tail) :
    ∃ op value rest,
      ReadsTerm expression 10 (term.written.toList ++ tail) (.ofSign op value)
        rest := by
  match term, misread with
  | .unary op (.unary .negate operand), ⟨startsDigit, small⟩ =>
      obtain ⟨word, further, isName, written, endsName⟩ :=
        exists_name_of_startsDigit writable.2.2.self writable.2.1 startsDigit
      obtain ⟨ends, dark⟩ := endsName tail ends
      have wordStarts : word.toList.head?.any isDigit = true := by
        rw [written, List.head?_append_of_ne_nil _ isName.ne_nil] at startsDigit
        exact startsDigit
      obtain ⟨digits, letters, spelled, nonempty, areDigits, someLetter, areLetters,
          noDigit⟩ :=
        exists_digits_and_letters isName wordStarts
      rw [written, spelled, List.append_assoc,
        takeWhile_run _ areDigits (noDigit further)] at small
      have whole :
          (Term.unary op (.unary .negate operand)).written.toList ++ tail =
            op.symbol.toList ++
              '-' :: (digits ++ (letters ++ (further ++ tail))) := by
        rw [Term.toList_written_unary, Term.toList_written_unary, written, spelled]
        simp [UnaryOp.symbol]
      rw [whole]
      exact
        ⟨op, _, _,
          readsTerm_expression_misread nonempty areDigits small someLetter
            areLetters (noDigit _) ends dark⟩

/-- Two readings of one text represent their terms by the same node. -/
theorem ReadsExpression.exists_node
    {library : Library}
    {maxDepth files levels : Nat}
    {machine : Machine Workshop}
    {otherRest : List Char}
    (first : ReadsExpression library maxDepth files levels machine term rest)
    (second :
      ReadsExpression library maxDepth files levels machine other otherRest) :
    ∃ kind? id, term.Represents kind? id ∧ other.Represents kind? id := by
  obtain ⟨id, after, ran, -, -, represents⟩ := first
  obtain ⟨otherId, otherAfter, otherRan, -, -, otherRepresents⟩ := second
  rw [ran] at otherRan
  obtain ⟨rfl, rfl⟩ := Outcome.matched.inj otherRan
  exact ⟨_, id, represents, otherRepresents⟩

end Misreading

section Descriptions

/-- A term is read as an expression wherever a line ends behind it. -/
theorem IsRead.readsTerm_expression
    {depth : Nat}
    (isRead : IsRead term depth)
    (ends : EndsLine tail) :
    ReadsTerm expression (depth + 3) (term.written.toList ++ tail) term tail := by
  have noBlank : withoutBlanks tail = tail :=
    (ends.startsWithout rfl rfl).dropWhile
  have endsOperand := endsOperand_of_endsLine ends
  have reads := isRead.operand endsOperand
  rw [noBlank] at reads
  have above := endsAbove_of_endsLine 0 ends
  rw [← noBlank] at above
  have whole := reads.as_expression (isRead.dark endsOperand) above
  rw [noBlank] at whole
  intro kinds
  obtain ⟨id, more, comes, represents⟩ := whole kinds
  exact ⟨id, more, ComesTo.read _ comes, represents⟩

/-- A misread term is not read back. -/
theorem not_readsExpression_of_isMisread
    (writable : term.Throughout Term.IsWritable)
    (misread : term.IsMisread)
    (ends : EndsLine tail)
    {library : Library}
    {maxDepth files levels : Nat}
    {machine : Machine Workshop}
    (ready : machine.IsReady 10 levels machine.page)
    (at_ : machine.cursor.rest = term.written.toList ++ tail) :
    ¬ ReadsExpression library maxDepth files levels machine term tail := by
  intro readsBack
  obtain ⟨op, value, rest, reads⟩ := exists_readsTerm_misread writable misread ends
  obtain ⟨kind?, id, isTerm, isNumber⟩ :=
    readsBack.exists_node
      (reads.readsExpression ready at_)
  match term, misread with
  | .unary sign (.unary .negate operand), _ =>
      obtain ⟨inner, kind, -⟩ := isTerm
      cases op with
      | negate =>
          rw [show kind? id = _ from isNumber] at kind
          cases kind
      | not =>
          rw [show kind? id = _ from isNumber] at kind
          cases kind

/--
The description of an expression is read back silently to the end of the line, if the
stack is large enough, unless a sign in it stands before a minus and a digit.  Where
such a sign begins it and the digits make a number, it is never read back.
-/
theorem expression_reads_description
    {story : Story}
    {id : NodeId}
    {term : Term}
    (represents : term.Represents story.kind? id)
    (writable : term.Throughout Term.IsWritable) :
    ((term.Throughout fun part => ¬ part.LooksNumeric) →
        ∃ depth, ∀ tail,
          EndsLine tail →
            (∀ library maxDepth files levels machine,
              machine.IsReady depth levels machine.page →
                machine.cursor.rest = (story.describe id).toList ++ tail →
                ReadsExpression library maxDepth files levels machine term
                  tail) ∧
              ∀ library maxDepth files host,
                depth < maxDepth →
                  ReadsExpression library maxDepth files (maxDepth + 2)
                    (.start ((story.describe id).toList ++ tail) maxDepth host)
                    term tail) ∧
      (term.IsMisread →
        ∀ tail,
          EndsLine tail →
            ∀ library maxDepth files levels machine,
              machine.IsReady 10 levels machine.page →
                machine.cursor.rest = (story.describe id).toList ++ tail →
                ¬ ReadsExpression library maxDepth files levels machine term
                    tail) := by
  rw [represents.describe]
  constructor
  · intro clear
    obtain ⟨depth, isRead, -⟩ := exists_isRead writable clear
    refine ⟨depth + 3, ?_⟩
    intro tail ends
    have reads := isRead.readsTerm_expression ends
    constructor
    · intro library maxDepth files levels machine ready at_
      exact reads.readsExpression ready at_
    · intro library maxDepth files host enough
      apply reads.readsExpression _ rfl
      exact IsReady.start _ host enough (by omega)
  · intro misread tail ends library maxDepth files levels machine ready at_
    exact not_readsExpression_of_isMisread writable misread ends ready at_

/-- The nodes of a story without spans. -/
def storyOf (kinds : List StoryKind) : Story :=
  .mk none (kinds.map fun kind => { kind := kind, parent := none, span := {} })

/-- The opposite of a sum with a negative number is read back. -/
theorem opposite_of_sum_read_back :
    (storyOf
          [.unary .not ⟨1⟩, .binary ⟨2⟩ .add ⟨4⟩, .reference [⟨3⟩],
            .identifier "a", .number (.int (-2))]).describe ⟨0⟩ =
        "!(a + -2)" ∧
      ∃ depth, ∀ maxDepth,
        depth < maxDepth →
          ReadsExpression (.ofFiles []) maxDepth 0 (maxDepth + 2)
            (.start "!(a + -2)\n".toList maxDepth { file := none, session := {} })
            (.unary .not (.binary (.reference ["a"]) .add (.int (-2))))
            ['\n'] := by
  have ends : EndsLine ['\n'] := by
    rintro character ⟨⟩
    exact .inl rfl
  have represents :
      (Term.unary .not (.binary (.reference ["a"]) .add (.int (-2)))).Represents
        (storyOf
          [.unary .not ⟨1⟩, .binary ⟨2⟩ .add ⟨4⟩, .reference [⟨3⟩],
            .identifier "a", .number (.int (-2))]).kind?
        ⟨0⟩ := by
    exact
      ⟨⟨1⟩, rfl, ⟨2⟩, ⟨4⟩, rfl, ⟨[⟨3⟩], rfl, .cons rfl .nil⟩, rfl⟩
  have writable :
      (Term.unary .not (.binary (.reference ["a"]) .add (.int (-2)))).Throughout
        Term.IsWritable := by
    refine ⟨trivial, trivial, ⟨by decide, by decide⟩, by decide, by decide⟩
  have clear :
      (Term.unary .not (.binary (.reference ["a"]) .add (.int (-2)))).Throughout
        fun part => ¬ part.LooksNumeric :=
    ⟨id, id, id, id⟩
  have described := represents.describe
  obtain ⟨depth, reads⟩ := (expression_reads_description represents writable).1 clear
  obtain ⟨-, fromStart⟩ := reads ['\n'] ends
  refine ⟨described, depth, ?_⟩
  intro maxDepth enough
  have read := fromStart (.ofFiles []) maxDepth 0 { file := none, session := {} } enough
  rw [described] at read
  exact read

/-- Two minus signs before a name that begins with a digit are not read back. -/
theorem double_minus_not_read_back :
    (storyOf
          [.unary .negate ⟨1⟩, .unary .negate ⟨2⟩, .reference [⟨3⟩],
            .identifier "5x"]).describe ⟨0⟩ =
        "--5x" ∧
      (Term.unary .negate (.unary .negate (.reference ["5x"]))).Throughout
        Term.IsWritable ∧
      ∀ maxDepth,
        10 < maxDepth →
          ¬ ReadsExpression (.ofFiles []) maxDepth 0 (maxDepth + 2)
              (.start "--5x\n".toList maxDepth { file := none, session := {} })
              (.unary .negate (.unary .negate (.reference ["5x"])))
              ['\n'] := by
  have ends : EndsLine ['\n'] := by
    rintro character ⟨⟩
    exact .inl rfl
  have represents :
      (Term.unary .negate (.unary .negate (.reference ["5x"]))).Represents
        (storyOf
          [.unary .negate ⟨1⟩, .unary .negate ⟨2⟩, .reference [⟨3⟩],
            .identifier "5x"]).kind?
        ⟨0⟩ :=
    ⟨⟨1⟩, rfl, ⟨2⟩, rfl, [⟨3⟩], rfl, .cons rfl .nil⟩
  have writable :
      (Term.unary .negate (.unary .negate (.reference ["5x"]))).Throughout
        Term.IsWritable := by
    refine ⟨trivial, trivial, by decide, by decide⟩
  have misread :
      (Term.unary .negate (.unary .negate (.reference ["5x"]))).IsMisread :=
    ⟨by decide, by decide⟩
  have described := represents.describe
  refine ⟨described, writable, ?_⟩
  intro maxDepth enough
  apply not_readsExpression_of_isMisread writable misread ends
  · exact IsReady.start _ _ enough (by omega)
  · rw [← described]
    rfl

end Descriptions

end Grammar

end InkSyntax
