import InkSyntax.Comment
import InkSyntax.Proofs.Machine.Stretches

namespace InkSyntax.Comment

/-!
# Comments are taken out from left to right

Taking the comments out of a text runs two alternations, one inside the other, and
looks ahead for the inner one at every character that may begin it.  All this comes
to reading the text once: comments are skipped but for their line feeds, line breaks
become line feeds, and everything else is copied.
-/

section Reference

/-- Whether a character belongs to a line comment that reaches it. -/
def inLine (character : Char) : Bool :=
  character != '\n' && character != '\r'

def lineMark : List Char := ['/', '/']

def blockMark : List Char := ['/', '*']

def endMark : List Char := ['*', '/']

/-- What stands in a block comment before its end mark, or before the end of the text.

The text is that behind the opening mark, whose star does not count for the end. -/
def blockBody : List Char → List Char
  | [] => []
  | '*' :: '/' :: _ => []
  | character :: rest => character :: blockBody rest

theorem blockBody_cons
    {character : Char}
    {rest : List Char}
    (notEnd : ¬ endMark <+: character :: rest) :
    blockBody (character :: rest) = character :: blockBody rest := by
  rw [blockBody]
  rintro others rfl rfl
  exact notEnd ⟨others, rfl⟩

/-- A text without comments, read once from left to right.

A line comment is skipped up to the line break, and a block comment through its end
mark, but its line feeds stay.  A carriage return before a line feed is skipped. -/
def withoutComments : List Char → List Char
  | [] => []
  | '/' :: '/' :: rest => withoutComments (rest.dropWhile inLine)
  | '/' :: '*' :: rest =>
      List.replicate ((blockBody rest).count '\n') '\n' ++
        withoutComments (rest.drop ((blockBody rest).length + 2))
  | '\r' :: '\n' :: rest => '\n' :: withoutComments rest
  | character :: rest => character :: withoutComments rest
termination_by text => text.length
decreasing_by
  · have shorter := (List.dropWhile_sublist inLine (l := rest)).length_le
    simp only [List.length_cons]
    omega
  · simp only [List.length_cons, List.length_drop]
    omega
  · simp only [List.length_cons]
    omega
  · simp only [List.length_cons]
    omega

/-- What follows a line break, if one begins a text. -/
def break? : List Char → Option (List Char)
  | '\r' :: '\n' :: rest => some rest
  | '\n' :: rest => some rest
  | _ => none

/-- What remains of a comment and what follows it, if one begins a text. -/
def comment? : List Char → Option (List Char × List Char)
  | '/' :: '/' :: rest => some ([], rest.dropWhile inLine)
  | '/' :: '*' :: rest =>
      some (List.replicate ((blockBody rest).count '\n') '\n',
        rest.drop ((blockBody rest).length + 2))
  | _ => none

variable {text rest kept : List Char}

theorem withoutComments_of_break
    (found : break? text = some rest) :
    withoutComments text = '\n' :: withoutComments rest := by
  unfold break? at found
  split at found
  · cases found
    simp [withoutComments]
  · cases found
    simp [withoutComments]
  · cases found

theorem withoutComments_of_comment
    (found : comment? text = some (kept, rest)) :
    withoutComments text = kept ++ withoutComments rest := by
  unfold comment? at found
  split at found
  · cases found
    simp [withoutComments]
  · cases found
    simp [withoutComments]
  · cases found

theorem withoutComments_of_other
    {character : Char}
    (noBreak : break? (character :: rest) = none)
    (noComment : comment? (character :: rest) = none) :
    withoutComments (character :: rest) = character :: withoutComments rest := by
  unfold break? at noBreak
  unfold comment? at noComment
  split at noBreak
  · cases noBreak
  · cases noBreak
  · next notCarriage notFeed =>
      split at noComment
      · cases noComment
      · cases noComment
      · next notLine notBlock =>
          rw [withoutComments]
          · rintro others rfl rfl
            exact notLine others rfl
          · rintro others rfl rfl
            exact notBlock others rfl
          · rintro others rfl rfl
            exact notCarriage others rfl

theorem break?_eq_map
    (text : List Char) :
    break? text = (Scanner.lineBreak text).map fun found => text.drop found.2 := by
  unfold break?
  split
  · rfl
  · rfl
  · next noCarriage noFeed =>
      rw [Scanner.lineBreak]
      · rfl
      · exact noCarriage
      · exact noFeed

theorem length_lt_of_break
    (found : break? text = some rest) :
    rest.length < text.length := by
  unfold break? at found
  split at found
  · cases found
    simp only [List.length_cons]
    omega
  · cases found
    exact Nat.lt_succ_self _
  · cases found

theorem comment?_eq_none
    (noLine : ¬ lineMark <+: text)
    (noBlock : ¬ blockMark <+: text) :
    comment? text = none := by
  unfold comment?
  split
  · exact (noLine (List.prefix_append lineMark _)).elim
  · exact (noBlock (List.prefix_append blockMark _)).elim
  · rfl

theorem length_lt_of_comment
    (found : comment? text = some (kept, rest)) :
    rest.length < text.length := by
  unfold comment? at found
  split at found
  · next others =>
      cases found
      have shorter := (List.dropWhile_sublist inLine (l := others)).length_le
      simp only [List.length_cons]
      omega
  · cases found
    simp only [List.length_cons, List.length_drop]
    omega
  · cases found

/-- A line break or a comment begins a text. -/
def Begins (text : List Char) : Prop :=
  (break? text).isSome ∨ (comment? text).isSome

/-- A text begins, but not with a line break or a comment. -/
def IsPlain (text : List Char) : Prop :=
  text ≠ [] ∧ ¬ Begins text

theorem not_begins_nil :
    ¬ Begins [] := by
  simp [Begins, break?, comment?]

theorem ne_nil_iff :
    text ≠ [] ↔ Begins text ∨ IsPlain text := by
  constructor
  · intro some_
    by_cases begins : Begins text
    · exact .inl begins
    · exact .inr ⟨some_, begins⟩
  · rintro (begins | plain)
    · rintro rfl
      exact not_begins_nil begins
    · exact plain.1

/-- What pauses the reading of plain text. -/
theorem pauses_of_begins
    {character : Char}
    (begins : Begins (character :: rest)) :
    (character == '/' || character == '\r' || character == '\n') = true := by
  rcases begins with isBreak | isComment
  · unfold break? at isBreak
    split at isBreak
    · next follows => cases follows; rfl
    · next follows => cases follows; rfl
    · cases isBreak
  · unfold comment? at isComment
    split at isComment
    · next follows => cases follows; rfl
    · next follows => cases follows; rfl
    · cases isComment

theorem withoutComments_of_not_begins
    {character : Char}
    (notBegins : ¬ Begins (character :: rest)) :
    withoutComments (character :: rest) = character :: withoutComments rest := by
  obtain ⟨noBreak, noComment⟩ := not_or.mp notBegins
  exact
    withoutComments_of_other (Option.not_isSome_iff_eq_none.mp noBreak)
      (Option.not_isSome_iff_eq_none.mp noComment)

end Reference

section Running

variable
    {handle : {γ : Type} → NoEffect γ → Action NoHost γ}
    {spot : Spot}
    {onFailure : Spot → Prop}

theorem completes_lineComment :
    lineComment.Completes handle 0 spot
      (fun text after => comment? spot.rest = some (text.toList, after.rest))
      (fun _ => ¬ lineMark <+: spot.rest) := by
  refine Rule.completes_bind (Rule.completes_literal ?_)
  have mark : "//".toList = lineMark := rfl
  rw [mark]
  split
  · next stands =>
      obtain ⟨others, follows⟩ := stands
      intro _
      refine Rule.completes_then _ Rule.completes_taken ?_
      rintro found after ⟨_, rfl⟩ _
      refine Rule.completes_pure ?_
      rw [Spot.rest_drop, Spot.rest_drop, drop_length_takeWhile, ← follows]
      rfl
  · next missing =>
      exact missing

/-- The spot behind the body of a block comment that starts at a spot. -/
structure BehindBody
    (start middle : Spot) : Prop where
  line_eq : middle.line = start.line + (blockBody start.rest).count '\n'
  rest_eq : middle.rest = start.rest.drop (blockBody start.rest).length
  ended : middle.rest = [] ∨ endMark <+: middle.rest

/-- A body was read if no end mark stands before its end. -/
theorem behindBody_of_passes
    {start middle : Spot}
    {count : Nat}
    {text : List Char}
    (passes : Passes (endMark <+: ·) start count text middle)
    (ended : middle.rest = [] ∨ endMark <+: middle.rest) :
    text = blockBody start.rest ∧ BehindBody start middle := by
  have isBody : blockBody start.rest = text := by
    rw [passes.copied fun character rest => blockBody_cons]
    rcases ended with atEnd | ⟨others, follows⟩
    · simp [atEnd, blockBody]
    · simp [← follows, endMark, blockBody]
  refine ⟨isBody.symm, ?_, ?_, ended⟩
  · rw [isBody, passes.after_eq, passes.text_eq]
    rfl
  · rw [isBody, passes.length_eq, passes.after_eq, Spot.rest_drop]

theorem completes_endMark :
    (Rule.literal "*/" : CommentRule Unit).Completes handle 0 spot
      (fun _ after => endMark <+: spot.rest ∧ after = spot.drop 2)
      (fun _ => ¬ endMark <+: spot.rest) := by
  refine Rule.completes_literal ?_
  have mark : "*/".toList = endMark := rfl
  rw [mark]
  split
  · next stands =>
      exact ⟨stands, rfl⟩
  · next missing =>
      exact missing

theorem completes_blockBody
    {start : Spot} :
    (Rule.attempt
        (Rule.textUntil (Rule.literal "*/") (· == '*') noChar)).Completes
      handle 2 start
      (fun body middle =>
        body.elim [] String.toList = blockBody start.rest ∧
          BehindBody start middle)
      onFailure := by
  have atStar
      (character : Char)
      (rest : List Char)
      (stands : endMark <+: character :: rest) :
      (character == '*') = true := by
    obtain ⟨others, follows⟩ := stands
    cases follows
    rfl
  have atMark
      (spot : Spot) :
      (Rule.literal "*/" : CommentRule Unit).Completes handle 0 spot
        (fun _ _ => endMark <+: spot.rest)
        (fun _ => ¬ endMark <+: spot.rest) :=
    completes_endMark.mono (Nat.le_refl _) (fun _ _ => And.left) fun _ => id
  refine
    Rule.completes_attempt
      ((Rule.completes_textUntil (fun _ => rfl) atMark atStar).mono
        (Nat.le_refl _) ?_ ?_)
  · rintro text middle ⟨⟨count, _, passes⟩, ended⟩
    exact behindBody_of_passes passes ended
  · rintro middle ⟨rfl, ended⟩
    exact behindBody_of_passes (.zero middle) ended

/-- Behind a body its end mark is read, if there is one. -/
theorem completes_closing
    {start middle : Spot}
    {finish : CommentRule String}
    {onMatch : String → Spot → Prop}
    (behind : BehindBody start middle)
    (finishes :
      ∀ after,
        after.line = start.line + (blockBody start.rest).count '\n' →
        after.rest = start.rest.drop ((blockBody start.rest).length + 2) →
        finish.Completes handle 2 after onMatch onFailure) :
    (do
        if !(← Rule.atEnd) then
          let _ ← Rule.attempt (Rule.literal "*/")
        finish).Completes handle 2 middle onMatch onFailure := by
  obtain ⟨line_eq, rest_eq, ended⟩ := behind
  refine Rule.completes_bind (Rule.completes_atEnd fun _ => ?_)
  rcases ended with atEnd | ⟨others, follows⟩
  · simp only [atEnd, List.isEmpty_nil, Bool.not_true, Bool.false_eq_true, ↓reduceIte]
    refine finishes middle line_eq ?_
    rw [← List.drop_drop, ← rest_eq, atEnd, List.drop_nil]
  · have notAtEnd : middle.rest.isEmpty = false := by
      rw [← follows]
      rfl
    simp only [notAtEnd, Bool.not_false, ↓reduceIte]
    refine
      Rule.completes_then (fun _ after => after = middle.drop 2)
        (Rule.completes_attempt (completes_endMark.mono (Nat.zero_le _)
          (fun _ _ => And.right)
          fun _ missing => absurd ⟨others, follows⟩ missing)) ?_
    rintro _ _ rfl _
    apply finishes
    · rw [← line_eq]
      simp [Spot.drop, ← follows, endMark]
    · rw [Spot.rest_drop, rest_eq, List.drop_drop]

theorem completes_blockComment :
    blockComment.Completes handle 2 spot
      (fun text after => comment? spot.rest = some (text.toList, after.rest))
      (fun _ => ¬ blockMark <+: spot.rest) := by
  refine Rule.completes_bind (Rule.completes_literal ?_)
  have mark : "/*".toList = blockMark := rfl
  rw [mark]
  split
  · next stands =>
      obtain ⟨others, follows⟩ := stands
      intro _
      generalize isStart : spot.drop blockMark.length = start
      refine Rule.completes_bind (Rule.completes_here ?_)
      rintro checkpoint at_ _
      refine Rule.completes_then _ completes_blockBody ?_
      rintro body middle ⟨isBody, behind⟩ _
      refine completes_closing behind ?_
      intro after line_eq rest_eq
      have isComment :
          comment? spot.rest =
            some (List.replicate ((blockBody start.rest).count '\n') '\n',
              after.rest) := by
        rw [rest_eq, ← isStart, Spot.rest_drop, ← follows]
        rfl
      cases body with
      | none =>
          have noBody : blockBody start.rest = [] := isBody.symm
          refine Rule.completes_pure ?_
          rw [isComment, noBody]
          rfl
      | some text =>
          refine Rule.completes_bind (Rule.completes_here ?_)
          rintro reached rfl _
          refine Rule.completes_pure ?_
          have lines :
              reached.cursor.line - checkpoint.cursor.line =
                (blockBody start.rest).count '\n' := by
            change reached.cursor.spot.line - checkpoint.cursor.spot.line = _
            rw [line_eq, at_, Nat.add_sub_cancel_left]
          rw [isComment, lines, String.toList_ofList]
  · next missing =>
      exact missing

theorem completes_break :
    (do
        Rule.lineBreak
        return "\n" : CommentRule String).Completes handle 0 spot
      (Copies withoutComments (fun text => (break? text).isSome) spot)
      (fun _ => ¬ (break? spot.rest).isSome) := by
  refine Rule.completes_bind (Rule.completes_scan ?_)
  have scanned := break?_eq_map spot.rest
  cases found : Scanner.lineBreak spot.rest with
  | none =>
      rw [found] at scanned
      simp [scanned]
  | some pair =>
      rw [found] at scanned
      have isBreak : break? spot.rest = some (spot.drop pair.2).rest := scanned
      intro _
      refine Rule.completes_pure ⟨?_, ?_, ?_⟩
      · rw [isBreak]
        rfl
      · exact length_lt_of_break isBreak
      · exact withoutComments_of_break isBreak

theorem completes_comment :
    (Rule.oneOf [lineComment, blockComment]).Completes handle 4 spot
      (Copies withoutComments (fun text => (comment? text).isSome) spot)
      (fun _ => ¬ (comment? spot.rest).isSome) := by
  have copies
      (text : String)
      (after : Spot)
      (isComment : comment? spot.rest = some (text.toList, after.rest)) :
      Copies withoutComments (fun text => (comment? text).isSome) spot text
        after :=
    ⟨by simp [isComment], length_lt_of_comment isComment,
      withoutComments_of_comment isComment⟩
  refine Rule.completes_parse ?_
  refine
    Rule.completes_firstOf _
      (completes_lineComment.mono (Nat.zero_le _) copies fun _ => id) ?_
  intro noLine
  refine
    Rule.completes_firstOf _
      (completes_blockComment.mono (Nat.le_refl _) copies fun _ => id) ?_
  intro noBlock
  refine Rule.completes_fail ?_
  simp [comment?_eq_none noLine noBlock]

/-- Line breaks and comments are reduced to what remains of them. -/
theorem completes_breaksAndComments :
    breaksAndComments.Completes handle 7 spot
      (fun text after =>
        Copies withoutComments Begins spot text after ∧ ¬ Begins after.rest)
      (fun _ => ¬ Begins spot.rest) := by
  have readsBreak
      (spot : Spot) :
      (Rule.optionally do
          Rule.lineBreak
          return "\n" : CommentRule (Step String)).Completes handle 5 spot
        (Step.Copies withoutComments (fun text => (break? text).isSome) spot)
        (fun _ => False) :=
    Rule.completes_optionally
      (completes_break.mono (Nat.zero_le 4) (fun _ _ => id)
        fun _ absent => ⟨rfl, absent⟩)
  have readsComment
      (spot : Spot) :
      (Rule.optionally (Rule.oneOf [lineComment, blockComment])).Completes
        handle 5 spot
        (Step.Copies withoutComments (fun text => (comment? text).isSome) spot)
        (fun _ => False) :=
    Rule.completes_optionally
      (completes_comment.mono (Nat.le_refl 4) (fun _ _ => id)
        fun _ absent => ⟨rfl, absent⟩)
  refine
    Rule.completes_bind
      ((Rule.completes_alternate readsBreak readsComment (fun _ => Iff.rfl)
        not_begins_nil).mono (Nat.le_refl _) ?_ fun _ => And.right)
  rintro texts after copied _
  exact Rule.completes_pure copied

/-- Plain text is read up to the next line break or comment. -/
theorem completes_plainText :
    plainText.Completes handle 9 spot
      (Copies withoutComments IsPlain spot)
      (fun _ => ¬ IsPlain spot.rest) := by
  have stops
      (spot : Spot) :
      breaksAndComments.Completes handle 7 spot
        (fun _ _ => Begins spot.rest)
        (fun _ => ¬ Begins spot.rest) :=
    completes_breaksAndComments.mono (Nat.le_refl _)
      (fun _ _ copied => copied.1.present) fun _ => id
  refine
    (Rule.completes_textUntil (fun _ => rfl) stops
      fun _ _ => pauses_of_begins).mono (Nat.le_refl _) ?_ ?_
  · rintro text after ⟨⟨count, some_, passes⟩, _⟩
    have notEmpty : spot.rest ≠ [] :=
      List.ne_nil_of_length_pos (Nat.lt_of_lt_of_le some_ passes.count_le)
    refine ⟨⟨notEmpty, passes.free 0 some_⟩, ?_, ?_⟩
    · rw [passes.after_eq, Spot.rest_drop, List.length_drop]
      have within := passes.count_le
      omega
    · exact passes.copied fun _ _ => withoutComments_of_not_begins
  · rintro after ⟨_, ended⟩ ⟨some_, notBegins⟩
    rcases ended with atEnd | begins
    · exact some_ atEnd
    · exact notBegins begins

/-- A script is read to its end and gives its text without comments. -/
theorem completes_script :
    script.Completes handle 12 spot
      (fun text _ => text.toList = withoutComments spot.rest)
      (fun _ => False) := by
  have readsBreaks
      (spot : Spot) :
      (Rule.optionally breaksAndComments).Completes handle 10 spot
        (Step.Copies withoutComments Begins spot) (fun _ => False) :=
    Rule.completes_optionally
      (completes_breaksAndComments.mono (by decide : 7 ≤ 9)
        (fun _ _ copied => copied.1) fun _ absent => ⟨rfl, absent⟩)
  have readsText
      (spot : Spot) :
      (Rule.optionally plainText).Completes handle 10 spot
        (Step.Copies withoutComments IsPlain spot) (fun _ => False) :=
    Rule.completes_optionally
      (completes_plainText.mono (Nat.le_refl 9) (fun _ _ => id)
        fun _ absent => ⟨rfl, absent⟩)
  refine
    Rule.completes_then
      (fun pieces after =>
        (String.join (pieces.getD [])).toList = withoutComments spot.rest ∧
          after.rest = [])
      (Rule.completes_attempt
        ((Rule.completes_alternate readsBreaks readsText (fun _ => ne_nil_iff)
          (fun some_ => some_ rfl)).mono (Nat.le_refl _) ?_ ?_)) ?_
  · rintro texts after ⟨copied, ended⟩
    have atEnd : after.rest = [] := Classical.not_not.mp ended
    refine ⟨?_, atEnd⟩
    rw [copied.copied, atEnd]
    simp [withoutComments]
  · rintro after ⟨rfl, ended⟩
    have atEnd : after.rest = [] := Classical.not_not.mp ended
    refine ⟨?_, atEnd⟩
    rw [atEnd, withoutComments]
    rfl
  · rintro pieces after ⟨copied, atEnd⟩ _
    refine Rule.completes_bind (Rule.completes_bind (Rule.completes_here ?_))
    rintro checkpoint rfl _
    refine Rule.completes_pure fun _ => Rule.completes_pure ?_
    have nothingLeft : checkpoint.cursor.rest = [] := atEnd
    rw [nothingLeft, ← copied]
    simp

theorem script_run_completes
    {machine : Machine NoHost}
    {outcome : Outcome NoHost String}
    (read : script.run handle machine = outcome)
    (room : machine.stack.height + 12 ≤ machine.stack.maxDepth)
    (rounds : machine.cursor.rest.length < machine.rounds) :
    outcome.Completes
      (fun text _ => text.toList = withoutComments machine.cursor.rest)
      (fun _ => False) := by
  rw [← read]
  exact (completes_script machine rfl room rounds).mono (fun _ _ => And.right)
    fun _ => And.right

end Running

/-- Taking out comments gives a text, that which is left of the script. -/
theorem strip_eq_ok_iff
    {source text : String} :
    strip source = .ok text ↔ text.toList = withoutComments source.toList := by
  have room : 1 + 12 ≤ maxDepth := by decide
  have rounds : source.toList.length < Machine.roundLimit source.toList.length := by
    unfold Machine.roundLimit
    omega
  unfold strip
  split
  · next found after read =>
      have isText : found.toList = withoutComments source.toList :=
        script_run_completes read room rounds
      rw [← isText, Except.ok.injEq, ← String.toList_inj, eq_comm]
  · next after read =>
      exact (script_run_completes read room rounds).elim
  · next fault read =>
      exact (script_run_completes read room rounds).elim

/-- Whatever the text, its comments can be taken out. -/
theorem exists_strip
    (source : String) :
    ∃ text, strip source = .ok text :=
  ⟨_, strip_eq_ok_iff.mpr String.toList_ofList⟩

/-- Taking out comments never faults and gives the text as it reads without them. -/
theorem strip_eq_withoutComments
    (source : String) :
    strip source = .ok (String.ofList (withoutComments source.toList)) :=
  strip_eq_ok_iff.mpr String.toList_ofList

end InkSyntax.Comment
