import InkSyntax.Proofs.Reading.Words

namespace InkSyntax

/-!
# Headers of knots and stitches read back

A header is written as a name with its parameters in parentheses, between equals
signs for a knot and behind one for a stitch.  Reading it gives the name and the
parameters back, except that a stitch takes `function` at the start of a longer name
for the keyword.
-/

/-- A parameter as it is written: its marks, then its name. -/
def Parameter.written (parameter : Parameter) : String :=
  (if parameter.byReference then "ref " else "") ++
    (if parameter.isDivertTarget then "-> " else "") ++
    parameter.name

/-- A parameter whose name is not the word that marks references. -/
def Parameter.IsNamed (parameter : Parameter) : Prop :=
  Grammar.IsName parameter.name ∧ parameter.name ≠ "ref"

instance Parameter.decidableIsNamed (parameter : Parameter) :
    Decidable parameter.IsNamed :=
  inferInstanceAs (Decidable (_ ∧ _))

namespace Grammar

open Machine (Silent IsReady)
open Reading (Site)

/-- A name with its parameters. -/
def writtenSignature
    (name : String)
    (parameters : List Parameter) :
    String :=
  name ++ "(" ++ String.intercalate ", " (parameters.map Parameter.written) ++ ")"

/-- The header of a knot. -/
def writtenKnot
    (name : String)
    (parameters : List Parameter) :
    String :=
  "== " ++ writtenSignature name parameters ++ " =="

/-- The header of a stitch. -/
def writtenStitch
    (name : String)
    (parameters : List Parameter) :
    String :=
  "= " ++ writtenSignature name parameters

variable
    {depth : Nat}
    {kinds : List StoryKind}
    {text rest tail : List Char}
    {name : String}

section Parameters

theorem comesTo_parameter
    {parameter : Parameter}
    (named : parameter.IsNamed)
    (ends : EndsItem rest) :
    ComesTo Grammar.parameter (depth + 1)
      ⟨parameter.written.toList ++ rest, kinds⟩ (some parameter)
      ⟨rest, kinds⟩ := by
  have endsWord : StartsWithout isIdentifierChar rest :=
    ends.startsWithout (by decide) (by decide)
  have dark : withoutBlanks rest = rest :=
    (ends.startsWithout (by decide) (by decide)).dropWhile
  obtain ⟨name, byReference, isDivertTarget⟩ := parameter
  obtain ⟨isName, notRef⟩ := named
  -- The name itself is the first word, or the second one behind a mark.
  have word :
      ComesTo (Rule.attempt Grammar.name) (depth + 1)
        ⟨name.toList ++ rest, kinds⟩ (some (some name)) ⟨rest, kinds⟩ :=
    (comesTo_name isName endsWord).attempt
  have mark
      (rest : List Char) :
      ComesTo (Rule.attempt Grammar.name) (depth + 1)
        ⟨"ref".toList ++ ' ' :: rest, kinds⟩ (some (some "ref"))
        ⟨' ' :: rest, kinds⟩ :=
    (comesTo_name (by decide) (startsWithout_cons.mpr (by decide))).attempt
  have noWord
      {rest : List Char}
      (ends : StartsWithout isIdentifierChar rest) :
      ComesTo (Rule.attempt Grammar.name) (depth + 1)
        ⟨rest, kinds⟩ (some none) ⟨rest, kinds⟩ :=
    (comesTo_name_none [] rfl ends).attempt
  have noArrow : ¬ "->".toList <+: name.toList ++ rest :=
    not_prefix_of_head? rfl (isName.head?_ne (by decide))
  cases byReference with
  | false =>
      cases isDivertTarget with
      | false =>
          have plain :
              parameterOf (some name) false none =
                pure ⟨name, false, false⟩ := by
            have other : (some name == some "ref") = false := by
              simpa using notRef
            simp [parameterOf, chosenName, other]
          apply word.bind
          apply (comesTo_skipBlanks dark).bind
          apply (comesTo_optionalLiteral_none ?_).bind
          · apply (comesTo_skipBlanks dark).bind
            apply (noWord endsWord).bind
            rw [plain]
            exact comesTo_pure
          · exact ends.not_prefix rfl (by decide) (by decide)
      | true =>
          have spelled :
              (Parameter.mk name false true).written.toList ++ rest =
                "->".toList ++ ' ' :: (name.toList ++ rest) := by
            simp [Parameter.written]
          rw [spelled]
          apply (noWord (startsWithout_cons.mpr (by decide))).bind
          apply (comesTo_skipBlanks rfl).bind
          apply (comesTo_optionalLiteral rfl).bind
          apply (comesTo_skipBlanks isName.withoutBlanks_space).bind
          apply word.bind
          exact comesTo_pure
  | true =>
      cases isDivertTarget with
      | false =>
          have spelled :
              (Parameter.mk name true false).written.toList ++ rest =
                "ref".toList ++ ' ' :: (name.toList ++ rest) := by
            simp [Parameter.written]
          rw [spelled]
          apply (mark _).bind
          apply (comesTo_skipBlanks isName.withoutBlanks_space).bind
          apply (comesTo_optionalLiteral_none noArrow).bind
          apply (comesTo_skipBlanks isName.withoutBlanks).bind
          apply word.bind
          exact comesTo_pure
      | true =>
          have spelled :
              (Parameter.mk name true true).written.toList ++ rest =
                "ref".toList ++ ' ' :: ("->".toList ++ ' ' :: (name.toList ++ rest)) := by
            simp [Parameter.written]
          rw [spelled]
          apply (mark _).bind
          apply (comesTo_skipBlanks rfl).bind
          apply (comesTo_optionalLiteral rfl).bind
          apply (comesTo_skipBlanks isName.withoutBlanks_space).bind
          apply word.bind
          exact comesTo_pure

/-- No blank stands before a parameter. -/
theorem withoutBlanks_written
    {parameter : Parameter}
    (named : parameter.IsNamed) :
    withoutBlanks (parameter.written.toList ++ rest) =
      parameter.written.toList ++ rest := by
  obtain ⟨name, byReference, isDivertTarget⟩ := parameter
  cases byReference with
  | false =>
      cases isDivertTarget with
      | false =>
          exact named.1.withoutBlanks
      | true =>
          simp [Parameter.written, withoutBlanks, isInlineBlank]
  | true =>
      simp [Parameter.written, withoutBlanks, isInlineBlank]

/-- What stands behind a parameter: others after commas, then the closing parenthesis. -/
def furtherParameters
    (tail : List Char)
    (parameters : List Parameter) :
    List Char :=
  furtherWords [',', ' '] (')' :: tail) (parameters.map Parameter.written)

/-- What stands behind the opening parenthesis of a list of parameters. -/
def parameterText
    (tail : List Char)
    (parameters : List Parameter) :
    List Char :=
  separatedWords [',', ' '] (')' :: tail) (parameters.map Parameter.written)

theorem toList_writtenSignature
    (name : String)
    (parameters : List Parameter) :
    (writtenSignature name parameters).toList ++ tail =
      name.toList ++ '(' :: parameterText tail parameters := by
  have inParentheses :=
    toList_inParentheses tail (parameters.map Parameter.written)
  simpa [writtenSignature, parameterText] using inParentheses

/-- A parameter in a list, with blanks around it. -/
theorem comesTo_spaced_parameter
    (tail : List Char)
    (depth : Nat)
    (kinds : List StoryKind)
    {parameter : Parameter}
    (named : parameter.IsNamed)
    (others : List Parameter)
    (before : withoutBlanks text =
      parameter.written.toList ++ furtherParameters tail others) :
    ComesTo (spaced Grammar.parameter) (depth + 2) ⟨text, kinds⟩
      (some parameter) ⟨furtherParameters tail others, kinds⟩ := by
  have ends : EndsItem (furtherParameters tail others) := endsItem_furtherWords _ _
  apply ComesTo.spaced before (comesTo_parameter named ends)
  exact withoutBlanks_of_endsItem ends

theorem listed_parameters
    {parameters : List Parameter}
    (named : ∀ parameter ∈ parameters, parameter.IsNamed) :
    Listed (spaced Grammar.parameter) (Rule.literal ",") (depth + 2)
      ⟨furtherParameters tail parameters, kinds⟩ parameters
      ⟨')' :: tail, kinds⟩ := by
  induction parameters with
  | nil =>
      exact .done (fails_literal (by simp [furtherParameters, furtherWords]))
  | cons parameter others inductionHypothesis =>
      have isNamed := named parameter List.mem_cons_self
      have othersNamed :
          ∀ other ∈ others, other.IsNamed := by
        intro other member
        exact named other (List.mem_cons_of_mem parameter member)
      have comma :
          furtherParameters tail (parameter :: others) =
            ',' :: ' ' ::
              (parameter.written.toList ++ furtherParameters tail others) :=
        rfl
      rw [comma]
      apply Listed.more (comesTo_literal rfl)
      · exact
          comesTo_spaced_parameter _ _ _ isNamed others
            (withoutBlanks_written isNamed)
      · simp only [List.length_cons, List.length_append]
        omega
      · exact inductionHypothesis othersNamed

theorem fails_spaced_parameter :
    Fails (spaced Grammar.parameter) (depth + 2) ⟨')' :: tail, kinds⟩ := by
  have noWord :
      ComesTo (Rule.attempt Grammar.name) (depth + 1) ⟨')' :: tail, kinds⟩
        (some none) ⟨')' :: tail, kinds⟩ :=
    (comesTo_name_none [] rfl
      (startsWithout_cons.mpr (by decide))).attempt
  have skipped :
      ComesTo skipBlanks (depth + 1) ⟨')' :: tail, kinds⟩ (some ())
        ⟨')' :: tail, kinds⟩ :=
    comesTo_skipBlanks rfl
  apply Fails.spaced rfl
  apply noWord.bind_fails
  apply skipped.bind_fails
  apply (comesTo_optionalLiteral_none (by simp)).bind_fails
  apply (comesTo_skipBlanks rfl).bind_fails
  apply noWord.bind_fails
  exact fails_fail

theorem comesTo_parameters
    {parameters : List Parameter}
    (named : ∀ parameter ∈ parameters, parameter.IsNamed) :
    ComesTo Grammar.parameters (depth + 5)
      ⟨'(' :: parameterText tail parameters, kinds⟩
      (some parameters) ⟨tail, kinds⟩ := by
  have closing :
      ComesTo
        (Rule.attempt
          (Rule.expect (Rule.literal ")") "closing ')' for parameter list"))
        (depth + 5) ⟨')' :: tail, kinds⟩ (some (some ())) ⟨tail, kinds⟩ :=
    (comesTo_literal rfl).expect.attempt
  apply (comesTo_literal rfl).bind
  cases parameters with
  | nil =>
      apply (comesTo_alternate_none fails_spaced_parameter).attempt.bind
      apply closing.bind
      exact comesTo_pure
  | cons first others =>
      have isNamed := named first List.mem_cons_self
      have othersNamed :
          ∀ other ∈ others, other.IsNamed := by
        intro other member
        exact named other (List.mem_cons_of_mem first member)
      have found :=
        comesTo_spaced_parameter tail depth kinds isNamed others
          (withoutBlanks_written isNamed)
      apply (comesTo_alternate found (listed_parameters othersNamed)).attempt.bind
      apply closing.bind
      exact comesTo_pure

theorem comesTo_optionalParameters
    {parameters : List Parameter}
    (named : ∀ parameter ∈ parameters, parameter.IsNamed)
    (left : withoutBlanks tail = rest) :
    ComesTo optionalParameters (depth + 6)
      ⟨'(' :: parameterText tail parameters, kinds⟩ (some parameters)
      ⟨rest, kinds⟩ := by
  apply (comesTo_skipBlanks rfl).bind
  apply (comesTo_parameters named).tried.bind
  apply (comesTo_skipBlanks left).bind
  exact comesTo_pure

end Parameters

section Headers

variable {parameters : List Parameter}

theorem comesTo_knotMark
    (ends : StartsWithout isEqualsSign rest) :
    ComesTo knotMark depth ⟨'=' :: '=' :: rest, kinds⟩ (some ())
      ⟨rest, kinds⟩ := by
  have run : ('=' :: '=' :: rest).takeWhile isEqualsSign = ['=', '='] :=
    takeWhile_run ['=', '='] rfl ends
  have left : ('=' :: '=' :: rest).dropWhile isEqualsSign = rest :=
    dropWhile_run ['=', '='] rfl ends
  have signs :=
    comesTo_chars depth kinds (by rw [run]; exact List.cons_ne_nil _ _)
  rw [run, left] at signs
  exact signs.bind comesTo_require

/-- The header of a knot is read back. -/
theorem comesTo_knotHeader
    (isName : IsName name)
    (notKeyword : name ≠ "function")
    (named : ∀ parameter ∈ parameters, parameter.IsNamed)
    (ends : EndsLine tail) :
    ComesTo knotHeader (depth + 6)
      ⟨(writtenKnot name parameters).toList ++ tail, kinds⟩
      (some ⟨⟨kinds.length⟩, parameters, false⟩)
      ⟨tail, kinds ++ [.identifier name]⟩ := by
  have spelled :
      (writtenKnot name parameters).toList ++ tail =
        '=' :: '=' :: ' ' ::
          (name.toList ++ '(' :: parameterText (' ' :: '=' :: '=' :: tail) parameters) := by
    rw [← toList_writtenSignature]
    simp [writtenKnot]
  have nameIs :
      ComesTo knotName (depth + 6)
        ⟨name.toList ++ '(' :: parameterText (' ' :: '=' :: '=' :: tail) parameters, kinds⟩
        (some (false, some ⟨kinds.length⟩))
        ⟨'(' :: parameterText (' ' :: '=' :: '=' :: tail) parameters,
          kinds ++ [.identifier name]⟩ := by
    have other : (name == "function") = false := by
      simpa using notKeyword
    apply (comesTo_identifier _ _ isName (startsWithout_cons.mpr (by decide))).tried.bind
    apply (comesTo_identifierName name (by simp)).bind
    simp only [other]
    exact comesTo_pure
  have mark :
      ComesTo (Rule.attempt (Rule.parse knotMark)) (depth + 6)
        ⟨'=' :: '=' :: tail, kinds ++ [.identifier name]⟩ (some (some ()))
        ⟨tail, kinds ++ [.identifier name]⟩ :=
    (comesTo_knotMark (ends.startsWithout (by decide) (by decide))).tried
  rw [spelled]
  apply (comesTo_skipBlanks rfl).bind
  apply (comesTo_knotMark (startsWithout_cons.mpr (by decide))).bind
  apply (comesTo_skipBlanks isName.withoutBlanks_space).bind
  apply nameIs.bind
  apply ComesTo.bind comesTo_pure
  apply (comesTo_optionalParameters named rfl).bind
  apply mark.bind
  exact comesTo_pure

theorem toList_writtenStitch
    (name : String)
    (parameters : List Parameter) :
    (writtenStitch name parameters).toList ++ tail =
      '=' :: ' ' :: (name.toList ++ '(' :: parameterText tail parameters) := by
  rw [← toList_writtenSignature]
  simp [writtenStitch]

/-- The rest of the header of a stitch, behind the keyword. -/
def nameAndParameters (isFunction : Bool) : GrammarRule FlowHeader := do
  let name ← Rule.parse identifier
  let parameters ← optionalParameters
  return { name, parameters, isFunction }

theorem comesTo_nameAndParameters
    (depth : Nat)
    (kinds : List StoryKind)
    (isFunction : Bool)
    (isName : IsName name)
    (named : ∀ parameter ∈ parameters, parameter.IsNamed)
    (ends : EndsLine tail) :
    ComesTo (nameAndParameters isFunction) (depth + 6)
      ⟨name.toList ++ '(' :: parameterText tail parameters, kinds⟩
      (some ⟨⟨kinds.length⟩, parameters, isFunction⟩)
      ⟨tail, kinds ++ [.identifier name]⟩ := by
  have endsWord :
      StartsWithout isIdentifierChar ('(' :: parameterText tail parameters) :=
    startsWithout_cons.mpr (by decide)
  have left : withoutBlanks tail = tail :=
    (ends.startsWithout rfl rfl).dropWhile
  apply (comesTo_identifier _ _ isName endsWord).parse.bind
  apply (comesTo_optionalParameters named left).bind
  exact comesTo_pure

/-- A header of a stitch is read from what its keyword leaves. -/
theorem ComesTo.stitchHeader
    {isFunction : Bool}
    {behind : List Char}
    {result : Option FlowHeader}
    {last : Page}
    (isName : IsName name)
    (keyword :
      ComesTo stitchKeyword depth
        ⟨name.toList ++ '(' :: parameterText tail parameters, kinds⟩
        (some isFunction) ⟨behind, kinds⟩)
    (comes :
      ComesTo (nameAndParameters isFunction) depth ⟨behind, kinds⟩ result last) :
    ComesTo stitchHeader depth
      ⟨(writtenStitch name parameters).toList ++ tail, kinds⟩ result last := by
  rw [toList_writtenStitch]
  apply (comesTo_skipBlanks rfl).bind
  apply (comesTo_literal rfl).bind
  apply (comesTo_optionalLiteral_none (by simp)).bind
  apply (comesTo_skipBlanks isName.withoutBlanks_space).bind
  exact keyword.bind comes

/-- The header of a stitch is read back, if its name does not begin like a keyword. -/
theorem comesTo_stitchHeader
    (isName : IsName name)
    (noKeyword : ¬ "function".toList <+: name.toList)
    (named : ∀ parameter ∈ parameters, parameter.IsNamed)
    (ends : EndsLine tail) :
    ComesTo stitchHeader (depth + 6)
      ⟨(writtenStitch name parameters).toList ++ tail, kinds⟩
      (some ⟨⟨kinds.length⟩, parameters, false⟩)
      ⟨tail, kinds ++ [.identifier name]⟩ := by
  have noFunction :
      ¬ "function".toList <+:
        name.toList ++ '(' :: parameterText tail parameters := by
    rintro ⟨behind, same⟩
    have letters :
        (name.toList ++ '(' :: parameterText tail parameters).takeWhile
            isIdentifierChar =
          name.toList :=
      takeWhile_run _ isName.1 (startsWithout_cons.mpr (by decide))
    have keywordLetters : "function".toList.all isIdentifierChar = true := by
      decide
    rw [← same,
      List.takeWhile_append_of_pos (List.all_eq_true.mp keywordLetters)]
      at letters
    exact noKeyword ⟨_, letters⟩
  have keyword :
      ComesTo stitchKeyword (depth + 6)
        ⟨name.toList ++ '(' :: parameterText tail parameters, kinds⟩
        (some false)
        ⟨name.toList ++ '(' :: parameterText tail parameters, kinds⟩ :=
    (comesTo_optionalLiteral_none noFunction).bind comesTo_pure
  exact ComesTo.stitchHeader isName keyword
    (comesTo_nameAndParameters depth kinds false isName named ends)

/-- What stands behind the letters of the keyword in a longer name. -/
theorem exists_behind_keyword
    (isName : IsName name)
    (notKeyword : name ≠ "function")
    (begins : "function".toList <+: name.toList) :
    ∃ first others,
      "function".toList ++ first :: others = name.toList ∧
        (first :: others).all isIdentifierChar = true := by
  obtain ⟨more, letters⟩ := begins
  have identifiers := isName.1
  rw [← letters, List.all_append] at identifiers
  cases more with
  | nil =>
      rw [List.append_nil] at letters
      exact absurd (String.toList_injective letters.symm) notKeyword
  | cons first others =>
      exact ⟨first, others, letters, (Bool.and_eq_true_iff.mp identifiers).2⟩

/-- A name that begins like the keyword is cut, and its flow is taken for a function. -/
theorem comesTo_stitchHeader_keyword
    (isName : IsName name)
    (notKeyword : name ≠ "function")
    (begins : "function".toList <+: name.toList)
    (named : ∀ parameter ∈ parameters, parameter.IsNamed)
    (ends : EndsLine tail) :
    ∃ result last,
      ComesTo stitchHeader (depth + 6)
          ⟨(writtenStitch name parameters).toList ++ tail, kinds⟩
          result last ∧
        ∀ header, result = some header → header.isFunction = true := by
  obtain ⟨first, others, letters, identifiers⟩ :=
    exists_behind_keyword isName notKeyword begins
  have dark :
      withoutBlanks ((first :: others) ++ '(' :: parameterText tail parameters) =
        (first :: others) ++ '(' :: parameterText tail parameters := by
    have isFirst := (Bool.and_eq_true_iff.mp identifiers).1
    exact
      (startsWithout_cons.mpr
        (not_isInlineBlank_of_isIdentifierChar isFirst)).dropWhile
  have endsWord :
      StartsWithout isIdentifierChar ('(' :: parameterText tail parameters) :=
    startsWithout_cons.mpr (by decide)
  have keyword :
      ComesTo stitchKeyword (depth + 6)
        ⟨name.toList ++ '(' :: parameterText tail parameters, kinds⟩
        (some true)
        ⟨(first :: others) ++ '(' :: parameterText tail parameters, kinds⟩ := by
    rw [← letters, List.append_assoc]
    apply (comesTo_optionalLiteral rfl).bind
    apply (comesTo_skipBlanks dark).bind
    exact comesTo_pure
  by_cases digits : (first :: others).all isDigit = true
  · have fails :=
      comesTo_identifier_none (depth + 3) kinds digits endsWord
    have comes := Fails.parse ⟨_, fails⟩
    exact ⟨none, _, ComesTo.stitchHeader isName keyword comes.bind_none, nofun⟩
  · have isRest : IsName (String.ofList (first :: others)) := by
      rw [IsName, String.toList_ofList]
      exact ⟨identifiers, Bool.not_eq_true _ ▸ digits⟩
    have comes :=
      comesTo_nameAndParameters depth kinds true isRest named ends
    rw [String.toList_ofList] at comes
    refine ⟨_, _, ComesTo.stitchHeader isName keyword comes, ?_⟩
    rintro header ⟨⟩
    rfl

/-- Reading a header gives a name and parameters back, for a flow that is no function. -/
def ReadsBack
    (library : Library)
    (maxDepth : Nat)
    (header : GrammarRule FlowHeader)
    (files levels : Nat)
    (machine : Machine Workshop)
    (name : String)
    (parameters : List Parameter)
    (tail : List Char) : Prop :=
  ∃ found after,
    Site.outcome library maxDepth ⟨files, levels, header, machine⟩ =
        .matched found after ∧
      Silent machine after ∧
      after.cursor.rest = tail ∧
      after.host.draft.kind? found.name = some (.identifier name) ∧
      found.parameters = parameters ∧
      found.isFunction = false

/-- A header that a rule comes to is read back by every run that has room. -/
theorem ComesTo.readsBack
    {header : GrammarRule FlowHeader}
    {text : List Char}
    {library : Library}
    {maxDepth files levels : Nat}
    {machine : Machine Workshop}
    (comes :
      ∀ kinds,
        ComesTo header depth ⟨text, kinds⟩
          (some ⟨⟨kinds.length⟩, parameters, false⟩)
          ⟨tail, kinds ++ [.identifier name]⟩)
    (ready : machine.IsReady depth levels machine.page)
    (at_ : machine.cursor.rest = text) :
    ReadsBack library maxDepth header files levels machine name parameters
      tail := by
  subst at_
  obtain ⟨after, silent, isLast, ran⟩ :=
    comes machine.host.draft.kinds library maxDepth files levels machine ready
  obtain ⟨left, kinds⟩ := Page.mk.inj isLast
  refine ⟨_, after, ran, silent, left, ?_, rfl, rfl⟩
  rw [Draft.kind?_eq_getElem?, kinds]
  simp

/-- Headers of knots are read back, and those of stitches unless `function` begins the name. -/
theorem headers_read_back
    (isName : IsName name)
    (notKeyword : name ≠ "function")
    (named : ∀ parameter ∈ parameters, parameter.IsNamed)
    (ends : EndsLine tail)
    {library : Library}
    {maxDepth files levels : Nat}
    {machine : Machine Workshop}
    (ready : machine.IsReady 6 levels machine.page) :
    (machine.cursor.rest = (writtenKnot name parameters).toList ++ tail →
        ReadsBack library maxDepth knotHeader files levels machine name
          parameters tail) ∧
      (machine.cursor.rest = (writtenStitch name parameters).toList ++ tail →
        (ReadsBack library maxDepth stitchHeader files levels machine name
            parameters tail ↔
          ¬ "function".toList <+: name.toList)) := by
  constructor
  · apply ComesTo.readsBack _ ready
    intro kinds
    exact comesTo_knotHeader isName notKeyword named ends
  · intro at_
    constructor
    · rintro ⟨found, after, matched, -, -, -, -, noFunction⟩ begins
      obtain ⟨result, last, comes, isFunction⟩ :=
        comesTo_stitchHeader_keyword isName notKeyword begins named ends
      rw [← at_] at comes
      obtain ⟨ended, -, -, ran⟩ :=
        comes library maxDepth files levels machine ready
      rw [matched] at ran
      cases result with
      | none =>
          cases ran
      | some header =>
          cases ran
          rw [isFunction found rfl] at noFunction
          cases noFunction
    · intro noKeyword
      apply ComesTo.readsBack _ ready at_
      intro kinds
      exact comesTo_stitchHeader isName noKeyword named ends

/-- A knot and a stitch of one name, with a parameter in each spelling. -/
theorem headers_of_greet_read_back :
    ReadsBack (.ofFiles []) 200 knotHeader 0 202
        (.start "== greet(a, ref b, -> c, ref -> d) ==\n".toList 200
          { file := none, session := {} })
        "greet"
        [⟨"a", false, false⟩, ⟨"b", true, false⟩, ⟨"c", false, true⟩,
          ⟨"d", true, true⟩]
        ['\n'] ∧
      ReadsBack (.ofFiles []) 200 stitchHeader 0 202
        (.start "= greet(a, ref b, -> c, ref -> d)\n".toList 200
          { file := none, session := {} })
        "greet"
        [⟨"a", false, false⟩, ⟨"b", true, false⟩, ⟨"c", false, true⟩,
          ⟨"d", true, true⟩]
        ['\n'] := by
  have ends : EndsLine ['\n'] := by
    rintro character ⟨⟩
    exact .inl rfl
  have ready
      (text : List Char) :
      (Machine.start text 200 { file := none, session := {} }).IsReady 6 202
        (Machine.start text 200 { file := none, session := {} }).page :=
    .start text _ (by decide) (by decide)
  constructor
  · apply (headers_read_back (by decide) (by decide) (by decide) ends (ready _)).1
    simp [Machine.start, Machine.cursor, RuleStack.start, Cursor.atStart,
      writtenKnot, writtenSignature, Parameter.written]
  · refine
      ((headers_read_back (by decide) (by decide) (by decide) ends
          (ready _)).2
        ?_).mpr ?_
    · simp [Machine.start, Machine.cursor, RuleStack.start, Cursor.atStart,
        writtenStitch, writtenSignature, Parameter.written]
    · decide

/-- A stitch whose name only begins like the keyword is not read back. -/
theorem functional_stitch_not_read_back :
    IsName "functional" ∧
      "functional" ≠ "function" ∧
      (Parameter.mk "x" false false).IsNamed ∧
      writtenStitch "functional" [⟨"x", false, false⟩] = "= functional(x)" ∧
      ¬ ReadsBack (.ofFiles []) 200 stitchHeader 0 202
          (.start "= functional(x)\n".toList 200
            { file := none, session := {} })
          "functional" [⟨"x", false, false⟩] ['\n'] := by
  have written :
      writtenStitch "functional" [⟨"x", false, false⟩] = "= functional(x)" := by
    simp [writtenStitch, writtenSignature, Parameter.written]
  refine ⟨by decide, by decide, by decide, written, ?_⟩
  rintro ⟨found, after, matched, -, -, -, -, noFunction⟩
  have isFunction :
      Site.yields (.ofFiles []) 200
          ⟨0, 202, stitchHeader,
            .start "= functional(x)\n".toList 200
              { file := none, session := {} }⟩
          (·.isFunction) =
        true := by
    decide +kernel
  obtain ⟨header, function, ran⟩ := Site.exists_matched_of_yields isFunction
  have same := (Outcome.matched.inj (matched.symm.trans ran)).1
  rw [← same, noFunction] at function
  cases function

end Headers

end Grammar

end InkSyntax
