import InkSyntax.Proofs.CommentFree
import InkSyntax.Proofs.Reading.DescribedTerms
import InkSyntax.Proofs.Reading.SingleStatements
import InkSyntax.Proofs.Reading.StatementHeads

namespace InkSyntax

/-!
# Lists read back what was written

A list is declared on a line with its name and its elements.  An element is a name; a
number may stand behind it, and parentheses around both tell that it is selected at
first.  What comes of such a line is the list with these elements, in this order, and
nothing is said about it.
-/

/-- An element as it is declared. -/
structure ListEntry where
  name : String
  selected : Bool
  value? : Option Int

namespace ListEntry

/-- What stands behind the name of an element. -/
def behindName (entry : ListEntry) : String :=
  (match entry.value? with
    | none => ""
    | some value => " = " ++ toString value) ++
    if entry.selected then ")" else ""

/-- An element as it is written. -/
def written (entry : ListEntry) : String :=
  (if entry.selected then "(" else "") ++ entry.name ++ entry.behindName

/-- An element with a proper name and a number that can be read. -/
structure IsWritable (entry : ListEntry) : Prop where
  isName : Grammar.IsName entry.name
  within : ∀ value, entry.value? = some value → -2147483648 < value ∧ value ≤ 2147483647

/-- A node is the element, by its name, its mark and its number. -/
def IsNode
    (entry : ListEntry)
    (kind? : NodeId → Option StoryKind)
    (id : NodeId) : Prop :=
  ∃ name,
    kind? id = some (.listElement name entry.selected entry.value?) ∧
      kind? name = some (.identifier entry.name)

theorem IsNode.mono
    {entry : ListEntry}
    {kind? wider : NodeId → Option StoryKind}
    {id : NodeId}
    (known : ∀ id kind, kind? id = some kind → wider id = some kind)
    (isNode : entry.IsNode kind? id) :
    entry.IsNode wider id := by
  obtain ⟨name, isElement, isName⟩ := isNode
  exact ⟨name, known _ _ isElement, known _ _ isName⟩

theorem toList_behindName_bare
    (name : String)
    (selected : Bool) :
    (behindName ⟨name, selected, none⟩).toList = if selected then [')'] else [] := by
  cases selected <;> simp [behindName]

theorem toList_behindName_valued
    (name : String)
    (selected : Bool)
    (value : Int) :
    (behindName ⟨name, selected, some value⟩).toList =
      ' ' :: '=' :: ' ' ::
        ((toString value).toList ++ if selected then [')'] else []) := by
  cases selected <;> simp [behindName]

theorem toList_written
    (entry : ListEntry) :
    entry.written.toList =
      (if entry.selected then ['('] else []) ++
        (entry.name.toList ++ entry.behindName.toList) := by
  cases selected : entry.selected <;> simp [written, selected]

end ListEntry

/-- A node declares a list as a global variable, with its elements in order. -/
def DeclaresList
    (name : String)
    (entries : List ListEntry)
    (kind? : NodeId → Option StoryKind)
    (id : NodeId) : Prop :=
  ∃ named definition elements,
    kind? id = some (.assignment named (some definition) true false) ∧
      kind? named = some (.identifier name) ∧
      kind? definition = some (.listDefinition elements) ∧
      List.Forall₂ (·.IsNode kind? ·) entries elements

/-- The line that declares a list. -/
def listLine
    (name : String)
    (entries : List ListEntry) : String :=
  "LIST " ++ name ++ " = " ++ String.intercalate ", " (entries.map ListEntry.written)

/-- A comma, a line feed or nothing stands behind an element. -/
abbrev EndsEntry (text : List Char) : Prop :=
  StartsWithout (fun character => character != ',' && character != '\n') text

theorem EndsEntry.without
    {accept : Char → Bool}
    {text : List Char}
    (ends : EndsEntry text)
    (comma : accept ',' = false)
    (feed : accept '\n' = false) :
    StartsWithout accept text := by
  apply ends.narrow
  intro character accepted
  rw [Bool.and_eq_true, bne_iff_ne, bne_iff_ne]
  constructor
  · rintro rfl
    rw [comma] at accepted
    cases accepted
  · rintro rfl
    rw [feed] at accepted
    cases accepted

namespace Grammar

variable
    {depth : Nat}
    {kinds : List StoryKind}
    {text rest : List Char}
    {entry : ListEntry}
    {value : Int}

section Numbers

/-- An integer is written in decimal digits, behind a sign if it is negative. -/
theorem exists_toDigits
    (value : Int) :
    ∃ number : Nat,
      (toString value).toList = Nat.toDigits 10 number ∧ value = number ∨
        (toString value).toList = '-' :: Nat.toDigits 10 number ∧ value = -number := by
  cases value with
  | ofNat number =>
      exact ⟨number, .inl ⟨Term.toList_written_nat number, rfl⟩⟩
  | negSucc number =>
      exact ⟨number + 1, .inr ⟨Term.toList_written_negSucc number, rfl⟩⟩

/-- The number read from a written integer is the integer. -/
theorem exists_signedDigits
    (value : Int)
    (ends : StartsWithout isDigit rest) :
    ∃ negative digits length,
      Scanner.signedDigits ((toString value).toList ++ rest) =
          some ((negative, digits), length) ∧
        ((toString value).toList ++ rest).drop length = rest ∧
        (if negative then -(Rule.digitsValue digits : Int) else Rule.digitsValue digits) =
          value := by
  obtain ⟨number, ⟨letters, rfl⟩ | ⟨letters, rfl⟩⟩ := exists_toDigits value
  · rw [letters]
    refine
      ⟨false, _, _, signedDigits_digits Nat.toDigits_ne_nil (all_isDigit_toDigits number) ends,
        List.drop_left, ?_⟩
    rw [digitsValue_toDigits]
    rfl
  · rw [letters]
    refine
      ⟨true, _, _,
        signedDigits_minus_digits Nat.toDigits_ne_nil (all_isDigit_toDigits number) ends,
        List.drop_left, ?_⟩
    rw [digitsValue_toDigits]
    rfl

theorem comesTo_intLiteral
    (small : -2147483648 < value)
    (large : value ≤ 2147483647)
    (ends : StartsWithout isDigit rest) :
    ComesTo intLiteral depth ⟨(toString value).toList ++ rest, kinds⟩
      (some ⟨kinds.length⟩) ⟨rest, kinds ++ [.number (.int value)]⟩ := by
  obtain ⟨negative, digits, length, found, left, isValue⟩ :=
    exists_signedDigits value ends
  have within : (Rule.digitsValue digits : Int) ≤ Rule.integerBounds.2 := by
    change _ ≤ (2147483647 : Int)
    split at isValue <;> omega
  have integer :
      ComesTo Rule.integer depth ⟨(toString value).toList ++ rest, kinds⟩ (some value)
        ⟨rest, kinds⟩ := by
    have scanned := comesTo_scan depth kinds found
    rw [left] at scanned
    apply scanned.bind
    simp only [within, ↓reduceIte]
    rw [← isValue]
    exact comesTo_pure
  exact integer.bind comesTo_make

end Numbers

section Elements

/-- No blank stands before a number. -/
theorem withoutBlanks_toString
    (value : Int)
    (rest : List Char) :
    withoutBlanks ((toString value).toList ++ rest) = (toString value).toList ++ rest := by
  apply StartsWithout.dropWhile
  obtain ⟨number, ⟨letters, -⟩ | ⟨letters, -⟩⟩ := exists_toDigits value
  · rw [letters]
    exact dark_digits rest Nat.toDigits_ne_nil (all_isDigit_toDigits number)
  · rw [letters]
    exact startsWithout_cons.mpr rfl

/-- The number of an element is made into a node, but only its value is used. -/
theorem comesTo_elementValue
    (small : -2147483648 < value)
    (large : value ≤ 2147483647)
    (ends : StartsWithout isDigit rest) :
    ComesTo elementValue (depth + 1) ⟨' ' :: ((toString value).toList ++ rest), kinds⟩
      (some (some value)) ⟨rest, kinds ++ [.number (.int value)]⟩ := by
  have blanks :
      withoutBlanks (' ' :: ((toString value).toList ++ rest)) =
        (toString value).toList ++ rest := by
    rw [withoutBlanks_space, withoutBlanks_toString]
  apply (comesTo_skipBlanks blanks).bind
  apply (comesTo_intLiteral small large ends).expect.attempt.bind
  apply (comesTo_kindOf (kindAmong_last kinds _)).bind
  exact comesTo_pure

/-- What follows the name of an element. -/
def elementBehind
    (selected : Bool)
    (name : NodeId) :
    GrammarRule NodeId := do
  skipBlanks
  let closedEarly ← closesEarly selected
  let isOpen := selected && !closedEarly
  if ← optionalLiteral "=" then
    let value ← elementValue
    closesLate isOpen
    make (.listElement name selected value)
  else
    if isOpen then Rule.error "Expected closing ')'"
    make (.listElement name selected none)

/-- Where no number follows a name, a parenthesis closes at once. -/
theorem comesTo_elementBehind_bare
    (selected : Bool)
    (name : NodeId)
    (ends : EndsEntry rest) :
    ComesTo (elementBehind selected name) depth
      ⟨(if selected then [')'] else []) ++ rest, kinds⟩ (some ⟨kinds.length⟩)
      ⟨rest, kinds ++ [.listElement name selected none]⟩ := by
  have dark : withoutBlanks rest = rest :=
    (ends.without rfl rfl).dropWhile
  have noEquals :
      ComesTo (optionalLiteral "=") depth ⟨rest, kinds⟩ (some false) ⟨rest, kinds⟩ :=
    comesTo_optionalLiteral_none (ends.not_prefix rfl rfl)
  cases selected with
  | false =>
      apply (comesTo_skipBlanks dark).bind
      apply comesTo_pure.bind
      apply noEquals.bind
      exact comesTo_make
  | true =>
      apply (comesTo_skipBlanks rfl).bind
      have closes :
          ComesTo (closesEarly true) depth ⟨')' :: rest, kinds⟩ (some true) ⟨rest, kinds⟩ := by
        apply (comesTo_optionalLiteral rfl).bind
        apply (comesTo_skipBlanks dark).bind
        exact comesTo_pure
      apply closes.bind
      apply noEquals.bind
      exact comesTo_make

/-- A parenthesis that is still open behind a number closes there. -/
theorem comesTo_closesLate
    (isOpen : Bool) :
    ComesTo (closesLate isOpen) depth
      ⟨(if isOpen then [')'] else []) ++ rest, kinds⟩ (some ()) ⟨rest, kinds⟩ := by
  cases isOpen with
  | false =>
      exact comesTo_pure
  | true =>
      have closes :
          ComesTo (optionalLiteral ")") depth ⟨')' :: rest, kinds⟩ (some true)
            ⟨rest, kinds⟩ :=
        comesTo_optionalLiteral rfl
      apply (comesTo_skipBlanks rfl).bind
      apply closes.bind
      exact comesTo_pure

/-- Where a number follows a name, a parenthesis closes behind it. -/
theorem comesTo_elementBehind_valued
    (selected : Bool)
    (name : NodeId)
    (small : -2147483648 < value)
    (large : value ≤ 2147483647)
    (ends : EndsEntry rest) :
    ComesTo (elementBehind selected name) (depth + 1)
      ⟨' ' :: '=' :: ' ' ::
          ((toString value).toList ++ ((if selected then [')'] else []) ++ rest)), kinds⟩
      (some ⟨kinds.length + 1⟩)
      ⟨rest, kinds ++ [.number (.int value), .listElement name selected (some value)]⟩ := by
  have noDigit :
      StartsWithout isDigit ((if selected then [')'] else []) ++ rest) := by
    cases selected with
    | false =>
        exact ends.without (by decide) (by decide)
    | true =>
        exact startsWithout_cons.mpr (by decide)
  have staysOpen
      {after : List Char} :
      ComesTo (closesEarly selected) (depth + 1) ⟨'=' :: after, kinds⟩ (some false)
        ⟨'=' :: after, kinds⟩ := by
    cases selected with
    | false =>
        exact comesTo_pure
    | true =>
        apply (comesTo_optionalLiteral_none (by simp)).bind
        exact comesTo_pure
  have made :
      ComesTo (make (.listElement name selected (some value))) (depth + 1)
        ⟨rest, kinds ++ [.number (.int value)]⟩ (some ⟨kinds.length + 1⟩)
        ⟨rest, kinds ++ [.number (.int value), .listElement name selected (some value)]⟩ := by
    have comes :=
      @comesTo_make (depth + 1) (kinds ++ [.number (.int value)]) rest
        (.listElement name selected (some value))
    rwa [List.append_assoc, List.length_append] at comes
  apply (comesTo_skipBlanks rfl).bind
  apply staysOpen.bind
  apply (comesTo_optionalLiteral rfl).bind
  apply (comesTo_elementValue small large noDigit).bind
  rw [Bool.not_false, Bool.and_true]
  apply (comesTo_closesLate selected).bind
  exact made

/-- What is written behind the name of an element is read so. -/
theorem exists_comesTo_elementBehind
    (writable : entry.IsWritable)
    (ends : EndsEntry rest)
    (name : NodeId)
    (kinds : List StoryKind) :
    ∃ more,
      ComesTo (elementBehind entry.selected name) (depth + 1)
        ⟨entry.behindName.toList ++ rest, kinds⟩ (some ⟨(kinds ++ more).length⟩)
        ⟨rest, kinds ++ more ++ [.listElement name entry.selected entry.value?]⟩ := by
  obtain ⟨word, selected, value?⟩ := entry
  cases value? with
  | none =>
      refine ⟨[], ?_⟩
      rw [ListEntry.toList_behindName_bare, List.append_nil]
      exact comesTo_elementBehind_bare selected name ends
  | some value =>
      obtain ⟨small, large⟩ := writable.within value rfl
      refine ⟨[.number (.int value)], ?_⟩
      rw [ListEntry.toList_behindName_valued, List.append_assoc, List.length_append]
      simp only [List.cons_append, List.append_assoc]
      exact comesTo_elementBehind_valued selected name small large ends

/-- No identifier character stands behind the name of an element. -/
theorem startsWithout_behindName
    (entry : ListEntry)
    (ends : EndsEntry rest) :
    StartsWithout isIdentifierChar (entry.behindName.toList ++ rest) := by
  obtain ⟨word, selected, value?⟩ := entry
  cases value? with
  | some value =>
      rw [ListEntry.toList_behindName_valued]
      exact startsWithout_cons.mpr (by decide)
  | none =>
      rw [ListEntry.toList_behindName_bare]
      cases selected with
      | false =>
          exact ends.without (by decide) (by decide)
      | true =>
          exact startsWithout_cons.mpr (by decide)

/-- An element is read as it was written. -/
theorem exists_comesTo_listElement
    (depth : Nat)
    (writable : entry.IsWritable)
    (ends : EndsEntry rest)
    (kinds : List StoryKind) :
    ∃ id more,
      ComesTo listElement (depth + 3) ⟨entry.written.toList ++ rest, kinds⟩ (some id)
          ⟨rest, kinds ++ more⟩ ∧
        entry.IsNode (kindAmong (kinds ++ more)) id := by
  have isName := writable.isName
  have marks :
      ComesTo (optionalLiteral "(") (depth + 3) ⟨entry.written.toList ++ rest, kinds⟩
        (some entry.selected)
        ⟨entry.name.toList ++ (entry.behindName.toList ++ rest), kinds⟩ := by
    rw [entry.toList_written, List.append_assoc, List.append_assoc]
    cases entry.selected with
    | false =>
        exact comesTo_optionalLiteral_none (not_prefix_of_head? rfl isName.noOpening)
    | true =>
        exact comesTo_optionalLiteral rfl
  have named :=
    (comesTo_identifier depth kinds isName (startsWithout_behindName entry ends)).parse
  obtain ⟨more, behind⟩ :=
    exists_comesTo_elementBehind writable ends ⟨kinds.length⟩
      (kinds ++ [.identifier entry.name])
  have element :
      ComesTo listElement (depth + 3) ⟨entry.written.toList ++ rest, kinds⟩
        (some ⟨(kinds ++ [NodeKind.identifier entry.name] ++ more).length⟩)
        ⟨rest,
          kinds ++ [NodeKind.identifier entry.name] ++ more ++
            [.listElement ⟨kinds.length⟩ entry.selected entry.value?]⟩ := by
    apply marks.bind
    apply (comesTo_skipBlanks isName.withoutBlanks).bind
    apply named.bind
    exact behind
  have isNode :
      entry.IsNode
        (kindAmong
          (kinds ++ [NodeKind.identifier entry.name] ++ more ++
            [.listElement ⟨kinds.length⟩ entry.selected entry.value?]))
        ⟨(kinds ++ [NodeKind.identifier entry.name] ++ more).length⟩ := by
    refine ⟨⟨kinds.length⟩, kindAmong_last _ _, ?_⟩
    rw [List.append_assoc]
    exact kindAmong_append _ _ _ (kindAmong_last _ _)
  simp only [List.append_assoc] at element isNode
  exact ⟨_, _, element, isNode⟩

theorem startsDark_written
    (writable : entry.IsWritable)
    (rest : List Char) :
    StartsDark (entry.written.toList ++ rest) := by
  rw [entry.toList_written, List.append_assoc]
  cases entry.selected with
  | true =>
      exact startsWithout_cons.mpr rfl
  | false =>
      rw [List.append_assoc]
      apply writable.isName.startsWithout
      intro character identifier
      apply Bool.eq_false_iff.mpr
      intro space
      have isSpace :
          (character = ' ' ∨ character = '\t') ∨ character = '\n' ∨ character = '\r' := by
        simpa [isSpaceOrBreak, isInlineBlank, or_assoc] using space
      rcases isSpace with (rfl | rfl) | rfl | rfl <;> exact absurd identifier (by decide)

theorem comesTo_elementSeparator
    (dark : StartsDark rest) :
    ComesTo elementSeparator (depth + 3) ⟨',' :: ' ' :: rest, kinds⟩ (some ())
      ⟨rest, kinds⟩ := by
  apply (comesTo_skipBlankSpace (startsWithout_cons.mpr rfl)).bind
  apply (comesTo_literal rfl).bind
  exact comesTo_skipBlankSpace_space dark

/-- Behind the last element there is no comma, though blank space is looked through. -/
theorem fails_elementSeparator
    (ends : text = [] ∨ text = ['\n']) :
    Fails elementSeparator (depth + 3) ⟨text, kinds⟩ := by
  have noComma {kinds : List StoryKind} :
      Fails (Rule.literal "," >>= fun _ => skipBlankSpace) (depth + 3) ⟨[], kinds⟩ :=
    (fails_literal (by decide)).bind
  rcases ends with rfl | rfl
  · exact (comesTo_skipBlankSpace startsWithout_nil).bind_fails noComma
  · exact comesTo_skipBlankSpace_feed.bind_fails noComma

theorem endsEntry_furtherWords
    (ends : text = [] ∨ text = ['\n'])
    (words : List String) :
    EndsEntry (furtherWords [',', ' '] text words) := by
  cases words with
  | cons word others =>
      exact startsWithout_cons.mpr rfl
  | nil =>
      rcases ends with rfl | rfl
      · exact startsWithout_nil
      · exact startsWithout_cons.mpr rfl

/-- Further elements are read in order, each behind a comma. -/
theorem exists_listed_entries
    (depth : Nat)
    {entries : List ListEntry}
    (writable : ∀ entry ∈ entries, entry.IsWritable)
    (ends : text = [] ∨ text = ['\n'])
    (kinds : List StoryKind) :
    ∃ ids more,
      Listed listElement elementSeparator (depth + 3)
          ⟨furtherWords [',', ' '] text (entries.map ListEntry.written), kinds⟩ ids
          ⟨text, kinds ++ more⟩ ∧
        List.Forall₂ (·.IsNode (kindAmong (kinds ++ more)) ·) entries ids := by
  apply
    exists_listed listElement [',', ' '] ListEntry.written
      (fun kind? entry => entry.IsNode kind?) entries (List.cons_ne_nil _ _)
      (fun _ => fails_elementSeparator ends)
      (fun _ more _ _ => ListEntry.IsNode.mono (kindAmong_append more))
  intro entry member others kinds
  have isWritable := writable entry member
  obtain ⟨id, more, element, isNode⟩ :=
    exists_comesTo_listElement depth isWritable
      (endsEntry_furtherWords ends (others.map ListEntry.written)) kinds
  have dark :=
    startsDark_written isWritable
      (furtherWords [',', ' '] text (others.map ListEntry.written))
  exact ⟨(), _, id, more, comesTo_elementSeparator dark, element, isNode⟩

/-- Something to be read stands at the start of the elements. -/
theorem startsDark_entries
    {entries : List ListEntry}
    (nonempty : entries ≠ [])
    (writable : ∀ entry ∈ entries, entry.IsWritable)
    (text : List Char) :
    StartsDark (separatedWords [',', ' '] text (entries.map ListEntry.written)) := by
  obtain ⟨first, others, rfl⟩ := List.exists_cons_of_ne_nil nonempty
  exact startsDark_written (writable first List.mem_cons_self) _

/-- The elements of a list, from the first to the last. -/
theorem exists_comesTo_listDefinition
    (depth : Nat)
    {entries : List ListEntry}
    (nonempty : entries ≠ [])
    (writable : ∀ entry ∈ entries, entry.IsWritable)
    (ends : text = [] ∨ text = ['\n'])
    (kinds : List StoryKind) :
    ∃ id more elements,
      ComesTo listDefinition (depth + 5)
          ⟨separatedWords [',', ' '] text (entries.map ListEntry.written), kinds⟩
          (some id) ⟨text, kinds ++ more⟩ ∧
        kindAmong (kinds ++ more) id = some (.listDefinition elements) ∧
        List.Forall₂ (·.IsNode (kindAmong (kinds ++ more)) ·) entries elements := by
  obtain ⟨first, others, rfl⟩ := List.exists_cons_of_ne_nil nonempty
  have isWritable := writable first List.mem_cons_self
  obtain ⟨id, firstMore, element, isFirst⟩ :=
    exists_comesTo_listElement depth isWritable
      (endsEntry_furtherWords ends (others.map ListEntry.written)) kinds
  obtain ⟨ids, more, listed, areOthers⟩ :=
    exists_listed_entries depth
      (fun entry member => writable entry (List.mem_cons_of_mem first member)) ends
      (kinds ++ firstMore)
  have dark := startsDark_entries nonempty writable text
  have isFirst := isFirst.mono (kindAmong_append more)
  have areAll :
      List.Forall₂ (·.IsNode (kindAmong (kinds ++ firstMore ++ more)) ·)
        (first :: others) (id :: ids) :=
    .cons isFirst areOthers
  have defined :
      ComesTo listDefinition (depth + 5)
        ⟨first.written.toList ++
            furtherWords [',', ' '] text (others.map ListEntry.written), kinds⟩
        (some ⟨(kinds ++ firstMore ++ more).length⟩)
        ⟨text, kinds ++ firstMore ++ more ++ [.listDefinition (id :: ids)]⟩ := by
    apply (comesTo_skipBlankSpace dark).bind
    apply (comesTo_separated elementSeparator element listed).bind
    exact comesTo_make
  refine
    ⟨⟨(kinds ++ firstMore ++ more).length⟩,
      firstMore ++ more ++ [.listDefinition (id :: ids)], id :: ids, ?_, ?_, ?_⟩
  · rw [← List.append_assoc, ← List.append_assoc]
    exact defined
  · rw [← List.append_assoc, ← List.append_assoc]
    exact kindAmong_last _ _
  · rw [← List.append_assoc, ← List.append_assoc]
    exact areAll.imp fun _ _ => ListEntry.IsNode.mono (kindAmong_append _)

end Elements

section Lines

variable
    {name : String}
    {entries : List ListEntry}

theorem toList_listLine
    (name : String)
    (entries : List ListEntry)
    (text : List Char) :
    (listLine name entries).toList ++ text =
      "LIST".toList ++
        (' ' :: (name.toList ++
          (' ' :: '=' :: ' ' ::
            separatedWords [',', ' '] text (entries.map ListEntry.written)))) := by
  have separated := toList_intercalate text ", " (entries.map ListEntry.written)
  have comma : ", ".toList = [',', ' '] :=
    rfl
  rw [comma] at separated
  simp [listLine, ← separated]

/-- The word, the name and the elements are read one after the other. -/
theorem exists_comesTo_listDeclaration
    (depth : Nat)
    (isName : IsName name)
    (nonempty : entries ≠ [])
    (writable : ∀ entry ∈ entries, entry.IsWritable)
    (ends : text = [] ∨ text = ['\n'])
    (kinds : List StoryKind) :
    ∃ id more,
      ComesTo listDeclaration (depth + 6)
          ⟨(listLine name entries).toList ++ text, kinds⟩ (some id)
          ⟨text, kinds ++ more⟩ ∧
        DeclaresList name entries (kindAmong (kinds ++ more)) id := by
  have word :
      ComesTo (declarationWord "LIST") (depth + 6)
        ⟨(listLine name entries).toList ++ text, kinds⟩ (some ())
        ⟨name.toList ++
          (' ' :: '=' :: ' ' ::
            separatedWords [',', ' '] text (entries.map ListEntry.written)), kinds⟩ := by
    rw [toList_listLine]
    exact comesTo_declarationWord (by decide) isName.withoutBlanks
  have named :
      ComesTo (Rule.expect identifier "list name") (depth + 6)
        ⟨name.toList ++
          (' ' :: '=' :: ' ' ::
            separatedWords [',', ' '] text (entries.map ListEntry.written)), kinds⟩
        (some ⟨kinds.length⟩)
        ⟨' ' :: '=' :: ' ' ::
            separatedWords [',', ' '] text (entries.map ListEntry.written),
          kinds ++ [.identifier name]⟩ :=
    (comesTo_identifier _ kinds isName (startsWithout_cons.mpr (by decide))).expect
  obtain ⟨definition, more, elements, defines, isDefinition, areElements⟩ :=
    exists_comesTo_listDefinition depth nonempty writable ends
      (kinds ++ [NodeKind.identifier name])
  have equals :
      ComesTo
        (Rule.attempt
          (Rule.expect (Rule.literal "=") "the '=' for an assignment of the list definition"))
        (depth + 6)
        ⟨'=' :: ' ' :: separatedWords [',', ' '] text (entries.map ListEntry.written),
          kinds ++ [NodeKind.identifier name]⟩
        (some (some ()))
        ⟨' ' :: separatedWords [',', ' '] text (entries.map ListEntry.written),
          kinds ++ [NodeKind.identifier name]⟩ :=
    (comesTo_literal rfl).expect.attempt
  have blanks :
      withoutBlanks
          (' ' :: separatedWords [',', ' '] text (entries.map ListEntry.written)) =
        separatedWords [',', ' '] text (entries.map ListEntry.written) := by
    rw [withoutBlanks_space]
    exact (startsDark_entries nonempty writable text).withoutBlanks
  refine
    ⟨⟨(kinds ++ [NodeKind.identifier name] ++ more).length⟩,
      [NodeKind.identifier name] ++ more ++
        [.assignment ⟨kinds.length⟩ (some definition) true false], ?_,
      ⟨kinds.length⟩, definition, elements, ?_, ?_, ?_, ?_⟩
  all_goals rw [← List.append_assoc, ← List.append_assoc]
  · apply word.bind
    apply named.bind
    apply (comesTo_skipBlanks rfl).bind
    apply equals.bind
    apply (comesTo_skipBlanks blanks).bind
    apply defines.expect.bind
    exact comesTo_make
  · exact kindAmong_last _ _
  · rw [List.append_assoc]
    exact kindAmong_append _ _ _ (kindAmong_last _ _)
  · exact kindAmong_append _ _ _ isDefinition
  · exact areElements.imp fun _ _ => ListEntry.IsNode.mono (kindAmong_append _)

/-- Such a line is a statement of its own, and nothing is left of the text behind it. -/
theorem exists_brings_statement_list
    (depth : Nat)
    (told : Session → Prop)
    (isName : IsName name)
    (nonempty : entries ≠ [])
    (writable : ∀ entry ∈ entries, entry.IsWritable)
    (ends : text = [] ∨ text = ['\n']) :
    ∃ id kinds,
      Brings (statement .top) (depth + 9)
          (Sheet.Untagged ⟨(listLine name entries).toList ++ text, []⟩ told) (some [id])
          (Sheet.On ⟨[], kinds⟩ told) ∧
        DeclaresList name entries (kindAmong kinds) id := by
  obtain ⟨id, kinds, declares, isList⟩ :=
    exists_comesTo_listDeclaration depth isName nonempty writable ends []
  rw [List.nil_append] at declares isList
  have lineEnds :
      ComesTo (Rule.attempt (Rule.expectOr endOfLine "end of line" skipLine)) (depth + 7)
        ⟨text, kinds⟩ (some (some ())) ⟨[], kinds⟩ := by
    rcases ends with rfl | rfl
    · exact comesTo_endOfLine_nil.expectOr.attempt
    · exact comesTo_endOfLine.expectOr.attempt
  have line :
      ComesTo (single (wholeLine listDeclaration)) (depth + 7)
        ⟨(listLine name entries).toList ++ text, []⟩ (some [id]) ⟨[], kinds⟩ := by
    have whole :
        ComesTo (wholeLine listDeclaration) (depth + 7)
          ⟨(listLine name entries).toList ++ text, []⟩ (some id) ⟨[], kinds⟩ := by
      apply declares.parse.bind
      apply lineEnds.bind
      exact comesTo_pure
    exact whole.bind comesTo_pure
  have unmarked : StartsUnmarked ((listLine name entries).toList ++ text) := by
    rw [toList_listLine]
    exact startsWithout_cons.mpr rfl
  have noReminder :
      ((listLine name entries).toList ++ text).takeWhile isIdentifierChar ≠
        "TODO".toList := by
    rw [toList_listLine,
      takeWhile_run _ (by decide) (startsWithout_cons.mpr (by decide))]
    decide
  refine
    ⟨id, kinds,
      brings_statement markedStatements rfl
        (fails_marked unmarked noReminder)
        (fun _ untagged => untagged.page_eq) line.brings_flagged ?_,
      isList⟩
  intro other member
  obtain ⟨_, _, _, isAssignment, -⟩ := isList
  rw [List.mem_singleton.mp member]
  exact ⟨_, isAssignment, nofun⟩

end Lines

end Grammar

section Characters

variable
    {name : String}
    {entries : List ListEntry}
    {text : List Char}

/-- Whether a character begins neither a comment nor a line break of two characters. -/
def isHarmless (character : Char) : Bool :=
  character != '/' && character != '\r'

theorem isHarmless_of_isIdentifierChar
    {character : Char}
    (identifier : isIdentifierChar character = true) :
    isHarmless character = true := by
  rw [isHarmless, Bool.and_eq_true, bne_iff_ne, bne_iff_ne]
  constructor
  · rintro rfl
    exact absurd identifier (by decide)
  · rintro rfl
    exact absurd identifier (by decide)

theorem all_isHarmless_name
    (isName : Grammar.IsName name) :
    name.toList.all isHarmless = true := by
  apply List.all_eq_true.mpr
  intro character member
  exact isHarmless_of_isIdentifierChar (List.all_eq_true.mp isName.1 character member)

theorem all_isHarmless_int
    (value : Int) :
    (toString value).toList.all isHarmless = true := by
  have digits (number : Nat) : (Nat.toDigits 10 number).all isHarmless = true := by
    apply List.all_eq_true.mpr
    intro character member
    have digit :=
      List.all_eq_true.mp (Grammar.all_isDigit_toDigits number) character member
    exact isHarmless_of_isIdentifierChar (isIdentifierChar_of_isDigit digit)
  obtain ⟨number, ⟨letters, -⟩ | ⟨letters, -⟩⟩ := Grammar.exists_toDigits value
  · rw [letters, digits]
  · rw [letters, List.all_cons, digits]
    rfl

theorem ListEntry.all_isHarmless_written
    {entry : ListEntry}
    (writable : entry.IsWritable) :
    entry.written.toList.all isHarmless = true := by
  have named := all_isHarmless_name writable.isName
  obtain ⟨word, selected, value?⟩ := entry
  rw [toList_written, List.all_append, List.all_append, named]
  cases value? with
  | none =>
      rw [toList_behindName_bare]
      cases selected <;> rfl
  | some value =>
      rw [toList_behindName_valued, List.all_cons, List.all_cons, List.all_cons,
        List.all_append, all_isHarmless_int]
      cases selected <;> rfl

/-- What holds of words and of what stands around them holds of all of them together. -/
theorem all_furtherWords
    {accept : Char → Bool}
    {separator rest : List Char}
    {words : List String}
    (between : separator.all accept = true)
    (behind : rest.all accept = true)
    (inside : ∀ word ∈ words, word.toList.all accept = true) :
    (furtherWords separator rest words).all accept = true := by
  induction words with
  | nil =>
      exact behind
  | cons word others inductionHypothesis =>
      have further :=
        inductionHypothesis fun other member => inside other (List.mem_cons_of_mem word member)
      rw [furtherWords, List.all_append, List.all_append, between,
        inside word List.mem_cons_self, further]
      rfl

/-- No comment stands in the line of a list. -/
theorem strip_listLine
    (isName : Grammar.IsName name)
    (writable : ∀ entry ∈ entries, entry.IsWritable)
    (ends : text = [] ∨ text = ['\n']) :
    Comment.strip (listLine name entries ++ String.ofList text) =
      .ok (listLine name entries ++ String.ofList text) := by
  have behind : text.all isHarmless = true := by
    rcases ends with rfl | rfl <;> rfl
  have inside : ∀ word ∈ entries.map ListEntry.written, word.toList.all isHarmless = true := by
    intro word member
    obtain ⟨entry, isEntry, rfl⟩ := List.mem_map.mp member
    exact ListEntry.all_isHarmless_written (writable entry isEntry)
  have items :
      (separatedWords [',', ' '] text (entries.map ListEntry.written)).all isHarmless =
        true := by
    cases words : entries.map ListEntry.written with
    | nil =>
        exact behind
    | cons first others =>
        rw [words] at inside
        rw [separatedWords, List.all_append, inside first List.mem_cons_self,
          all_furtherWords rfl behind fun word member =>
            inside word (List.mem_cons_of_mem first member)]
        rfl
  have whole : (listLine name entries ++ String.ofList text).toList.all isHarmless = true := by
    rw [String.toList_append, String.toList_ofList, Grammar.toList_listLine,
      List.all_append, List.all_cons, List.all_append, all_isHarmless_name isName,
      List.all_cons, List.all_cons, List.all_cons, items]
    rfl
  apply Comment.strip_of_isChain
  apply Comment.isChain_of_forall
  intro character member
  simpa [isHarmless] using List.all_eq_true.mp whole character member

end Characters

section Copies

variable
    {name : String}
    {entry : ListEntry}
    {entries : List ListEntry}
    {kinds : List StoryKind}
    {id : NodeId}
    {ids : List NodeId}
    {story : Story}
    {place : NodeId → NodeId}
    {reached : NodeId → Prop}

theorem ListEntry.IsNode.copied
    (isNode : entry.IsNode (Grammar.kindAmong kinds) id)
    (copies : story.Copies kinds place reached)
    (atNode : reached id) :
    entry.IsNode story.kind? (place id) := by
  obtain ⟨named, isElement, isName⟩ := isNode
  have atName : reached named :=
    copies.below atNode isElement _ List.mem_cons_self
  exact
    ⟨place named, copies.kind? atNode isElement rfl, copies.kind? atName isName rfl⟩

theorem ListEntry.copied_all
    (areNodes : List.Forall₂ (·.IsNode (Grammar.kindAmong kinds) ·) entries ids)
    (copies : story.Copies kinds place reached)
    (atNodes : ∀ id ∈ ids, reached id) :
    List.Forall₂ (·.IsNode story.kind? ·) entries (ids.map place) := by
  induction areNodes with
  | nil =>
      exact .nil
  | cons isNode _ inductionHypothesis =>
      exact
        .cons (isNode.copied copies (atNodes _ List.mem_cons_self))
          (inductionHypothesis fun id member =>
            atNodes id (List.mem_cons_of_mem _ member))

/-- What was made of a list in a draft stands in the story that copies it. -/
theorem DeclaresList.copied
    (declares : DeclaresList name entries (Grammar.kindAmong kinds) id)
    (copies : story.Copies kinds place reached)
    (atNode : reached id) :
    DeclaresList name entries story.kind? (place id) := by
  obtain ⟨named, definition, elements, isAssignment, isName, isDefinition, areElements⟩ :=
    declares
  have atChildren := copies.below atNode isAssignment
  have atName : reached named :=
    atChildren _ (by simp [NodeKind.children])
  have atDefinition : reached definition :=
    atChildren _ (by simp [NodeKind.children])
  have atElements : ∀ element ∈ elements, reached element :=
    copies.below atDefinition isDefinition
  exact
    ⟨place named, place definition, elements.map place,
      copies.kind? atNode isAssignment rfl, copies.kind? atName isName rfl,
      copies.kind? atDefinition isDefinition rfl,
      ListEntry.copied_all areElements copies atElements⟩

end Copies

/-- The line of a list is read as the declaration of this list, and nothing is said about
it, with or without a line feed behind it. -/
theorem readScript_listLine
    (library : Library)
    (options : Options)
    (file : Option String)
    (name : String)
    (entries : List ListEntry)
    (ending : String)
    (isName : Grammar.IsName name)
    (nonempty : entries ≠ [])
    (writable : ∀ entry ∈ entries, entry.IsWritable)
    (ends : ending = "" ∨ ending = "\n")
    (room : 13 ≤ options.maxStackDepth) :
    ∃ reading weave declaration,
      readScript library options (listLine name entries ++ ending) file = .ok reading ∧
        reading.diagnostics = [] ∧
        reading.story.content = [weave] ∧
        reading.story.kind? weave = some (.weave [declaration] 0) ∧
        DeclaresList name entries reading.story.kind? declaration := by
  have atEnd : ending.toList = [] ∨ ending.toList = ['\n'] := by
    rcases ends with rfl | rfl
    · exact .inl rfl
    · exact .inr rfl
  have stripped := strip_listLine isName writable atEnd
  rw [String.ofList_toList] at stripped
  obtain ⟨id, kinds, reads, declares⟩ :=
    Grammar.exists_brings_statement_list 0 (·.delivered = []) isName nonempty writable atEnd
  rw [← String.toList_append] at reads
  have dark : StartsDark (listLine name entries ++ ending).toList := by
    rw [String.toList_append, Grammar.toList_listLine]
    exact startsWithout_cons.mpr rfl
  have plain : ∀ other ∈ [id], ∃ kind, kinds[other.index]? = some kind ∧ Draft.IsPlain kind := by
    intro other member
    obtain ⟨_, _, _, isAssignment, -⟩ := declares
    rw [List.mem_singleton.mp member]
    exact ⟨_, isAssignment, rfl, rfl⟩
  obtain ⟨reading, session, place, reached, weave, isRead, delivered, silent, content,
      isWeave, atNodes, copies⟩ :=
    Reading.exists_reading_of_statement stripped dark reads (List.cons_ne_nil _ _) plain
      (fun _ => rfl) (Nat.lt_of_succ_le room)
  exact
    ⟨reading, weave, place id, isRead, delivered.trans silent, content, isWeave,
      declares.copied copies (atNodes id List.mem_cons_self)⟩

/-- All forms of an element, with a negative number among them. -/
theorem readScript_listLine_moods :
    listLine "moods"
          [⟨"calm", false, none⟩, ⟨"sad", false, some (-5)⟩, ⟨"glad", true, none⟩,
            ⟨"2nd", true, some 7⟩] =
        "LIST moods = calm, sad = -5, (glad), (2nd = 7)" ∧
      ∃ reading weave declaration,
        readScript (.ofFiles []) {}
              ("LIST moods = calm, sad = -5, (glad), (2nd = 7)" ++ "\n") none =
            .ok reading ∧
          reading.diagnostics = [] ∧
          reading.story.content = [weave] ∧
          reading.story.kind? weave = some (.weave [declaration] 0) ∧
          DeclaresList "moods"
            [⟨"calm", false, none⟩, ⟨"sad", false, some (-5)⟩, ⟨"glad", true, none⟩,
              ⟨"2nd", true, some 7⟩]
            reading.story.kind? declaration := by
  have line :
      listLine "moods"
          [⟨"calm", false, none⟩, ⟨"sad", false, some (-5)⟩, ⟨"glad", true, none⟩,
            ⟨"2nd", true, some 7⟩] =
        "LIST moods = calm, sad = -5, (glad), (2nd = 7)" := by
    decide +kernel
  refine ⟨line, ?_⟩
  rw [← line]
  refine
    readScript_listLine _ _ _ _ _ _ (by decide) (List.cons_ne_nil _ _) ?_ (.inr rfl)
      (by decide)
  simp only [List.forall_mem_cons, List.not_mem_nil, false_implies, implies_true, and_true]
  refine ⟨⟨by decide, nofun⟩, ⟨by decide, ?_⟩, ⟨by decide, nofun⟩, ⟨by decide, ?_⟩⟩
  · rintro value ⟨⟩
    exact ⟨by decide, by decide⟩
  · rintro value ⟨⟩
    exact ⟨by decide, by decide⟩

end InkSyntax
