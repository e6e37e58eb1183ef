import InkSyntax.Grammar.Conditional

namespace InkSyntax.Grammar

/-!
# Choices and gathers

A line that begins with bullets is a choice, one that begins with dashes gathers
choices; the number of bullets or dashes is its depth in the weave.  Brackets in
a choice hold what is shown before it is taken but not after.
-/

open Rule (attempt parse literal)

/-- Bullets of one kind, with blanks before and between them; their number. -/
def bullets (bullet : String) : GrammarRule Nat := do
  let found ← Rule.alternate (Rule.optionallyDropped blanks) (Rule.single (literal bullet))
  return found.length

/-- The depth of a choice, and whether it can be taken only once. -/
def choiceMark : GrammarRule (Nat × Bool) := do
  match ← attempt (bullets "*") with
  | some depth => return (depth, true)
  | none => return (← bullets "+", false)

/-- A condition in braces. -/
def guardCondition : GrammarRule NodeId := do
  literal "\x7b"
  let found ← Rule.expect expression "choice condition inside \x7b \x7d"
  refuseStep found
  let _ ← attempt (Rule.expect (literal "\x7d") "closing '\x7d' for choice condition")
  return found

/-- What may stand between two conditions: blanks with at most one line break. -/
def guardSpace : GrammarRule Unit := do
  let _ ← attempt lineEnd
  skipBlanks

/-- The conditions of a choice; several must hold together. -/
def choiceGuard : GrammarRule NodeId := do
  match ← Rule.alternate (Rule.single guardCondition) (Rule.dropped guardSpace) with
  | [only] => return only
  | several => make (.allOf several)

/-- What a choice begins with, in front of its text. -/
structure ChoiceHead where
  depth : Nat
  onceOnly : Bool
  name : Option NodeId
  condition : Option NodeId

/-- The mark, the label and the conditions of a choice. -/
def choiceHead : GrammarRule ChoiceHead := do
  let (depth, onceOnly) ← choiceMark
  let name ← attempt (parse label)
  skipBlanks
  let condition ← attempt (parse choiceGuard)
  skipBlanks
  return { depth, onceOnly, name, condition }

/-- End the tag that is open in some content, if there is content. -/
def closeTagIn : Option (List NodeId) → GrammarRule (Option (List NodeId))
  | some content => do return some (content ++ (← closeTag))
  | none => do
      Rule.setFlag Flag.tagOpen false
      return none

/-- The parts of a choice around its brackets. -/
structure ChoiceText where
  start : Option (List NodeId)
  hasBrackets : Bool
  choiceOnly : Option (List NodeId)
  inner : Option (List NodeId)

namespace ChoiceText

/-- Whether there is no part at all. -/
def isEmpty (parts : ChoiceText) : Bool :=
  parts.start.isNone && parts.choiceOnly.isNone && parts.inner.isNone

/-- Whether brackets are all there is in front. -/
def isBlank (parts : ChoiceText) : Bool :=
  parts.start.isNone && parts.hasBrackets && parts.choiceOnly.isNone

end ChoiceText

/-- The text of a choice up to its diverts. -/
def choiceText : GrammarRule ChoiceText := do
  let start ← attempt (parse prose)
  if ← optionalLiteral "[" then
    let start ← closeTagIn start
    let choiceOnly ← attempt (parse prose)
    let _ ← attempt (Rule.expect (literal "]") "closing ']' for weave-style option")
    let choiceOnly ← closeTagIn choiceOnly
    let inner ← attempt (parse prose)
    return ⟨start, true, choiceOnly, inner⟩
  else return ⟨start, false, none, none⟩

/-- End the tag that is open in the last part of a choice. -/
def closeLastTag (parts : ChoiceText) : GrammarRule ChoiceText := do
  match parts.inner with
  | some _ => return { parts with inner := ← closeTagIn parts.inner }
  | none => return { parts with start := ← closeTagIn parts.start }

/-- A choice behind its head: its text and the diverts that end it. -/
def choiceParts : GrammarRule (ChoiceText × Option (List NodeId)) := do
  let parts ← choiceText
  skipBlanks
  let parts ← closeLastTag parts
  return (parts, ← attempt (parse diverts))

/-- Whether a node is the divert without a target that marks a fallback. -/
def isEmptyDivert (id : NodeId) : GrammarRule Bool := do
  match ← kindOf id with
  | .divert link => return link.isEmpty
  | _ => return false

/-- The diverts that lead somewhere. -/
def leadingDiverts : List NodeId → GrammarRule (List NodeId)
  | [] => return []
  | id :: others => do
      let rest ← leadingDiverts others
      return if ← isEmptyDivert id then rest else id :: rest

/-- A content list of something, if there is something. -/
def contentListOf : Option (List NodeId) → GrammarRule (Option NodeId)
  | none => return none
  | some content => do return some (← make (.contentList content))

/-- Warn about a choice that shows nothing. -/
def warnIfBlank (parts : ChoiceText) (hasDiverts : Bool) : GrammarRule Unit := do
  if parts.isEmpty && !hasDiverts then
    Rule.warning ("Choice is completely empty. Interpreting as a default fallback choice. " ++
      "Add a divert arrow to remove this warning: * ->")
  else if parts.isBlank then
    Rule.warning ("Blank choice - if you intended a default fallback choice, " ++
      "use the `* ->` syntax")

/-- The choice that its head, its text and its diverts make up. -/
def choiceOf (head : ChoiceHead) (parts : ChoiceText) (ending : Option (List NodeId)) :
    GrammarRule NodeId := do
  skipBlanks
  warnIfBlank parts ending.isSome
  let inner := parts.inner.getD [] ++ (← closeTag) ++ (← leadingDiverts (ending.getD []))
  let lineFeed ← makeText "\n"
  let startContent ← contentListOf parts.start
  let choiceOnlyContent ← contentListOf parts.choiceOnly
  let innerContent ← contentListOf (some (inner ++ [lineFeed]))
  make <| .choice
    { startContent, choiceOnlyContent, innerContent
      name := head.name
      condition := head.condition
      depth := head.depth
      onceOnly := head.onceOnly
      hasBrackets := parts.hasBrackets
      isInvisibleDefault := parts.isEmpty }

/-- A choice. -/
def choice : GrammarRule NodeId := do
  let head ← choiceHead
  Rule.effect (.setInChoice true)
  let (parts, ending) ← choiceParts
  Rule.effect (.setInChoice false)
  choiceOf head parts ending

/-- A gather; content on its line is a statement of its own. -/
def gather : GrammarRule NodeId := do
  let depth ← parse dashes
  let name ← attempt (parse label)
  let _ ← attempt lineEnd
  make (.gather name depth [])

end InkSyntax.Grammar
