import InkSyntax.Grammar.Divert
import InkSyntax.Text.Blank

namespace InkSyntax.Grammar

/-!
# Prose

Text runs up to a character with a meaning of its own.  A backslash takes that
meaning away from the next character.  Between texts stand logic in braces, glue
and tags, and diverts may end the whole.
-/

open Rule (attempt parse literal)

/-- Characters at which text may end if an arrow or glue begins there. -/
def pausesText (character : Char) : Bool := "-<".toList.contains character

/-- Characters that end text everywhere. -/
def endsText (character : Char) : Bool := "\x7b\x7d|\n\r\\#".toList.contains character

/-- Where text ends besides, by what it stands in: at brackets in a choice, at a quote in a string. -/
def endsTextWithin (inString inChoice : Bool) (character : Char) : Bool :=
  endsText character ||
    if inString then character == '"'
    else inChoice && (character == '[' || character == ']')

/-- What ends text at a pause: an arrow, the end of the line, or glue. -/
def textStop : GrammarRule Unit :=
  Rule.oneOf [literal "->", literal "<-", endOfLine, literal "<>"]

/-- Text without backslashes. -/
def plainText : GrammarRule String := do
  let inString ← Rule.hasFlag Flag.inString
  let inChoice ← Rule.effect .isInChoice
  Rule.textUntil textStop pausesText (endsTextWithin inString inChoice)

/-- Text in which a backslash shields the next character. -/
def text : GrammarRule NodeId := do
  let found ← Rule.loop none fun (found : Option String) => do
    let chunk ← attempt (parse plainText)
    let shields ← optionalLiteral "\\"
    if chunk.isNone && !shields then return .inr found
    let shielded ← if shields then attempt Rule.anyChar else pure none
    return .inl (some (found.getD "" ++ chunk.getD "" ++ String.ofList shielded.toList))
  match found with
  | some written => makeText written
  | none => Rule.fail

/-- Two angle brackets, which join lines. -/
def glue : GrammarRule NodeId := do
  literal "<>"
  make .glue

/-- The start of a tag, after the end of the one that is open. -/
def tagStart : GrammarRule NodeId := do
  if ← Rule.hasFlag Flag.tagOpen then
    let finish ← make (.tag false)
    let start ← make (.tag true)
    make (.contentList [finish, start])
  else make (.tag true)

/-- A hash sign, which opens a tag and closes the one before it. -/
def openTag : GrammarRule NodeId := do
  skipBlanks
  literal "#"
  if ← Rule.hasFlag Flag.inString then
    Rule.error
      "Tags aren't allowed inside of strings. Please use \\# if you want a hash symbol."
  let node ← tagStart
  Rule.setFlag Flag.tagOpen true
  skipBlanks
  return node

/-- Whether a node is a text of which a test holds. -/
def isTextThat (test : String → Bool) (id : NodeId) : GrammarRule Bool := do
  match ← kindOf id with
  | .text written => return test written
  | _ => return false

/-- Drop blanks from the last text of reversed content, and what becomes empty. -/
def trimLast : List NodeId → GrammarRule (List NodeId)
  | [] => return []
  | last :: before => do
      match ← kindOf last with
      | .text written =>
          let trimmed := dropEndWhile written isInlineBlank
          amend last (.text trimmed)
          if trimmed.isEmpty then trimLast before else return last :: before
      | _ => return last :: before

/-- Drop blanks at the end of content. -/
def trimContentEnd (content : List NodeId) : GrammarRule (List NodeId) := do
  return (← trimLast content.reverse).reverse

/-- Put one blank in the place of those at the end of content. -/
def oneBlankAtEnd (content : List NodeId) : GrammarRule Unit := do
  match content.getLast? with
  | none => return
  | some last =>
      match ← kindOf last with
      | .text written => amend last (.text (dropEndWhile written isInlineBlank ++ " "))
      | _ => return

/-- Drop blanks at the start of content. -/
def trimContentStart (content : List NodeId) : GrammarRule (List NodeId) := do
  match content with
  | [] => return []
  | first :: rest =>
      match ← kindOf first with
      | .text written =>
          let trimmed := String.ofList (written.toList.dropWhile isInlineBlank)
          amend first (.text trimmed)
          if trimmed.isEmpty then return rest else return content
      | _ => return content

/-- Diverts at the end of prose, unless a choice takes care of them. -/
def proseEnding : GrammarRule (Option (List NodeId)) := do
  if ← Rule.effect .isInChoice then return none else attempt (parse diverts)

/-- Text and other items in turn, then diverts unless a choice takes care of them. -/
def proseOf (braces : GrammarRule NodeId) : GrammarRule (List NodeId) := do
  let items ← attempt <| Rule.alternate (Rule.optionally text)
    (Rule.optionally (Rule.oneOf [braces, glue, openTag]))
  match ← proseEnding, items with
  | none, none => Rule.fail
  | none, some items => return items
  | some ending, items =>
      let content := items.getD [] ++ (← closeTag)
      oneBlankAtEnd content
      return content ++ ending

/-- Warn about a line that begins like the end of a function. -/
def warnOfReturn (first : NodeId) : GrammarRule Unit := do
  if ← isTextThat ("return".toList.isPrefixOf ·.toList) first then
    Rule.warning ("Do you need a '~' before 'return'? If not, perhaps use a glue: <> " ++
      "(since it's lowercase) or rewrite somehow?")

/-- Whether the last node of a line is a divert. -/
def endsInDivert (content : List NodeId) : GrammarRule Bool := do
  match content.getLast? with
  | some last => isDivert last
  | none => return false

/-- Whether the first node of a line begins a tag. -/
def beginsWithTag (content : List NodeId) : GrammarRule Bool := do
  match content.head? with
  | some first =>
      match ← kindOf first with
      | .tag isStart => return isStart
      | _ => return false
  | none => return false

/-- A line with its line feed, unless it begins with a tag. -/
def withLineFeed (content : List NodeId) : GrammarRule (List NodeId) := do
  if ← beginsWithTag content then return content
  else return content ++ [← makeText "\n"]

/-- A line of prose; it ends with a line feed unless it begins with a tag. -/
def proseLine : GrammarRule (List NodeId) := do
  let _ ← attempt (parse blanks)
  match ← parse prose with
  | [] => Rule.fail
  | first :: rest =>
      let content := first :: rest
      warnOfReturn first
      let trimmed ← if ← endsInDivert content then pure content else trimContentEnd content
      let content ← withLineFeed (trimmed ++ (← closeTag))
      let _ ← attempt (Rule.expectOr endOfLine "end of line" skipLine)
      return content

end InkSyntax.Grammar
