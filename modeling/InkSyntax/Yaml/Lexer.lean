import InkSyntax.Yaml.Tag

namespace InkSyntax

/-!
# From text to tokens in YAML

Collections in block form start where a line is indented more than the one around
it and end where one is indented less.  A key is known as a key only when the colon
after it is found, so its token is put in afterwards: what may turn out to be a key
is a candidate until then.
-/

/-- A token that may turn out to be a key. -/
structure KeyCandidate where
  /-- How many tokens come before it. -/
  position : Nat
  line : Nat
  column : Nat
  offset : Nat
  /-- Nothing else than a key can stand there. -/
  required : Bool

/-- Tokens found so far, and the place to go on. -/
structure YamlLexer where
  cursor : Cursor
  tokens : Array YamlToken := #[]
  /-- The column of the innermost block collection. -/
  indent : Int := -1
  /-- The columns of the block collections around it. -/
  outerIndents : List Int := []
  /-- The candidate of the place itself. -/
  candidate : Option KeyCandidate := none
  /-- The candidates around each open flow collection. -/
  outerCandidates : List (Option KeyCandidate) := []
  /-- Whether a key or a block collection may begin here. -/
  keyAllowed : Bool := true

namespace YamlLexer

open YamlText

def inFlow (lexer : YamlLexer) : Bool := !lexer.outerCandidates.isEmpty

/-- Go over some characters. -/
def skip (lexer : YamlLexer) (count : Nat) : YamlLexer :=
  { lexer with cursor := lexer.cursor.advance count }

/-- Go on at another place. -/
def moveTo (lexer : YamlLexer) (cursor : Cursor) : YamlLexer := { lexer with cursor := cursor }

def emit (lexer : YamlLexer) (token : YamlToken) : YamlLexer :=
  { lexer with tokens := lexer.tokens.push token }

/-- Put a token behind some others. -/
def insertAt (lexer : YamlLexer) (position : Nat) (token : YamlToken) : YamlLexer :=
  { lexer with tokens := lexer.tokens.insertIdxIfInBounds position token }

/-- Close the block collections that are indented more than a column. -/
def closeBlocks (column : Int) (lexer : YamlLexer) : YamlLexer :=
  if lexer.inFlow then lexer else go lexer.indent lexer.outerIndents lexer
where
  go (indent : Int) : List Int → YamlLexer → YamlLexer
    | [], lexer => { lexer with indent := indent, outerIndents := [] }
    | outer :: others, lexer =>
        if column < indent then go outer others (lexer.emit .blockEnd)
        else { lexer with indent := indent, outerIndents := outer :: others }

/-- Open a block collection at a column, unless one is open there. -/
def openBlock (column position : Nat) (token : YamlToken) (lexer : YamlLexer) : YamlLexer :=
  if lexer.inFlow || decide ((column : Int) ≤ lexer.indent) then lexer
  else
    { lexer.insertAt position token with
      indent := column, outerIndents := lexer.indent :: lexer.outerIndents }

/-! Candidates -/

/-- Give up on a candidate; a required key cannot be given up. -/
def dropCandidate (lexer : YamlLexer) : Option YamlLexer :=
  match lexer.candidate with
  | some found => if found.required then none else some { lexer with candidate := none }
  | none => some lexer

/-- Whether a candidate is too far back: a key stands in one line and is short. -/
def isStale (cursor : Cursor) (candidate : KeyCandidate) : Bool :=
  decide (candidate.line < cursor.line) || decide (candidate.offset + 1024 < cursor.offset)

/-- Keep a candidate unless it is too far back. -/
def keepFresh (cursor : Cursor) : Option KeyCandidate → Option (Option KeyCandidate)
  | none => some none
  | some found =>
      if isStale cursor found then if found.required then none else some none
      else some (some found)

/-- Give up on candidates that are too far back. -/
def dropStale (lexer : YamlLexer) : Option YamlLexer := do
  let candidate ← keepFresh lexer.cursor lexer.candidate
  let outer ← lexer.outerCandidates.mapM (keepFresh lexer.cursor)
  return { lexer with candidate := candidate, outerCandidates := outer }

/-- Take the next token as a candidate, if a key may stand here. -/
def saveCandidate (lexer : YamlLexer) : Option YamlLexer :=
  if lexer.keyAllowed then do
    let required := !lexer.inFlow && lexer.indent == (lexer.cursor.column : Int)
    let cleared ← lexer.dropCandidate
    return { cleared with
      candidate := some
        ⟨lexer.tokens.size, lexer.cursor.line, lexer.cursor.column, lexer.cursor.offset,
          required⟩ }
  else some lexer

/-- Set whether a key may stand next. -/
def allowKey (allowed : Bool) (lexer : YamlLexer) : YamlLexer :=
  { lexer with keyAllowed := allowed }

/-- Go over blanks, comments and line breaks.

A tab is no indentation: where a block collection may begin it is left. -/
def skipGap (lexer : YamlLexer) : YamlLexer := go lexer.cursor.rest lexer
where
  go : List Char → YamlLexer → YamlLexer
    | ' ' :: rest, lexer => go rest (lexer.skip 1)
    | '\t' :: rest, lexer =>
        if lexer.inFlow || !lexer.keyAllowed then go rest (lexer.skip 1) else lexer
    | '\n' :: rest, lexer =>
        go rest ((lexer.skip 1).allowKey (!lexer.inFlow || lexer.keyAllowed))
    | '#' :: rest, lexer => inComment rest (lexer.skip 1)
    | _, lexer => lexer
  inComment : List Char → YamlLexer → YamlLexer
    | '\n' :: rest, lexer =>
        go rest ((lexer.skip 1).allowKey (!lexer.inFlow || lexer.keyAllowed))
    | _ :: rest, lexer => inComment rest (lexer.skip 1)
    | [], lexer => lexer

/-! Marks -/

/-- A mark in block form, which needs a place where a block collection may begin. -/
def blockMark (lexer : YamlLexer) (collection mark : YamlToken) (allowsKey : Bool) :
    Option YamlLexer := do
  if !lexer.inFlow && !lexer.keyAllowed then none
  else
    let opened := lexer.openBlock lexer.cursor.column lexer.tokens.size collection
    let cleared ← opened.dropCandidate
    return ((cleared.allowKey allowsKey).skip 1).emit mark

/-- The mark between a key and a value. -/
def valueMark (lexer : YamlLexer) : Option YamlLexer :=
  match lexer.candidate with
  | some found =>
      let marked := lexer.insertAt found.position .key
      let opened := marked.openBlock found.column found.position .blockMappingStart
      some ((({ opened with candidate := none }).allowKey false).skip 1 |>.emit .value)
  | none => do
      if !lexer.inFlow && !lexer.keyAllowed then none
      else
        let opened := lexer.openBlock lexer.cursor.column lexer.tokens.size .blockMappingStart
        return ((opened.allowKey (!lexer.inFlow)).skip 1).emit .value

/-- The start of a flow collection. -/
def openFlow (lexer : YamlLexer) (token : YamlToken) : Option YamlLexer := do
  let saved ← lexer.saveCandidate
  return ({ saved with
    candidate := none
    outerCandidates := saved.candidate :: saved.outerCandidates
    keyAllowed := true }.skip 1).emit token

/-- The end of a flow collection. -/
def closeFlow (lexer : YamlLexer) (token : YamlToken) : Option YamlLexer := do
  let cleared ← lexer.dropCandidate
  let (candidate, outer) := match cleared.outerCandidates with
    | inner :: others => (inner, others)
    | [] => (none, [])
  return ({ cleared with
    candidate := candidate, outerCandidates := outer, keyAllowed := false }.skip 1).emit token

/-- The mark between two entries of a flow collection. -/
def flowMark (lexer : YamlLexer) : Option YamlLexer := do
  return (((← lexer.dropCandidate).allowKey true).skip 1).emit .flowEntry

/-- A place between documents, where no block collection is open. -/
def betweenDocuments (lexer : YamlLexer) : Option YamlLexer := do
  return (← (lexer.closeBlocks (-1)).dropCandidate).allowKey false

/-- A mark that stands between documents. -/
def documentMark (lexer : YamlLexer) (token : YamlToken) : Option YamlLexer := do
  return ((← lexer.betweenDocuments).skip 3).emit token

/-- A token read in one piece. -/
def piece (lexer : YamlLexer) (found : Option (YamlToken × Cursor)) : Option YamlLexer := do
  let (token, after) ← found
  return (lexer.moveTo after).emit token

/-- Prepare for a scalar or a mark on one, which may be a key. -/
def beginNode (lexer : YamlLexer) : Option YamlLexer := do
  return (← lexer.saveCandidate).allowKey false

/-! Scalars -/

/-- A quoted scalar. -/
def quotedScalar (quote : Char) (lexer : YamlLexer) : Option YamlLexer := do
  let (text, after) ← YamlScalar.quoted quote lexer.cursor
  return (lexer.moveTo after).emit (.scalar text .quoted)

/-- A plain scalar; after a line break a key may follow. -/
def plainScalar (lexer : YamlLexer) : Option YamlLexer := do
  let (text, brokeLine, after) ← YamlScalar.plain lexer.inFlow lexer.indent lexer.cursor
  return { lexer.moveTo after with keyAllowed := lexer.keyAllowed || brokeLine }.emit
    (.scalar text .plain)

/-- A scalar that is a block of lines. -/
def blockScalar (style : YamlStyle) (lexer : YamlLexer) : Option YamlLexer := do
  let cleared := (← lexer.dropCandidate).allowKey true
  let (text, after) ←
    YamlScalar.block (style == .literal) cleared.indent (cleared.cursor.advance 1)
  return (cleared.moveTo after).emit (.scalar text style)

/-- Whether a plain scalar can begin with these characters. -/
def beginsPlain (inFlow : Bool) : List Char → Bool
  | [] => false
  | '-' :: after => !after.head?.any isInlineSpace
  | '?' :: after => !inFlow && !atGap after
  | ':' :: after => !inFlow && !atGap after
  | character :: _ =>
      !(isInlineSpace character || isBreak character ||
        ",[]\x7b\x7d#&*!|>'\"%@`".toList.contains character)

/-! All of it -/

/-- Read the token that begins with a character that may begin several. -/
def readOther (lexer : YamlLexer) (character : Char) (after : List Char) : Option YamlLexer :=
  if character == '-' && atGap after then lexer.blockMark .blockListStart .blockEntry true
  else if character == '?' && (lexer.inFlow || atGap after) then
    lexer.blockMark .blockMappingStart .key (!lexer.inFlow)
  else if character == ':' && (lexer.inFlow || atGap after) then lexer.valueMark
  else if character == '|' && !lexer.inFlow then lexer.blockScalar .literal
  else if character == '>' && !lexer.inFlow then lexer.blockScalar .folded
  else if beginsPlain lexer.inFlow lexer.cursor.rest then do plainScalar (← lexer.beginNode)
  else none

/-- Read the token at the cursor, which stands neither in a gap nor at the end. -/
def readToken (lexer : YamlLexer) : Option YamlLexer :=
  match lexer.cursor.rest with
  | [] => none
  | character :: after =>
      if lexer.cursor.column == 0 && character == '%' then do
        (← lexer.betweenDocuments).piece (YamlTag.directive lexer.cursor)
      else if atDocumentMark lexer.cursor then
        lexer.documentMark (if character == '-' then .documentStart else .documentEnd)
      else
        match character with
        | '[' => lexer.openFlow .flowListStart
        | '\x7b' => lexer.openFlow .flowMappingStart
        | ']' => lexer.closeFlow .flowListEnd
        | '\x7d' => lexer.closeFlow .flowMappingEnd
        | ',' => lexer.flowMark
        | '*' => do
            let (name, after) ← YamlTag.anchorName lexer.cursor
            (← lexer.beginNode).piece (some (.alias name, after))
        | '&' => do
            let (name, after) ← YamlTag.anchorName lexer.cursor
            (← lexer.beginNode).piece (some (.anchor name, after))
        | '!' => do (← lexer.beginNode).piece (YamlTag.tag lexer.inFlow lexer.cursor)
        | '\'' => do quotedScalar '\'' (← lexer.beginNode)
        | '"' => do quotedScalar '"' (← lexer.beginNode)
        | _ => lexer.readOther character after

/-- Read tokens to the end of the text, in at most some steps. -/
def readTokens (lexer : YamlLexer) : Nat → Option (List YamlToken)
  | 0 => none
  | steps + 1 => do
      let there ← lexer.skipGap.dropStale
      if there.cursor.atEnd then return (← there.betweenDocuments).tokens.toList
      else
        let here := there.closeBlocks there.cursor.column
        readTokens (← here.readToken) steps

end YamlLexer

/-- The tokens of a text, if it falls into tokens at all. -/
def YamlToken.ofText? (text : String) : Option (List YamlToken) := do
  let start ← YamlText.start? text
  ({ cursor := start } : YamlLexer).readTokens (start.rest.length + 1)

end InkSyntax
