import InkSyntax.Text.Digit
import InkSyntax.Yaml.Character

namespace InkSyntax

/-!
# Scalars of YAML texts

A scalar is written plainly, between quotation marks, or as a block of lines.  In
the first two forms line breaks are folded: one becomes a blank, and of several
the first vanishes.
-/

namespace YamlScalar

open YamlText

/-- What stands for a stretch of blanks and line breaks inside a scalar.

Blanks beside line breaks vanish.  After a line break that was `taken` away, all
others stay. -/
def folded (taken : Bool) (gap : List Char) : List Char :=
  let breaks := (gap.filter isBreak).length
  if taken then List.replicate breaks '\n'
  else
    match breaks with
    | 0 => gap
    | 1 => [' ']
    | more => List.replicate (more - 1) '\n'

/-! Plain scalars -/

/-- Whether a plain scalar goes on with what is at the head; none where it cannot.

Inside a flow collection a colon may not stand before another mark. -/
def plainGoesOn (inFlow : Bool) : List Char → Option Bool
  | [] => some false
  | ':' :: after =>
      if atGap after then some false
      else if inFlow && after.head?.any (",?[]\x7b\x7d".toList.contains ·) then none
      else some true
  | character :: _ =>
      if isInlineSpace character || isBreak character then some false
      else some !(inFlow && ",[]\x7b\x7d".toList.contains character)

/-- Whether a plain scalar ends before a word.

It does at the marks between documents, at a comment, and where a line is indented
no more than the collection around the scalar. -/
def endsPlain (inFlow : Bool) (indent : Int) (cursor : Cursor) (gap : List Char) : Bool :=
  atDocumentMark cursor || !gap.isEmpty && cursor.rest.head? == some '#' ||
    !inFlow && gap.any isBreak && decide ((cursor.column : Int) ≤ indent)

/-- Read the words of a plain scalar from a place where one may begin.

The text is held in reverse; `gap` is what stands before the cursor since the last
word.  A tab may not stand for indentation. -/
def plainFrom (inFlow : Bool) (indent : Int) (cursor : Cursor) (text gap : List Char) :
    Nat → Option (List Char × Bool × Cursor)
  | 0 => none
  | steps + 1 =>
      let found := (text, gap.any isBreak, cursor)
      match cursor.rest with
      | [] => some found
      | character :: rest =>
          let next := cursor.past character rest
          if isInlineSpace character || isBreak character then
            if character == '\t' && gap.any isBreak && decide ((cursor.column : Int) ≤ indent) then
              none
            else plainFrom inFlow indent next text (gap ++ [character]) steps
          else if endsPlain inFlow indent cursor gap then some found
          else
            match plainGoesOn inFlow cursor.rest with
            | none => none
            | some false => some found
            | some true =>
                plainFrom inFlow indent next (character :: ((folded false gap).reverse ++ text)) []
                  steps

/-- Read a plain scalar: its text, whether a line break follows it, and where it ends. -/
def plain (inFlow : Bool) (indent : Int) (cursor : Cursor) :
    Option (String × Bool × Cursor) := do
  let (text, brokeLine, after) ←
    plainFrom inFlow indent cursor [] [] (cursor.rest.length + 1)
  return (String.ofList text.reverse, brokeLine, after)

/-! Quoted scalars -/

/-- The characters that an escape after a backslash stands for, with its length. -/
def escaped : List Char → Option (Char × Nat)
  | [] => none
  | mark :: after =>
      let coded (count : Nat) : Option (Char × Nat) := do
        let digits := after.take count
        let code ← digitsValue? 16 digits
        if h : digits.length = count ∧ code.isValidChar then
          return (Char.ofNatAux code h.2, count + 1)
        else none
      match mark with
      | '0' => some ('\x00', 1)
      | 'a' => some ('\x07', 1)
      | 'b' => some ('\x08', 1)
      | 't' => some ('\t', 1)
      | '\t' => some ('\t', 1)
      | 'n' => some ('\n', 1)
      | 'v' => some ('\x0b', 1)
      | 'f' => some ('\x0c', 1)
      | 'r' => some ('\r', 1)
      | 'e' => some ('\x1b', 1)
      | ' ' => some (' ', 1)
      | '"' => some ('"', 1)
      | '/' => some ('/', 1)
      | '\\' => some ('\\', 1)
      | 'N' => some ('\u0085', 1)
      | '_' => some ('\u00a0', 1)
      | 'L' => some ('\u2028', 1)
      | 'P' => some ('\u2029', 1)
      | 'x' => coded 2
      | 'u' => coded 4
      | 'U' => coded 8
      | _ => none

/-- Read a quoted scalar up to its closing quote; the text is held in reverse.

`gap` is what stands before the cursor since the last word, and `taken` tells
whether a backslash took away the line break before it. -/
def quotedFrom (quote : Char) (cursor : Cursor) (text : List Char) (taken : Bool)
    (gap : List Char) : Nat → Option (List Char × Cursor)
  | 0 => none
  | steps + 1 =>
      if atDocumentMark cursor then none
      else
        match cursor.rest with
        | [] => none
        | character :: rest =>
            let next := cursor.past character rest
            let joined := (folded taken gap).reverse ++ text
            if character == quote then
              if quote == '\'' && rest.head? == some '\'' then
                quotedFrom quote (next.advance 1) ('\'' :: joined) false [] steps
              else some (joined, next)
            else if isBreak character || isInlineSpace character then
              quotedFrom quote next text taken (gap ++ [character]) steps
            else if quote == '"' && character == '\\' then
              if rest.head?.any isBreak then
                quotedFrom quote (next.advance 1) joined true [] steps
              else
                match escaped rest with
                | some (meant, length) =>
                    quotedFrom quote (next.advance length) (meant :: joined) false [] steps
                | none => none
            else quotedFrom quote next (character :: joined) false [] steps

/-- Read a quoted scalar from its opening quote on. -/
def quoted (quote : Char) (cursor : Cursor) : Option (String × Cursor) := do
  let start := cursor.advance 1
  let (text, after) ← quotedFrom quote start [] false [] (start.rest.length + 1)
  return (String.ofList text.reverse, after)

/-! Blocks of lines -/

/-- What becomes of the line breaks at the end of a block. -/
inductive Chomping where
  /-- All of them go. -/
  | strip
  /-- One stays. -/
  | clip
  /-- All of them stay. -/
  | keep
  deriving DecidableEq, Repr

/-- The marks between the sign of a block and the end of its line. -/
structure BlockHeader where
  chomping : Chomping := .clip
  /-- How much further the block is indented than what it stands in, if that is told. -/
  deeper : Option Nat := none

/-- What a sign says about the end of a block. -/
def chomping? : Char → Option Chomping
  | '+' => some .keep
  | '-' => some .strip
  | _ => none

/-- What a digit says about the indentation of a block; zero says nothing that makes sense. -/
def deeper? (digit : Char) : Option Nat :=
  if '1' ≤ digit && digit ≤ '9' then some (digit.toNat - '0'.toNat) else none

/-- The header of a block, with its length: a sign and a digit in either order, or less. -/
def blockHeader : List Char → BlockHeader × Nat
  | [] => ({}, 0)
  | first :: rest =>
      let second := rest.head?
      match chomping? first, deeper? first with
      | some chomping, _ =>
          match second.bind deeper? with
          | some deeper => (⟨chomping, some deeper⟩, 2)
          | none => (⟨chomping, none⟩, 1)
      | none, some deeper =>
          match second.bind chomping? with
          | some chomping => (⟨chomping, some deeper⟩, 2)
          | none => (⟨.clip, some deeper⟩, 1)
      | none, none => ({}, 0)

/-- Go over line breaks and the indentation after each, to a line with content.

An indentation of zero is not known yet, and all blanks belong to it.  The answer
has the line breaks and the deepest indentation; a tab may not stand in it. -/
def blockGap (indent : Nat) (cursor : Cursor) : Option (Nat × Nat × Cursor) :=
  go cursor.rest cursor 0 0
where
  go : List Char → Cursor → Nat → Nat → Option (Nat × Nat × Cursor)
    | [], cursor, breaks, deepest => some (breaks, max deepest cursor.column, cursor)
    | character :: rest, cursor, breaks, deepest =>
        let reached := max deepest cursor.column
        let inIndent := indent == 0 || decide (cursor.column < indent)
        if inIndent && character == ' ' then
          go rest (cursor.past character rest) breaks deepest
        else if inIndent && character == '\t' then none
        else if isBreak character then
          go rest (cursor.past character rest) (breaks + 1) reached
        else some (breaks, reached, cursor)

/-- What a block holds so far. -/
structure BlockText where
  /-- The text, in reverse. -/
  text : List Char := []
  /-- Whether a line was read, whose line break is still to be put. -/
  breakAhead : Bool := false
  /-- The line breaks after it. -/
  trailing : Nat := 0
  /-- Whether the line began with a blank. -/
  blankBefore : Bool := false

/-- Put the line breaks before a line; between lines without blanks in front they fold. -/
def BlockText.joinLines (isLiteral blankAfter : Bool) (block : BlockText) : List Char :=
  let trailing := List.replicate block.trailing '\n'
  let folds := !isLiteral && block.breakAhead && !block.blankBefore && !blankAfter
  let ahead : List Char :=
    if folds then (if block.trailing = 0 then [' '] else [])
    else if block.breakAhead then ['\n'] else []
  trailing ++ (ahead ++ block.text)

/-- Read the lines of a block that are indented as told. -/
def blockLines (isLiteral : Bool) (indent : Nat) (cursor : Cursor) (block : BlockText) :
    Nat → Option (BlockText × Cursor)
  | 0 => none
  | steps + 1 =>
      if cursor.column == indent && !cursor.atEnd then do
        let blank := cursor.rest.head?.any isInlineSpace
        let line := cursor.rest.takeWhile fun c => !isBreak c
        let lineEnd := cursor.advance line.length
        let (trailing, _, after) ← blockGap indent (lineEnd.advance 1)
        blockLines isLiteral indent after
          { text := line.reverse ++ block.joinLines isLiteral blank
            breakAhead := !lineEnd.atEnd
            trailing := trailing
            blankBefore := blank }
          steps
      else some (block, cursor)

/-- The text of a block; how its line breaks end is told by the header. -/
def BlockText.finish (chomping : Chomping) (block : BlockText) : List Char :=
  let ahead : List Char := if block.breakAhead then ['\n'] else []
  let trailing := List.replicate block.trailing '\n'
  match chomping with
  | .strip => block.text.reverse
  | .clip => block.text.reverse ++ ahead
  | .keep => block.text.reverse ++ ahead ++ trailing

/-- Read a block from after its sign on, inside what is indented by `outer`. -/
def block (isLiteral : Bool) (outer : Int) (cursor : Cursor) : Option (String × Cursor) := do
  let (header, length) := blockHeader cursor.rest
  let start ← finishLine (cursor.advance length)
  let given := match header.deeper with
    | some deeper => outer.toNat + deeper
    | none => 0
  let (breaks, deepest, first) ← blockGap given start
  let indent := if given = 0 then max deepest (max (outer + 1).toNat 1) else given
  let (found, after) ←
    blockLines isLiteral indent first { trailing := breaks } (first.rest.length + 1)
  return (String.ofList (found.finish header.chomping), after)

end YamlScalar

end InkSyntax
