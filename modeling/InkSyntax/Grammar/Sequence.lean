import InkSyntax.Grammar.Prose

namespace InkSyntax.Grammar

/-!
# Sequences

A sequence gives another of its alternatives each time it is seen.  They stand in
one line with bars between them, or one to a line behind dashes.
-/

open Rule (attempt parse literal require)

/-- The types that can be asked for. -/
def supportedSequences : List SequenceType :=
  [{ once := true }, { cycle := true }, { stopping := true }, { shuffle := true },
    { shuffle := true, stopping := true }, { shuffle := true, once := true }]

/-- What one symbol asks for; a blank asks for nothing. -/
def sequenceSymbol (symbol : Char) : SequenceType :=
  match symbol with
  | '!' => { once := true }
  | '&' => { cycle := true }
  | '~' => { shuffle := true }
  | '$' => { stopping := true }
  | _ => {}

/-- A type in symbols. -/
def symbolAnnotation : GrammarRule SequenceType := do
  let symbols ← Rule.chars fun c => "!&~$ ".toList.contains c
  let type := (symbols.toList.map sequenceSymbol).foldl .union {}
  require (type != {})
  return type

/-- What one word asks for. -/
def sequenceWord : GrammarRule SequenceType := do
  match ← name with
  | "once" => return { once := true }
  | "cycle" => return { cycle := true }
  | "shuffle" => return { shuffle := true }
  | "stopping" => return { stopping := true }
  | _ => Rule.fail

/-- A type in words before a colon. -/
def wordAnnotation : GrammarRule SequenceType := do
  let words ← Rule.alternate (Rule.single sequenceWord) (Rule.dropped blanks)
  literal ":"
  return words.foldl .union {}

/-- A type in symbols or words; a shuffle alone stops at the end. -/
def sequenceAnnotation : GrammarRule SequenceType := do
  let type ← match ← attempt (parse symbolAnnotation) with
    | some type => pure type
    | none => parse wordAnnotation
  if !supportedSequences.contains type then
    Rule.error s!"Sequence type combination not supported: {type.words}"
    return { stopping := true }
  else if type == { shuffle := true } then return { shuffle := true, stopping := true }
  else return type

/-- A piece of content with bars in it. -/
inductive BarPiece where
  | content (nodes : List NodeId)
  | bar
  deriving DecidableEq, Repr

/-- The alternatives that pieces make up; one is empty where nothing stands between bars.

The flag tells whether the last piece was content. -/
def alternativesOf (afterContent : Bool) : List BarPiece → List (List NodeId)
  | [] => if afterContent then [] else [[]]
  | .content nodes :: rest => nodes :: alternativesOf true rest
  | .bar :: rest => if afterContent then alternativesOf false rest else [] :: alternativesOf false rest

/-- Content with bars in it, as the list of what the bars part. -/
def barSeparated : GrammarRule (List (List NodeId)) := do
  let pieces ← Rule.alternate
    (Rule.optionally do return BarPiece.content (← prose))
    (Rule.single do
      literal "|"
      return BarPiece.bar)
  return alternativesOf false pieces

/-- Content lists without blanks at their ends. -/
def trimmedLists : List (List NodeId) → GrammarRule (List NodeId)
  | [] => return []
  | content :: others => do
      let content ← trimContentEnd (← trimContentStart content)
      let list ← make (.contentList content)
      return list :: (← trimmedLists others)

/-- Alternatives in one line. -/
def inlineAlternatives : GrammarRule (List NodeId) := do trimmedLists (← barSeparated)

/-- A dash that is not an arrow, and the statements behind it. -/
def dashedAlternative : GrammarRule NodeId := do
  skipBlanks
  if ← optionalLiteral "->" then Rule.fail
  else
    literal "-"
    skipBlanks
    match ← attempt (statements .block) with
    | some content =>
        let lineFeed ← makeText "\n"
        make (.contentList (lineFeed :: content))
    | none =>
        let _ ← attempt blankLines
        make (.contentList [])

/-- Alternatives behind dashes. -/
def dashedAlternatives : GrammarRule (List NodeId) := do
  let _ ← attempt blankLines
  Rule.oneOrMore dashedAlternative

/-- The alternatives of a sequence; a line break before them asks for dashes. -/
def alternatives : GrammarRule (List NodeId) := do
  match ← attempt (parse lineEnd) with
  | some _ => parse dashedAlternatives
  | none => parse inlineAlternatives

/-- A sequence whose type need not be given, with two alternatives or more. -/
def unannotatedSequence : GrammarRule NodeId := do
  skipBlanks
  let type := (← attempt (parse sequenceAnnotation)).getD { stopping := true }
  let found ← parse alternatives
  require (1 < found.length)
  make (.sequence type found)

end InkSyntax.Grammar
