namespace InkSyntax

/-!
# The parts of a YAML text

A YAML text falls into tokens: scalars, marks, and the starts and ends of
collections.  Collections in block form have no marks of their own; their starts
and ends follow from how lines are indented.
-/

/-- The form in which a scalar is written. -/
inductive YamlStyle where
  /-- Without marks around it. -/
  | plain
  /-- Between quotation marks. -/
  | quoted
  /-- As a block whose line breaks are kept. -/
  | literal
  /-- As a block whose line breaks are folded. -/
  | folded
  deriving DecidableEq, Repr

/-- A part of a YAML text. -/
inductive YamlToken where
  /-- A directive that tells the version of the language. -/
  | version (major minor : Nat)
  /-- A directive that tells what a handle stands for at the front of tags. -/
  | handle (name meaning : String)
  | documentStart
  | documentEnd
  | blockListStart
  | blockMappingStart
  | blockEnd
  | flowListStart
  | flowListEnd
  | flowMappingStart
  | flowMappingEnd
  | blockEntry
  | flowEntry
  | key
  | value
  | anchor (name : String)
  | alias (name : String)
  /-- A tag: a handle, empty for a tag written out in full, and what follows it. -/
  | tag (handle suffix : String)
  | scalar (text : String) (style : YamlStyle)
  deriving DecidableEq, Repr

namespace YamlToken

/-- Whether a token stands in front of a document, before its start. -/
def isDirective : YamlToken → Bool
  | .version _ _ => true
  | .handle _ _ => true
  | _ => false

end YamlToken

end InkSyntax
