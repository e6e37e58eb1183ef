import InkSyntax.Yaml.Scalar
import InkSyntax.Yaml.Token

namespace InkSyntax

/-!
# Names, tags and directives of YAML texts

A node may have a name, by which an alias refers to it, and a tag, which tells its
type.  A tag is written out between angle brackets, or it begins with a handle,
for which a directive in front of the document may give another meaning.
-/

namespace YamlTag

open YamlText

/-- The name after the mark of an anchor or alias, and where it ends. -/
def anchorName (cursor : Cursor) : Option (String × Cursor) :=
  let start := cursor.advance 1
  let name := start.rest.takeWhile isWordChar
  let after := start.advance name.length
  let ends := atGap after.rest || after.rest.head?.any ("?:,]\x7d%@`".toList.contains ·)
  if name.isEmpty || !ends then none else some (String.ofList name, after)

/-- Whether a character may stand in a tag; in one written out in full, some marks may. -/
def isTagChar (inFull : Bool) (character : Char) : Bool :=
  isWordChar character || ";/?:@&=+$.!~*'()".toList.contains character ||
    inFull && ",[]".toList.contains character

/-- How many octets follow the first one of a character in UTF-8. -/
def octetsAfter? (octet : Nat) : Option Nat :=
  if octet < 0x80 then some 0
  else if octet < 0xc0 then none
  else if octet < 0xe0 then some 1
  else if octet < 0xf0 then some 2
  else if octet < 0xf8 then some 3
  else none

/-- Whether an octet follows the first one of a character in UTF-8. -/
def isLaterOctet (octet : Nat) : Bool := decide (0x80 ≤ octet) && decide (octet < 0xc0)

/-- Read the characters of a tag, `awaited` octets of a character being still to come.

Octets are given by a percent sign and two digits; each is held as the character of
its value.  The answer has what was read, and what follows it. -/
def tagText (inFull : Bool) : Nat → List Char → Option (List Char × List Char)
  | 0, '%' :: high :: low :: rest => do
      let octet ← digitsValue? 16 [high, low]
      let (read, after) ← tagText inFull (← octetsAfter? octet) rest
      return (Char.ofNat octet :: read, after)
  | 0, character :: rest =>
      if character == '%' then none
      else if isTagChar inFull character then do
        let (read, after) ← tagText inFull 0 rest
        return (character :: read, after)
      else some ([], character :: rest)
  | 0, [] => some ([], [])
  | awaited + 1, '%' :: high :: low :: rest => do
      let octet ← digitsValue? 16 [high, low]
      if isLaterOctet octet then
        let (read, after) ← tagText inFull awaited rest
        return (Char.ofNat octet :: read, after)
      else none
  | _ + 1, _ => none

/-- Read the characters of a tag at a cursor. -/
def tagTextAt (inFull : Bool) (cursor : Cursor) : Option (String × Cursor) := do
  let (read, after) ← tagText inFull 0 cursor.rest
  return (String.ofList read, cursor.advance (cursor.rest.length - after.length))

/-- The handle at a cursor: an exclamation mark, and if another follows, all between them. -/
def handleAt (cursor : Cursor) : Option (String × Cursor) :=
  let word := (cursor.rest.drop 1).takeWhile isWordChar
  let closed := (cursor.rest.drop (word.length + 1)).head? == some '!'
  match cursor.rest.head? with
  | some '!' =>
      if closed then
        some ("!" ++ String.ofList word ++ "!", cursor.advance (word.length + 2))
      else some ("!", cursor.advance 1)
  | _ => none

/-- A tag written out in full, from its first mark on. -/
def tagInFull (cursor : Cursor) : Option (YamlToken × Cursor) := do
  let (name, after) ← tagTextAt true (cursor.advance 2)
  if name.isEmpty || after.rest.head? != some '>' then none
  else return (.tag "" name, after.advance 1)

/-- A tag that begins with a handle; a lone exclamation mark has no handle. -/
def tagWithHandle (cursor : Cursor) : Option (YamlToken × Cursor) := do
  let (handle, start) ← handleAt cursor
  let (suffix, after) ← tagTextAt false start
  if suffix.isEmpty then
    if handle == "!" then return (.tag "" "!", after) else none
  else return (.tag handle suffix, after)

/-- The tag at a cursor. -/
def tag (inFlow : Bool) (cursor : Cursor) : Option (YamlToken × Cursor) := do
  let (token, after) ←
    match cursor.rest with
    | '!' :: '<' :: _ => tagInFull cursor
    | _ => tagWithHandle cursor
  if atGap after.rest || inFlow && after.rest.head? == some ',' then return (token, after)
  else none

/-! Directives -/

/-- A number of at most nine digits. -/
def versionNumber (cursor : Cursor) : Option (Nat × Cursor) :=
  let digits := cursor.rest.takeWhile Char.isDigit
  if digits.isEmpty || 9 < digits.length then none
  else (digitsValue? 10 digits).map (·, cursor.advance digits.length)

/-- What follows the name of a directive about the version. -/
def versionDirective (cursor : Cursor) : Option (YamlToken × Cursor) := do
  let (major, point) ← versionNumber (skipWhile isInlineSpace cursor)
  if point.rest.head? != some '.' then none
  else
    let (minor, after) ← versionNumber (point.advance 1)
    return (.version major minor, after)

/-- What follows the name of a directive about a handle. -/
def handleDirective (cursor : Cursor) : Option (YamlToken × Cursor) := do
  let (name, between) ← handleAt (skipWhile isInlineSpace cursor)
  if !between.rest.head?.any isInlineSpace then none
  else
    let (meaning, after) ← tagTextAt true (skipWhile isInlineSpace between)
    if meaning.isEmpty || !atGap after.rest then none else return (.handle name meaning, after)

/-- The directive at a cursor, with its line. -/
def directive (cursor : Cursor) : Option (YamlToken × Cursor) := do
  let start := cursor.advance 1
  let name := start.rest.takeWhile isWordChar
  let named := start.advance name.length
  if !atGap named.rest then none
  else
    let (token, after) ←
      match String.ofList name with
      | "YAML" => versionDirective named
      | "TAG" => handleDirective named
      | _ => none
    return (token, ← finishLine after)

end YamlTag

end InkSyntax
