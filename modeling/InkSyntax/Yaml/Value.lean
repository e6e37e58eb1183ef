import InkSyntax.Yaml.Lexer

namespace InkSyntax

/-!
# Values of YAML texts

The tokens of a text make up one document: a scalar, a list, or a mapping.  What is
left out is an empty plain scalar.  An anchor names the value after it, and an alias
stands for the value of that name.  Since a value may hold an alias of itself,
aliases are kept, and looked up in the document when the need arises.
-/

/-- A value of a YAML text. -/
inductive YamlValue where
  | scalar (tag : Option String) (text : String) (style : YamlStyle)
  | list (elements : List YamlValue)
  | mapping (entries : List (YamlValue × YamlValue))
  /-- What stands for the value with a number. -/
  | alias (number : Nat)
  deriving Repr, Inhabited

/-- A YAML text as a whole. -/
structure YamlDocument where
  /-- The value of the text; none where it has no part at all. -/
  root : Option YamlValue
  /-- The values that have anchors; of several with one number the first counts. -/
  anchored : List (Nat × YamlValue)

namespace YamlDocument

/-- The value that is meant by a value, which may be an alias. -/
def resolve? (document : YamlDocument) : YamlValue → Option YamlValue
  | .alias number => document.anchored.lookup number
  | value => some value

end YamlDocument

namespace YamlValue

/-- What stands where nothing was written. -/
def missing : YamlValue := .scalar none "" .plain

/-- The meanings of handles that no directive tells. -/
def standardHandles : List (String × String) := [("!", "!"), ("!!", "tag:yaml.org,2002:")]

/-- Tokens still to be read, and what was told before them. -/
structure Pending where
  tokens : List YamlToken
  /-- What handles stand for; the first meaning of one counts. -/
  handles : List (String × String) := standardHandles
  /-- The number of each anchor's name. -/
  numbers : List (String × Nat) := []
  /-- The values that have anchors. -/
  anchored : List (Nat × YamlValue) := []

/-- Reads tokens; none where they make up no value. -/
abbrev Reader := StateT Pending Option

namespace Reader

/-- The next token. -/
def peek : Reader (Option YamlToken) := do return (← get).tokens.head?

/-- Go over the next token. -/
def drop : Reader Unit := modify fun pending => { pending with tokens := pending.tokens.drop 1 }

/-- Go over the next token if it is the given one. -/
def accept (token : YamlToken) : Reader Bool := do
  if (← peek) == some token then
    drop
    return true
  else return false

/-- Go over the next token, which must be the given one. -/
def demand (token : YamlToken) : Reader Unit := do
  if !(← accept token) then failure

/-- Whether the next token is one of some. -/
def isNext (tokens : List YamlToken) : Reader Bool := do
  match ← peek with
  | some token => return tokens.contains token
  | none => return false

/-! Anchors and tags -/

/-- Go over an anchor, if there is one. -/
def anchor? : Reader (Option String) := do
  match ← peek with
  | some (.anchor name) =>
      drop
      return some name
  | _ => return none

/-- Go over a tag, if there is one; its handle must have a meaning. -/
def tag? : Reader (Option String) := do
  match ← peek with
  | some (.tag handle suffix) =>
      drop
      if handle.isEmpty then return some suffix
      else
        match (← get).handles.lookup handle with
        | some meaning => return some (meaning ++ suffix)
        | none => failure
  | _ => return none

/-- Go over an anchor and a tag in either order, each of which may be left out. -/
def properties : Reader (Option String × Option String) := do
  match ← anchor? with
  | some name => return (some name, ← tag?)
  | none =>
      let tag ← tag?
      return (← anchor?, tag)

/-- The number for a name whose value begins here: how many names there were before.

A name may be given again, and then its value shares its number with that of the
next name; the value that begins last counts. -/
def beginAnchor (name : String) : Reader Nat := do
  let pending ← get
  let number := pending.numbers.length
  set { pending with
    numbers := (name, number) :: pending.numbers.filter (·.1 != name)
    anchored := pending.anchored.filter (·.1 != number) }
  return number

/-- Keep the value for a number, behind those that began inside it. -/
def endAnchor (number : Nat) (value : YamlValue) : Reader Unit :=
  modify fun pending => { pending with anchored := pending.anchored ++ [(number, value)] }

/-- What stands for the value of a name, which must have begun. -/
def aliasOf (name : String) : Reader YamlValue := do
  match (← get).numbers.lookup name with
  | some number => return .alias number
  | none => failure

/-- A scalar with its tag; a lone exclamation mark is none. -/
def taggedScalar (tag : Option String) (text : String) (style : YamlStyle) : YamlValue :=
  .scalar (tag.filter (· != "!")) text style

/-! Values -/

mutual

/-- A value; block collections only where they are allowed.

A list in block form may stand right under its key, without start and end. -/
def value (inBlock underKey : Bool) : Nat → Reader YamlValue
  | 0 => failure
  | steps + 1 => do
      match ← peek with
      | some (.alias name) =>
          drop
          aliasOf name
      | _ =>
          let (name, tag) ← properties
          match name with
          | some name =>
              let number ← beginAnchor name
              let found ← content inBlock underKey true tag steps
              endAnchor number found
              return found
          | none => content inBlock underKey tag.isSome tag steps

/-- A value after its anchor and tag, where nothing may follow those. -/
def content (inBlock underKey marked : Bool) (tag : Option String) : Nat → Reader YamlValue
  | 0 => failure
  | steps + 1 => do
      let absent : Reader YamlValue := if marked then return missing else failure
      match ← peek with
      | some (.scalar text style) =>
          drop
          return taggedScalar tag text style
      | some .flowListStart =>
          drop
          return .list (← flowElements true steps)
      | some .flowMappingStart =>
          drop
          return .mapping (← flowEntries true steps)
      | some .blockEntry =>
          if underKey then return .list (← looseElements steps) else absent
      | some .blockListStart =>
          if inBlock then do
            drop
            return .list (← blockElements steps)
          else absent
      | some .blockMappingStart =>
          if inBlock then do
            drop
            return .mapping (← blockEntries steps)
          else absent
      | _ => absent

/-- A value, unless one of some tokens is next. -/
def valueUnless (ends : List YamlToken) (inBlock underKey : Bool) : Nat → Reader YamlValue
  | 0 => failure
  | steps + 1 => do
      if ← isNext ends then return missing else value inBlock underKey steps

/-- The elements of a list in block form, up to its end. -/
def blockElements : Nat → Reader (List YamlValue)
  | 0 => failure
  | steps + 1 => do
      if ← accept .blockEnd then return []
      else
        demand .blockEntry
        let first ← valueUnless [.blockEntry, .blockEnd] true false steps
        return first :: (← blockElements steps)

/-- The elements of a list that stands right under its key. -/
def looseElements : Nat → Reader (List YamlValue)
  | 0 => failure
  | steps + 1 => do
      if ← accept .blockEntry then
        let first ← valueUnless [.blockEntry, .key, .value, .blockEnd] true false steps
        return first :: (← looseElements steps)
      else return []

/-- The entries of a mapping in block form, up to its end. -/
def blockEntries : Nat → Reader (List (YamlValue × YamlValue))
  | 0 => failure
  | steps + 1 => do
      if ← accept .blockEnd then return []
      else
        demand .key
        let ends := [YamlToken.key, .value, .blockEnd]
        let key ← valueUnless ends true true steps
        let found ←
          if ← accept .value then valueUnless ends true true steps else pure missing
        return (key, found) :: (← blockEntries steps)

/-- A key within a list in flow form; a mark in its place goes with it. -/
def keyInList : Nat → Reader YamlValue
  | 0 => failure
  | steps + 1 => do
      if ← isNext [.value, .flowEntry, .flowListEnd] then
        drop
        return missing
      else value false false steps

/-- The elements of a list in flow form, up to its end. -/
def flowElements (isFirst : Bool) : Nat → Reader (List YamlValue)
  | 0 => failure
  | steps + 1 => do
      if ← accept .flowListEnd then return []
      else
        if !isFirst then demand .flowEntry
        if ← accept .flowListEnd then return []
        else
          let first ←
            if ← accept .key then do
              let key ← keyInList steps
              let found ←
                if ← accept .value then
                  valueUnless [.flowEntry, .flowListEnd] false false steps
                else pure missing
              pure (.mapping [(key, found)])
            else value false false steps
          return first :: (← flowElements false steps)

/-- The entries of a mapping in flow form, up to its end. -/
def flowEntries (isFirst : Bool) : Nat → Reader (List (YamlValue × YamlValue))
  | 0 => failure
  | steps + 1 => do
      if ← accept .flowMappingEnd then return []
      else
        if !isFirst then demand .flowEntry
        if ← accept .flowMappingEnd then return []
        else
          let first ←
            if ← accept .key then do
              let key ← valueUnless [.value, .flowEntry, .flowMappingEnd] false false steps
              let found ←
                if ← accept .value then
                  valueUnless [.flowEntry, .flowMappingEnd] false false steps
                else pure missing
              pure (key, found)
            else do
              let key ← value false false steps
              pure (key, missing)
          return first :: (← flowEntries false steps)

end

/-! Documents -/

/-- Go over the directives, which may tell a version and what handles stand for.

Each may be told once. -/
def directives (versionTold : Bool) (handlesTold : List (String × String)) : Nat → Reader Unit
  | 0 => failure
  | steps + 1 => do
      match ← peek with
      | some (.version major minor) =>
          drop
          if versionTold || major != 1 || !(minor == 1 || minor == 2) then failure
          else directives true handlesTold steps
      | some (.handle name meaning) =>
          drop
          if (handlesTold.lookup name).isSome then failure
          else directives versionTold ((name, meaning) :: handlesTold) steps
      | _ => modify fun pending => { pending with handles := handlesTold ++ standardHandles }

/-- Go over the marks at the end of a document. -/
def documentEnds : Nat → Reader Unit
  | 0 => return
  | steps + 1 => do if ← accept .documentEnd then documentEnds steps

/-- The root of the one document of a text. -/
def document (steps : Nat) : Reader (Option YamlValue) := do
  match ← peek with
  | none => return none
  | some first =>
      let isMarked := first.isDirective || first == .documentStart
      if isMarked then
        directives false [] steps
        demand .documentStart
      let root ←
        if isMarked && (← endsDocument) then pure missing else value true false steps
      documentEnds steps
      if (← peek).isSome then failure
      return some root
where
  endsDocument : Reader Bool := do
    match ← peek with
    | none => return true
    | some token =>
        return token.isDirective || token == .documentStart || token == .documentEnd

end Reader

end YamlValue

namespace YamlDocument

/-- The document that tokens make up, if they make up one. -/
def ofTokens? (tokens : List YamlToken) : Option YamlDocument := do
  let (root, pending) ←
    (YamlValue.Reader.document (4 * tokens.length + 4)).run { tokens := tokens }
  return { root := root, anchored := pending.anchored }

/-- The document of a text, if it is one. -/
def ofText? (text : String) : Option YamlDocument := do
  ofTokens? (← YamlToken.ofText? text)

end YamlDocument

end InkSyntax
