namespace InkSyntax

/-!
# Paths

A path names a file by the directories on the way to it, with slashes between
them.  Two spellings of one way have the same normal form, which needs no look at
any disk: parts that stay where they are vanish, and a step up undoes the step
down before it.
-/

/-- A way to a file, as it is written. -/
structure Path where
  text : String
  deriving DecidableEq, Repr

namespace Path

/-- One step of a way. -/
inductive Component where
  /-- Start at the root of all directories. -/
  | root
  /-- Stay. -/
  | here
  /-- Go to the directory above. -/
  | up
  /-- Go to what has a name. -/
  | down (name : String)
  deriving DecidableEq, Repr

/-- The parts of a text between slashes, also the empty ones. -/
def segments : List Char → List (List Char)
  | [] => [[]]
  | character :: rest =>
      match character, segments rest with
      | '/', found => [] :: found
      | _, [] => [[character]]
      | _, first :: others => (character :: first) :: others

/-- Parts with slashes between them. -/
def joinSegments (parts : List (List Char)) : List Char := List.intercalate ['/'] parts

/-- What a path begins with: the root, a dot for the place where it starts, or nothing. -/
def lead : List Char → List Char
  | '/' :: _ => ['/']
  | ['.'] => ['.']
  | '.' :: '/' :: _ => ['.']
  | _ => []

/-- The parts of a path after its lead. -/
def bodySegments (path : Path) : List (List Char) :=
  let text := path.text.toList
  segments (text.drop (lead text).length)

/-- Whether a part leads nowhere. -/
def isIdle (segment : List Char) : Bool := segment == [] || segment == ['.']

/-- The step that a part stands for. -/
def component? (segment : List Char) : Option Component :=
  if isIdle segment then none
  else if segment == ['.', '.'] then some .up
  else some (.down (String.ofList segment))

/-- The step that a lead stands for. -/
def leadComponent : List Char → List Component
  | ['/'] => [.root]
  | ['.'] => [.here]
  | _ => []

/-- The steps of a path. -/
def components (path : Path) : List Component :=
  leadComponent (lead path.text.toList) ++ path.bodySegments.filterMap component?

/-- Add a step to reversed steps in normal form. -/
def push (steps : List Component) : Component → List Component
  | .here => steps
  | .up =>
      match steps with
      | .down _ :: before => before
      | .root :: _ => steps
      | _ => .up :: steps
  | step => step :: steps

/-- How a step is written; the root is written by the slash after it. -/
def Component.text : Component → String
  | .root => ""
  | .here => "."
  | .up => ".."
  | .down name => name

/-- The path of steps; no steps at all stay. -/
def ofComponents : List Component → Path
  | [] => ⟨"."⟩
  | [.root] => ⟨"/"⟩
  | steps => ⟨String.intercalate "/" (steps.map Component.text)⟩

/-- The normal form of a path. -/
def normalize (path : Path) : Path := ofComponents (path.components.foldl push []).reverse

/-- A path from a directory on; one from the root stays as it is. -/
def join (directory : Path) (name : String) : Path :=
  match name.toList, directory.text.toList.getLast? with
  | '/' :: _, _ => ⟨name⟩
  | _, some '/' => ⟨directory.text ++ name⟩
  | _, none => ⟨name⟩
  | _, some _ => ⟨directory.text ++ "/" ++ name⟩

/-- The parts from the last one that leads somewhere backwards. -/
def reversedSegments (path : Path) : List (List Char) :=
  path.bodySegments.reverse.dropWhile isIdle

/-- The directory in which a path ends; the root is in none. -/
def parent? (path : Path) : Option Path :=
  let lead := lead path.text.toList
  match path.reversedSegments with
  | _ :: before =>
      some ⟨String.ofList (lead ++ joinSegments (before.dropWhile isIdle).reverse)⟩
  | [] => if lead == ['.'] then some ⟨""⟩ else none

/-- The last step of a path, if it goes to what has a name. -/
def fileName? (path : Path) : Option String :=
  match path.reversedSegments with
  | [] => none
  | last :: _ => if last == ['.', '.'] then none else some (String.ofList last)

/-- What follows the last point in the last name; a name may begin with a point. -/
def extension? (path : Path) : Option String := do
  let reversed := (← path.fileName?).toList.reverse
  let ending := reversed.takeWhile (· != '.')
  match reversed.drop ending.length with
  | _ :: _ :: _ => some (String.ofList ending.reverse)
  | _ => none

/-- Whether a path has an extension, in capitals or not. -/
def hasExtension (path : Path) (extension : String) : Bool :=
  match path.extension? with
  | some found => found.toList.map Char.toLower == extension.toList.map Char.toLower
  | none => false

end Path

end InkSyntax
