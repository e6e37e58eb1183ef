import InkSyntax.Files.Library

namespace InkSyntax

/-!
# Disks

A disk is what a command can see of the files around it.  One made of a list of
files holds these, and the directories on the way to them.
-/

/-- Files and directories within reach. -/
structure Disk where
  /-- The text of a file. -/
  read : Path → Option String
  /-- The files in a directory and below, in order, unless the path is no directory. -/
  list : Path → Option (List Path)
  /-- How many files there are at most. -/
  size : Nat

namespace Disk

/-- What inclusions in a file can reach: names lead from its directory. -/
def libraryOf (disk : Disk) (file : Path) : Library :=
  ⟨some (Library.directoryOf file), disk.read, disk.size⟩

/-- The names on the way to a file. -/
def names (path : Path) : List String :=
  path.components.filterMap fun
    | .down name => some name
    | _ => none

/-- Whether some file is in or below a directory; the starting point is one in any case. -/
def isDirectory (places : List (List String)) (place : List String) : Bool :=
  place.isEmpty || places.any fun other => place.isPrefixOf other && other != place

/-- Follow the parts of a path, each of which must lead on from a directory. -/
def follow (places : List (List String)) (place : List String) :
    List (List Char) → Option (List String)
  | [] => some place
  | segment :: rest =>
      if !isDirectory places place then none
      else if Path.isIdle segment then follow places place rest
      else if segment == ['.', '.'] then
        if place.isEmpty then none else follow places place.dropLast rest
      else follow places (place ++ [String.ofList segment]) rest

/-- The place that a path leads to from the starting point. -/
def locate (places : List (List String)) (path : Path) : Option (List String) :=
  match path.text.toList with
  | [] => none
  | '/' :: _ => none
  | text => follow places [] (Path.segments text)

/-- Order of places: by the first name in which they differ. -/
def precedes : List String → List String → Bool
  | [], _ => true
  | _ :: _, [] => false
  | left :: lefts, right :: rights =>
      if left == right then precedes lefts rights else decide (left < right)

/-- The disk that holds some files, seen from where their paths start. -/
def ofFiles (files : List (Path × String)) : Disk :=
  let entries := files.map fun (path, text) => (names path, text)
  let places := (entries.map (·.1)).eraseDups
  { read := fun path => do entries.reverse.lookup (← locate places path)
    list := fun path => do
      let place ← locate places path
      if isDirectory places place then
        let below := places.filter fun other => place.isPrefixOf other && other != place
        return (below.mergeSort precedes).map fun other =>
          (other.drop place.length).foldl Path.join path
      else none
    size := files.length }

end Disk

end InkSyntax
