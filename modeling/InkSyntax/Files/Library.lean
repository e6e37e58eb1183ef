import InkSyntax.Files.Path

namespace InkSyntax

/-!
# Libraries

A library is what an `INCLUDE` line can reach: it turns names into paths, and
paths into texts.
-/

/-- Files that can be included. -/
structure Library where
  /-- The directory from which names lead; without one they lead from nowhere. -/
  root : Option Path := none
  /-- The text at a path in normal form. -/
  read : Path → Option String
  /-- How many files there are at most. -/
  size : Nat

namespace Library

/-- The path that identifies a file, by its name. -/
def resolve (library : Library) (name : String) : Path :=
  match library.root with
  | some root => (root.join name).normalize
  | none => Path.normalize ⟨name⟩

/-- The directory of a file, from which its inclusions lead. -/
def directoryOf (file : Path) : Path := file.parent?.getD ⟨"."⟩

/-- The text at a path among files; of two files at one path the later counts. -/
def lookup (files : List (Path × String)) (path : Path) : Option String :=
  (files.reverse.find? fun (at_, _) => at_ == path).map (·.2)

/-- A library of files by name. -/
def ofFiles (files : List (String × String)) (root : Option Path := none) : Library where
  root := root
  read := lookup (files.map fun (name, text) => (Path.normalize ⟨name⟩, text))
  size := files.length

end Library

end InkSyntax
