import InkSyntax.Command.Report

namespace InkSyntax

/-!
# The program

The files that a command may need are brought in first; a file that turns out to
be included is brought in then, and the report made anew.  All else is in the
report.
-/

/-- Files and directories that were looked at. -/
structure Known where
  texts : List (Path × Option String) := []
  directories : List (Path × List Path) := []

namespace Known

/-- The disk that holds what was looked at. -/
def disk (known : Known) : Disk where
  read path := (known.texts.lookup path).join
  list path := known.directories.lookup path
  size := known.texts.length

/-- Whether a file was looked at. -/
def has (known : Known) (path : Path) : Bool := known.texts.any (·.1 == path)

/-- Look at a file; one that cannot be read has no text. -/
def look (known : Known) (path : Path) : IO Known := do
  let text ← try some <$> IO.FS.readFile path.text catch _ => pure none
  return { known with texts := (path, text) :: known.texts }

/-- The files in a directory and below, each directory in order of names. -/
partial def filesBelow (directory : Path) : IO (List Path) := do
  let start ← IO.currentDir
  let entries ← (start / directory.text).readDir
  let names := (entries.toList.map (·.fileName)).mergeSort
  let found ← names.mapM fun name => do
    let path := directory.join name
    if ← (start / path.text).isDir then filesBelow path else pure [path]
  return found.flatten

/-- Look at a directory and the scripts in it, or at a file. -/
def lookBelow (known : Known) (path : Path) : IO Known := do
  let start ← IO.currentDir
  if ← (start / path.text).isDir then
    let files ← filesBelow path
    let listed := { known with directories := (path, files) :: known.directories }
    (files.filter (·.hasExtension "ink")).foldlM look listed
  else known.look path

/-- Look at what a command line names. -/
def ofRequest : Request → IO Known
  | .run invocation => do
      let known ← invocation.config.toList.foldlM look {}
      match invocation.command with
      | .parse file _ | .tree file _ => known.look file
      | .check path => known.lookBelow path
  | _ => return {}

end Known

/-- The report of a command line, once all that it includes was looked at. -/
partial def Request.reportWith (request : Request) (known : Known) : IO Report := do
  let report := request.report known.disk
  match report.requested.filter (!known.has ·) with
  | [] => return report
  | unknown => request.reportWith (← unknown.foldlM Known.look known)

/-- Whether the standard output has colours. -/
def hasColours : IO Bool := do
  let refused := (← IO.getEnv "NO_COLOR").isSome
  match ← IO.getEnv "TERM" with
  | some terminal => return !refused && terminal != "dumb"
  | none => return false

end InkSyntax

/-- Run the program. -/
def main (arguments : List String) : IO UInt32 := do
  let request := InkSyntax.Request.ofArguments arguments
  let report ← request.reportWith (← InkSyntax.Known.ofRequest request)
  IO.print (report.text (← InkSyntax.hasColours))
  for line in report.complaints do
    IO.eprintln line
  return report.status.code.toUInt32
