import InkSyntax.Command.Help
import InkSyntax.Files.Disk
import InkSyntax.Options.Reading
import InkSyntax.Reading
import InkSyntax.Story.Structured

namespace InkSyntax

/-!
# Reports

A command comes to a report: what it prints, what it complains about, and how it
went.  It sees files only through a disk, so a report is a function of these.
-/

/-- A colour on a terminal. -/
inductive Colour where
  | red
  | green
  deriving DecidableEq, Repr

namespace Colour

/-- The number of a colour in terminal controls. -/
def number : Colour → Nat
  | red => 31
  | green => 32

end Colour

/-- A piece of output. -/
inductive Piece where
  | plain (text : String)
  /-- Text in bold and colour, where there are colours. -/
  | bold (colour : Colour) (text : String)
  deriving DecidableEq, Repr

namespace Piece

/-- A control sequence for terminals. -/
def control (number : Nat) : String := s!"\x1b[{number}m"

/-- A piece as text. -/
def render (coloured : Bool) : Piece → String
  | plain text => text
  | bold colour text =>
      if coloured then
        control 0 ++ control 1 ++ control colour.number ++ text ++ control 0
      else text

end Piece

/-- How a command went. -/
inductive ExitStatus where
  | fine
  /-- There are errors in a script. -/
  | errors
  /-- The command line, a file or the options are no good. -/
  | unusable
  | fault
  deriving DecidableEq, Repr

namespace ExitStatus

/-- The number that the operating system is told. -/
def code : ExitStatus → UInt8
  | fine => 0
  | errors => 1
  | unusable => 2
  | fault => 101

end ExitStatus

/-- What comes of a command. -/
structure Report where
  status : ExitStatus := .fine
  output : List Piece := []
  /-- Lines for the standard error output. -/
  complaints : List String := []
  /-- The files that were to be included. -/
  requested : List Path := []

namespace Report

/-- A report that something could not be done. -/
def ofFailure (failure : Failure) : Report where
  status := match failure with
    | .fault _ => .fault
    | _ => .unusable
  complaints :=
    failure.message :: (failure.help?.map (s!"help: {·}")).toList

/-- One report after another, which tells how both went. -/
def followedBy (first second : Report) : Report where
  status := second.status
  output := first.output ++ second.output
  complaints := first.complaints ++ second.complaints
  requested := first.requested ++ second.requested

/-- What goes to the standard output. -/
def text (coloured : Bool) (report : Report) : String :=
  String.join (report.output.map (Piece.render coloured))

end Report

/-- The options in a file. -/
def Options.load (read : Path → Option String) (path : Path) : Except Failure Options :=
  match read path with
  | none => .error (.unreadable path)
  | some text =>
      match Options.ofFile? path text with
      | some options => .ok options
      | none => .error (.badOptions path)

namespace Command

/-- Read a file and all it includes; the story has the name of the file. -/
def readFile (disk : Disk) (options : Options) (file : Path) : Except Failure Reading :=
  match disk.read file with
  | none => .error (.unreadable file)
  | some text =>
      let name := file.fileName?.getD file.text
      match readScript (disk.libraryOf file) options text (some name) with
      | .ok reading => .ok reading
      | .error fault => .error (.fault fault)

/-- How a reading went. -/
def statusOf (reading : Reading) : ExitStatus :=
  if Diagnostic.anyError reading.diagnostics then .errors else .fine

/-- Report a reading with some output. -/
def reportOf (reading : Reading) (output : List Piece) : Report where
  status := statusOf reading
  output := output
  complaints := reading.diagnostics.map Diagnostic.display
  requested := reading.requested

/-- Read a file and show what `display` makes of its story. -/
def showStory (disk : Disk) (options : Options) (file : Path) (display : Story → String) :
    Report :=
  match readFile disk options file with
  | .error failure => .ofFailure failure
  | .ok reading => reportOf reading [.plain (display reading.story)]

/-- A line for one file: whether it is good, and how many problems it has. -/
def summary (file : Path) (reading : Reading) : List Piece :=
  let errors := Diagnostic.errorCount reading.diagnostics
  let warnings := Diagnostic.warningCount reading.diagnostics
  let mark := if errors = 0 then Piece.bold .green "    ok" else .bold .red "FAILED"
  [mark, .plain s!" {file.text} ({errors} error(s), {warnings} warning(s))\n"]

/-- Check files one after the other, with the number of bad ones so far.

A file that cannot be read ends the check. -/
def checkFiles (disk : Disk) (options : Options) (failed : Nat) :
    List Path → Except Failure Nat × Report
  | [] => (.ok failed, {})
  | file :: others =>
      match readFile disk options file with
      | .error failure => (.error failure, .ofFailure failure)
      | .ok reading =>
          let isBad := Diagnostic.anyError reading.diagnostics
          let (result, rest) :=
            checkFiles disk options (if isBad then failed + 1 else failed) others
          (result, (reportOf reading (summary file reading)).followedBy rest)

/-- The line about all files, if there are several. -/
def totals (count failed : Nat) : List Piece :=
  if 1 < count then
    [.bold (if failed = 0 then .green else .red)
      s!"\nChecked {count} file(s), {failed} with errors\n"]
  else []

/-- The scripts that a path stands for: itself, or those in a directory. -/
def scriptsAt (disk : Disk) (path : Path) : List Path :=
  match disk.list path with
  | some files => files.filter (·.hasExtension "ink")
  | none => [path]

/-- Check a file or the files in a directory. -/
def checkAll (disk : Disk) (options : Options) (path : Path) : Report :=
  let files := scriptsAt disk path
  match checkFiles disk options 0 files with
  | (.error _, report) => report
  | (.ok failed, report) =>
      let status := if failed = 0 then ExitStatus.fine else .errors
      report.followedBy { status := status, output := totals files.length failed }

/-- The report of a command. -/
def report (disk : Disk) (options : Options) : Command → Report
  | parse file json =>
      showStory disk options file fun story =>
        if json then story.jsonText ++ "\n" else story.outline false
  | check path => checkAll disk options path
  | tree file spans => showStory disk options file (·.outline spans)

end Command

/-- The report of a command with its options. -/
def Invocation.report (disk : Disk) (invocation : Invocation) : Report :=
  let options := match invocation.config with
    | some path => Options.load disk.read path
    | none => .ok {}
  match options with
  | .error failure => .ofFailure failure
  | .ok options =>
      let done := invocation.command.report disk options
      if invocation.verbose then
        { done with complaints := "reading with progress shown" :: done.complaints }
      else done

/-- The report of what a command line asks for. -/
def Request.report (disk : Disk) : Request → Report
  | run invocation => invocation.report disk
  | help page => { output := [.plain (Help.text page)] }
  | version => { output := [.plain Help.version] }
  | misuse => { status := .unusable, complaints := [Help.program] }

end InkSyntax
