import InkSyntax.Comment
import InkSyntax.Failure
import InkSyntax.Files.Library
import InkSyntax.Grammar.Workshop

namespace InkSyntax

/-!
# Reading scripts

Reading a script gives its story and everything there is to tell the user about
it, in order.  A reading that nobody listens to gives the story or the first error
instead.
-/

/-- What reading a script gives. -/
structure Reading where
  story : Story
  diagnostics : List Diagnostic
  /-- The files that were to be included. -/
  requested : List Path

namespace Reading

/-- Include a file in the script at hand, given how to read its text. -/
def includeFile (library : Library)
    (readText : String → String → Session → Except Fault (Story × Session)) (name : String) :
    Action Workshop Inclusion := fun machine =>
  let path := library.resolve name
  let session := machine.host.session
  if session.openFiles.contains path then .matched (.recursive path.text) machine
  else
    let session := session.request path
    match library.read path with
    | none =>
        .matched .missing { machine with host := { machine.host with session := session } }
    | some text =>
        match readText text name (session.enter path) with
        | .error fault => .faulted fault
        | .ok (story, session) =>
            .matched (.story story)
              { machine with host := { machine.host with session := session.leave path } }

/-- Read the text of a script, with inclusions nested no deeper than a number of levels.

An inclusion inside another is of yet another file, so the number of files bounds
the levels. -/
def readText (library : Library) (maxDepth : Nat) :
    Nat → String → Option String → Session → Except Fault (Story × Session)
  | 0, _, _, _ => .error .stalled
  | levels + 1, text, file, session => do
      let script ← Comment.strip text
      let machine := Machine.start script.toList maxDepth
        ({ file := file, session := session } : Workshop)
      let include_ := includeFile library fun text name =>
        readText library maxDepth levels text (some name)
      match Workshop.readScript maxDepth include_ machine with
      | .matched root after =>
          let span := Span.between machine.cursor after.cursor
          return (after.host.draft.freeze root span file, after.host.session)
      | .failed after =>
          return (after.host.draft.freeze Story.root {} file, after.host.session)
      | .faulted fault => throw fault

end Reading

/-- Read a script and all it includes. -/
def readScript (library : Library) (options : Options) (text : String) (file : Option String) :
    Except Fault Reading := do
  let session : Session :=
    { warningsAsErrors := options.warningsAsErrors
      openFiles := (file.map library.resolve).toList }
  let (story, session) ←
    Reading.readText library options.maxStackDepth (library.size + 2) text file session
  return ⟨story, session.delivered, session.requested⟩

/-- Read a script while nobody listens; the first error then stands in place of the story. -/
def readScriptStrictly (library : Library) (options : Options) (text : String)
    (file : Option String) : Except Failure Story :=
  let session : Session :=
    { warningsAsErrors := options.warningsAsErrors
      isHeard := false
      openFiles := (file.map library.resolve).toList }
  match Reading.readText library options.maxStackDepth (library.size + 2) text file session with
  | .error fault => .error (.fault fault)
  | .ok (story, session) =>
      match session.unheardError with
      | some diagnostic => .error (.reported diagnostic)
      | none => .ok story

end InkSyntax
