import InkSyntax.Files.Path
import InkSyntax.Grammar.Script
import InkSyntax.Machine.Run
import InkSyntax.Options
import InkSyntax.Story.Freeze
import InkSyntax.Story.Weave

namespace InkSyntax

/-!
# Performing the operations of the grammar

A workshop is what the rules of the grammar work on: the draft of a story and the
session that all files of one reading share.  Constructs are read by their rules,
nested no deeper than scopes can be.
-/

/-- What the readings of a script and of the files it includes have in common. -/
structure Session where
  /-- Whether warnings count as errors. -/
  warningsAsErrors : Bool := false
  /-- Whether somebody listens to diagnostics; if not, the first error is kept aside. -/
  isHeard : Bool := true
  /-- The files that are being read. -/
  openFiles : List Path := []
  delivered : List Diagnostic := []
  /-- The first error that nobody heard. -/
  unheardError : Option Diagnostic := none
  /-- The files that were to be included. -/
  requested : List Path := []

namespace Session

/-- Take a diagnostic. -/
def deliver (session : Session) (diagnostic : Diagnostic) : Session :=
  let severity := if session.warningsAsErrors then .error else diagnostic.severity
  let told := { diagnostic with severity := severity }
  { session with
    delivered := session.delivered ++ [told]
    unheardError :=
      if session.isHeard || !told.isError then session.unheardError
      else session.unheardError.or (some told) }

/-- Note that a file is to be included. -/
def request (session : Session) (file : Path) : Session :=
  { session with requested := session.requested ++ [file] }

/-- Note that a file is being read. -/
def enter (session : Session) (file : Path) : Session :=
  { session with openFiles := file :: session.openFiles }

/-- Note that a file was read. -/
def leave (session : Session) (file : Path) : Session :=
  { session with openFiles := session.openFiles.filter (· != file) }

end Session

/-- What the rules of the grammar work on. -/
structure Workshop where
  draft : Draft := {}
  /-- Whether the content of a choice is being read. -/
  inChoice : Bool := false
  file : Option String
  session : Session

namespace Workshop

instance : Host Workshop where
  mark workshop := workshop.draft.size
  rewind workshop mark := { workshop with draft := workshop.draft.keepOldest mark }
  commit workshop nodes start stop :=
    { workshop with draft := workshop.draft.setSpans (Span.between start stop) nodes }
  deliver workshop severity line message :=
    { workshop with
      session := workshop.session.deliver ⟨message, severity, line, workshop.file⟩ }

/-- Make another draft of the host, together with a result. -/
def redraft {α : Type} (change : Draft → α × Draft) : Action Workshop α := fun machine =>
  let (value, draft) := change machine.host.draft
  .matched value { machine with host := { machine.host with draft := draft } }

/-- Change the host. -/
def update (change : Workshop → Workshop) : Action Workshop Unit := fun machine =>
  .matched () { machine with host := change machine.host }

/-- Tell something about the host. -/
def query {α : Type} (ask : Workshop → α) : Action Workshop α := fun machine =>
  .matched (ask machine.host) machine

/-- Act if no node is missing that will be looked at. -/
def unlessMissing {α : Type} (missing? : Draft → Option NodeId) (action : Action Workshop α) :
    Action Workshop α := fun machine =>
  match missing? machine.host.draft with
  | some id => .faulted (.missingNode id.index)
  | none => action machine

/-- What an operation does, given how constructs and other files are read. -/
def handle (read : {β : Type} → Construct β → Action Workshop β)
    (include_ : String → Action Workshop Inclusion) :
    {α : Type} → Craft α → Action Workshop α
  | _, .make kind => redraft (·.add kind)
  | _, .makeSpanning kind => redraft (·.addSpanning kind)
  | _, .kindOf id => fun machine =>
      match machine.host.draft.kind? id with
      | some kind => .matched kind machine
      | none => .faulted (.missingNode id.index)
  | _, .amend id amendment =>
      unlessMissing (·.missingAmong? [id]) <|
        redraft fun draft => ((), draft.modify id amendment.apply)
  | _, .survey id =>
      unlessMissing (fun draft => draft.missingWithin? draft.size id) (query (·.draft))
  | _, .spanOf id => query (·.draft.span? id)
  | _, .weave content =>
      unlessMissing (·.missingAmong? content) (redraft (·.weaveAndFlows content))
  | _, .isInChoice => query (·.inChoice)
  | _, .setInChoice inChoice => update fun workshop => { workshop with inChoice := inChoice }
  | _, .include file => include_ file
  | _, .read construct => read construct

/-- Read a construct, with constructs nested no deeper than a number of levels.

Between a construct and one inside it a scope is open, so a bound on scopes bounds
the levels. -/
def readWithin (maxDepth : Nat) (include_ : String → Action Workshop Inclusion) :
    Nat → {α : Type} → Construct α → Action Workshop α
  | 0, _, _ => fun _ => .faulted (.stackOverflow maxDepth)
  | levels + 1, _, construct =>
      (Grammar.rule construct).run (handle (readWithin maxDepth include_ levels) include_)

/-- Read a whole script. -/
def readScript (maxDepth : Nat) (include_ : String → Action Workshop Inclusion) :
    Action Workshop NodeId :=
  Grammar.script.run (handle (readWithin maxDepth include_ (maxDepth + 2)) include_)

end Workshop

end InkSyntax
