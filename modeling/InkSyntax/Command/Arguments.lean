import InkSyntax.Files.Path

namespace InkSyntax

/-!
# Command lines

A command line names a command, what it works on, and options, some of which go
with every command and may stand before or after its name.  Asking for help ends
the reading of the line; so does the first thing in it that makes no sense.
-/

/-- What there is to be done. -/
inductive Command where
  /-- Show the story of a file, as an outline or in JSON. -/
  | parse (file : Path) (json : Bool)
  /-- Tell how many problems there are in a file, or in every file of a directory. -/
  | check (path : Path)
  /-- Show the outline of the story of a file, perhaps with spans. -/
  | tree (file : Path) (spans : Bool)
  deriving DecidableEq, Repr

/-- A command with the options that go with every command. -/
structure Invocation where
  command : Command
  config : Option Path := none
  verbose : Bool := false
  deriving DecidableEq, Repr

/-- The commands by name. -/
inductive Topic where
  | parse
  | check
  | tree
  deriving DecidableEq, Repr

namespace Topic

def all : List Topic := [parse, check, tree]

def name : Topic → String
  | parse => "parse"
  | check => "check"
  | tree => "tree"

def ofName? (name : String) : Option Topic := all.find? (·.name == name)

/-- The option that goes with this command alone. -/
def option? : Topic → Option String
  | parse => some "json"
  | check => none
  | tree => some "spans"

end Topic

/-- What there is to be told about how to use the program. -/
inductive HelpPage where
  /-- How to use it at all. -/
  | program
  /-- How to use a command. -/
  | command (topic : Topic)
  /-- How to ask for help. -/
  | help
  deriving DecidableEq, Repr

/-- What a command line asks for. -/
inductive Request where
  | run (invocation : Invocation)
  | help (page : HelpPage)
  | version
  /-- Nothing that makes sense. -/
  | misuse
  deriving DecidableEq, Repr

namespace Arguments

/-- What an argument is. -/
inductive Word where
  /-- An option by its long name, perhaps with a value. -/
  | long (name : String) (value : Option String)
  /-- Options by their letters. -/
  | letters (letters : List Char)
  /-- What follows are no options. -/
  | terminator
  | plain (text : String)
  deriving DecidableEq, Repr

/-- Tell what an argument is. -/
def Word.ofText (text : String) : Word :=
  match text.toList with
  | ['-', '-'] => .terminator
  | '-' :: '-' :: rest =>
      let name := rest.takeWhile (· != '=')
      match rest.drop name.length with
      | _ :: value => .long (String.ofList name) (some (String.ofList value))
      | [] => .long (String.ofList name) none
  | '-' :: letter :: rest => .letters (letter :: rest)
  | _ => .plain text

/-- What was given so far. -/
structure Given where
  config : Option String := none
  verbose : Bool := false
  /-- Whether the option of the command was given. -/
  chosen : Bool := false
  /-- What the command works on. -/
  value : Option String := none

/-- What ends the reading of a line before its end. -/
inductive Halt where
  | help
  | version
  | misuse
  deriving DecidableEq, Repr

abbrev Result := Except Halt

/-- Note the options file; it can be given once, and not without a name. -/
def Given.setConfig (given : Given) (value : String) : Result Given :=
  if given.config.isSome || value.isEmpty then throw .misuse
  else return { given with config := some value }

/-- Note what the command works on; that is one thing at most, and it has a name. -/
def Given.setValue (given : Given) (value : String) : Result Given :=
  if given.value.isSome || value.isEmpty then throw .misuse
  else return { given with value := some value }

/-- Note that progress is to be shown; once is enough. -/
def Given.setVerbose (given : Given) : Result Given :=
  if given.verbose then throw .misuse else return { given with verbose := true }

/-- Note an option by its name. -/
def Given.set (option? : Option String) (given : Given) (name : String) : Result Given :=
  if name == "verbose" then given.setVerbose
  else if some name == option? && !given.chosen then return { given with chosen := true }
  else throw .misuse

/-- Note options by their letters. -/
def Given.setLetters (isOutermost : Bool) (given : Given) : List Char → Result Given
  | [] => return given
  | 'v' :: rest => do setLetters isOutermost (← given.setVerbose) rest
  | 'h' :: _ => throw .help
  | 'V' :: _ => throw (if isOutermost then .version else .misuse)
  | _ => throw .misuse

/-- Whether an argument may be a value. -/
def isValue (argument : String) : Bool :=
  match Word.ofText argument with
  | .plain _ => true
  | _ => false

/-- Options before the name of a command, and what follows from that name on.

The name of an options file that stands right before the command is looked at only
when the command has been read, so whether it makes sense is left open here. -/
def beforeCommand (given : Given) : List String → Result (Result Given × List String)
  | [] => return (.ok given, [])
  | argument :: rest =>
      match Word.ofText argument with
      | .plain _ => return (.ok given, argument :: rest)
      | .terminator => throw .misuse
      | .letters letters => do beforeCommand (← given.setLetters true letters) rest
      | .long "help" none => throw .help
      | .long "version" none => throw .version
      | .long "config" (some value) => do beforeCommand (← given.setConfig value) rest
      | .long "config" none =>
          match rest with
          | [] => throw .misuse
          | value :: rest =>
              if !isValue value then throw .misuse
              else if rest.head?.any isValue then return (given.setConfig value, rest)
              else do beforeCommand (← given.setConfig value) rest
      | .long name none => do beforeCommand (← given.set none name) rest
      | .long _ (some _) => throw .misuse

/-- Options and a value after the name of a command. -/
def afterCommand (option? : Option String) (given : Given) : List String → Result Given
  | [] => return given
  | argument :: rest =>
      match Word.ofText argument with
      | .plain _ => do afterCommand option? (← given.setValue argument) rest
      | .terminator => rest.foldlM Given.setValue given
      | .letters letters => do afterCommand option? (← given.setLetters false letters) rest
      | .long "help" none => throw .help
      | .long "config" (some value) => do afterCommand option? (← given.setConfig value) rest
      | .long "config" none =>
          match rest with
          | [] => throw .misuse
          | value :: rest =>
              if isValue value then do afterCommand option? (← given.setConfig value) rest
              else throw .misuse
      | .long name none => do afterCommand option? (← given.set option? name) rest
      | .long _ (some _) => throw .misuse

/-- The command of a topic; only a check may be told nothing to work on. -/
def command? (topic : Topic) (given : Given) : Option Command :=
  match topic, given.value with
  | .parse, some file => some (.parse ⟨file⟩ given.chosen)
  | .tree, some file => some (.tree ⟨file⟩ given.chosen)
  | .check, path => some (.check ⟨path.getD "."⟩)
  | _, none => none

/-- The page that is asked for by name. -/
def pageOf? : List String → Option HelpPage
  | [] => some .program
  | ["help"] => some .help
  | [name] => (Topic.ofName? name).map .command
  | _ => none

/-- What is asked for after the options before a command. -/
def requestOf (outer : Result Given) : List String → Request
  | [] => .misuse
  | name :: rest =>
      if name == "help" then
        match pageOf? rest with
        | some page => .help page
        | none => .misuse
      else
        match Topic.ofName? name with
        | none => .misuse
        | some topic =>
            match afterCommand topic.option? {} rest with
            | .error .help => .help (.command topic)
            | .error _ => .misuse
            | .ok inner =>
                match command? topic inner, outer with
                | some command, .ok outer =>
                    let config := inner.config.orElse fun _ => outer.config
                    .run ⟨command, config.map Path.mk, outer.verbose || inner.verbose⟩
                | _, _ => .misuse

end Arguments

/-- What a command line asks for. -/
def Request.ofArguments (arguments : List String) : Request :=
  match Arguments.beforeCommand {} arguments with
  | .error .help => .help .program
  | .error .version => .version
  | .error .misuse => .misuse
  | .ok (given, rest) => Arguments.requestOf given rest

end InkSyntax
