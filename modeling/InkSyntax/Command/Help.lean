import InkSyntax.Command.Arguments

namespace InkSyntax

/-!
# Help

What the program tells about itself: its version, its commands and their options.
-/

namespace Topic

/-- What a command is for. -/
def summary : Topic → String
  | parse => "Parse a script, report diagnostics and print its syntax tree"
  | check => "Report diagnostics for a file, or for every `.ink` file under a directory"
  | tree => "Print the syntax tree as an indented outline"

/-- How a command is written. -/
def usage : Topic → String
  | parse => "skein parse [OPTIONS] <FILE>"
  | check => "skein check [OPTIONS] [PATH]"
  | tree => "skein tree [OPTIONS] <FILE>"

/-- What a command works on. -/
def argument : Topic → String
  | parse | tree => "  <FILE>  The path to the ink file to parse"
  | check => "  [PATH]  A file or directory to check [default: .]"

/-- The option of a command. -/
def optionLines : Topic → List String
  | parse => ["      --json             Print the tree as JSON instead of an outline"]
  | check => []
  | tree => ["      --spans            Show the source span of every node"]

end Topic

namespace Help

/-- The name and version of the program. -/
def version : String := "skein 0.1.0\n"

/-- The options of a command or of the program, with those that go with everything. -/
def options (own : List String) : List String :=
  ["", "Options:",
    "      --config <CONFIG>  Parser options file. `.json` files are read as JSON, " ++
      "anything else as YAML"] ++
    own ++
    ["  -v, --verbose          Log parser activity at debug level",
      "  -h, --help             Print help"]

/-- What asking for help is for. -/
def summary : String := "Print this message or the help of the given subcommand(s)"

/-- Lines as text. -/
def ofLines (lines : List String) : String := String.join (lines.map (· ++ "\n"))

/-- How to use the program. -/
def program : String :=
  ofLines <|
    ["Parse and check ink narrative scripts.", "", "Usage: skein [OPTIONS] <COMMAND>", "",
      "Commands:"] ++
    Topic.all.map (fun topic =>
      "  " ++ topic.name ++ String.ofList (List.replicate (7 - topic.name.length) ' ') ++
        topic.summary) ++
    ["  help   " ++ summary] ++ options [] ++ ["  -V, --version          Print version"]

/-- How to use a command. -/
def command (topic : Topic) : String :=
  ofLines <|
    [topic.summary, "", s!"Usage: {topic.usage}", "", "Arguments:", topic.argument] ++
    options topic.optionLines

/-- How to ask for help. -/
def help : String :=
  ofLines
    [summary, "", "Usage: skein help [COMMAND]...", "", "Arguments:",
      "  [COMMAND]...  Print help for the subcommand(s)"]

/-- What a page says. -/
def text : HelpPage → String
  | .program => program
  | .command topic => command topic
  | .help => help

end Help

end InkSyntax
