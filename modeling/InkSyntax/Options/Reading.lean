import InkSyntax.Files.Path
import InkSyntax.Json.Reader
import InkSyntax.Options
import InkSyntax.Text.Blank
import InkSyntax.Text.Digit
import InkSyntax.Yaml.Value

namespace InkSyntax.Options

/-!
# Options from text

Options are written in JSON or YAML: as a mapping, where names that mean nothing
here are passed over, or, in JSON, as a list in the order of the fields.  What is
not written has its default.  A name may be given once, and its value must be of
the right type.
-/

/-- How values of some format are read. -/
structure Format (α : Type) where
  number? : α → Option Nat
  bool? : α → Option Bool

/-- The value for a name, which may be given once at most, or its default. -/
def entry? {α β : Type} (entries : List (String × α)) (name : String)
    (read? : α → Option β) (default : β) : Option β :=
  match entries.filter (·.1 == name) with
  | [] => some default
  | [(_, value)] => read? value
  | _ => none

/-- Options from names and values. -/
def ofEntries? {α : Type} (format : Format α) (entries : List (String × α)) :
    Option Options := do
  let default : Options := {}
  let maxStackDepth ← entry? entries "max_stack_depth" format.number? default.maxStackDepth
  let warningsAsErrors ←
    entry? entries "warnings_as_errors" format.bool? default.warningsAsErrors
  return { maxStackDepth, warningsAsErrors }

/-- Options from values in the order of the fields. -/
def ofPositions? {α : Type} (format : Format α) : List α → Option Options
  | [] => some {}
  | [depth] => do return { maxStackDepth := ← format.number? depth }
  | [depth, strict] => do
      return { maxStackDepth := ← format.number? depth, warningsAsErrors := ← format.bool? strict }
  | _ => none

/-- Numbers are kept in 64 bits. -/
def inRange (value : Nat) : Option Nat :=
  if value < 0x10000000000000000 then some value else none

/-- The number that digits in some base write, if there are digits alone. -/
def written? (base : Nat) (digits : List Char) : Option Nat := do
  if digits.isEmpty then none else inRange (← digitsValue? base digits)

/-! JSON -/

/-- Values in JSON: a number without sign, fraction and power, and the two truth values. -/
def json : Format JsonValue where
  number? value :=
    match value with
    | .number written => written? 10 written.toList
    | _ => none
  bool? value :=
    match value with
    | .bool value => some value
    | _ => none

/-- Options written in JSON. -/
def ofJson? (text : String) : Option Options := do
  match ← JsonValue.ofText? text with
  | .object fields => ofEntries? json fields
  | .list elements => ofPositions? json elements
  | _ => none

/-! YAML -/

/-- A number in YAML, in base ten, or in the base that a sign before the digits names.

A number of several digits does not begin with zero. -/
def yamlNumber? (written : List Char) : Option Nat :=
  let digits := match written with
    | '+' :: rest => rest
    | _ => written
  match digits with
  | '0' :: 'x' :: rest => written? 16 rest
  | '0' :: 'o' :: rest => written? 8 rest
  | '0' :: 'b' :: rest => written? 2 rest
  | '0' :: _ :: _ => none
  | _ => written? 10 digits

/-- A truth value in YAML. -/
def yamlBool? (written : String) : Option Bool :=
  if ["true", "True", "TRUE"].contains written then some true
  else if ["false", "False", "FALSE"].contains written then some false
  else none

/-- The text of a scalar that may be of a type: a plain one, or a block that says so. -/
def yamlText? (document : YamlDocument) (type : String) (value : YamlValue) : Option String := do
  match ← document.resolve? value with
  | .scalar _ text .plain => some text
  | .scalar tag text .literal =>
      if tag == some ("tag:yaml.org,2002:" ++ type) then some text else none
  | _ => none

/-- Values in a YAML document. -/
def yaml (document : YamlDocument) : Format YamlValue where
  number? value := do yamlNumber? (← yamlText? document "int" value).toList
  bool? value := do yamlBool? (← yamlText? document "bool" value)

/-- A name in a YAML document, which any scalar may be. -/
def yamlName? (document : YamlDocument) (key : YamlValue) : Option String := do
  match ← document.resolve? key with
  | .scalar _ name _ => some name
  | _ => none

/-- Options written in YAML; a blank text sets none, nor does a document of nothing. -/
def ofYaml? (text : String) : Option Options := do
  if text.toList.all isBlank then return {}
  let document ← YamlDocument.ofText? text
  match document.root with
  | none => some {}
  | some (.scalar _ "" .plain) => some {}
  | some (.mapping entries) =>
      let named ← entries.mapM fun (key, value) => do
        return (← yamlName? document key, value)
      ofEntries? (yaml document) named
  | some _ => none

/-- Options from a file: JSON or YAML by its extension. -/
def ofFile? (path : Path) (text : String) : Option Options :=
  if path.hasExtension "json" then ofJson? text else ofYaml? text

end InkSyntax.Options
