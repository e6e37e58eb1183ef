import InkSyntax.Story.Basic
import InkSyntax.Story.Draft

namespace InkSyntax

/-!
# Expressions as text

An expression is shown again much as it was written: operators in symbols with
parentheses around them, names with points between their parts.
-/

namespace NodeKind

variable {σ : Type}

/-- A node as text, given the text of the nodes below it. -/
def describeWith (below : NodeId → String) (kind : NodeKind σ) : String :=
  let join (ids : List NodeId) (separator : String) : String :=
    String.intercalate separator (ids.map below)
  match kind with
  | .text written => written
  | .identifier name => name
  | .path components => join components "."
  | .reference parts => join parts "."
  | .number value => value.display
  | .string content => "\"" ++ join content "" ++ "\""
  | .divert link =>
      let target := (link.target.map below).getD ""
      if link.arguments.isEmpty then s!"-> {target}"
      else "-> " ++ target ++ "(" ++ join link.arguments ", " ++ ")"
  | .divertTarget link => below link
  | .unary op inner => op.symbol ++ below inner
  | .binary left op right =>
      "(" ++ below left ++ " " ++ op.symbol ++ " " ++ below right ++ ")"
  | .functionCall name arguments _ => below name ++ "(" ++ join arguments ", " ++ ")"
  | .listLiteral items => "(" ++ join items ", " ++ ")"
  | .step target amount isIncrement =>
      match amount with
      | none => below target ++ if isIncrement then "++" else "--"
      | some amount =>
          below target ++ (if isIncrement then " += " else " -= ") ++ below amount
  | .allOf conditions => join conditions " && "
  | .contentList content => join content ""
  | .glue => "<>"
  | other => other.name

end NodeKind

/-- A node as text, looking at most some levels down. -/
def describeWithin (kind? : NodeId → Option StoryKind) : Nat → NodeId → String
  | 0, _ => ""
  | levels + 1, id =>
      match kind? id with
      | some kind => kind.describeWith (describeWithin kind? levels)
      | none => ""

/-- A node of a story as text. -/
def Story.describe (story : Story) (id : NodeId) : String :=
  describeWithin story.kind? story.size id

/-- A node of a draft as text. -/
def Draft.describe (draft : Draft) (id : NodeId) : String :=
  describeWithin draft.kind? draft.size id

end InkSyntax
