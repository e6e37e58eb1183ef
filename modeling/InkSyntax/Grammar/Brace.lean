import InkSyntax.Grammar.Conditional

namespace InkSyntax.Grammar

/-!
# Logic in braces

Braces in prose hold a sequence, a conditional or an expression.  An annotation
or a condition settles which; otherwise the first kind that reaches up to the
closing brace is taken.
-/

open Rule (attempt parse literal)

/-- A sequence whose type is given. -/
def annotatedSequence (type : SequenceType) : GrammarRule NodeId := do
  let found ← Rule.expect alternatives "sequence elements (for cycle/stoping etc)"
  make (.sequence type found)

/-- A conditional whose subject was read. -/
def conditionalOn (subject : NodeId) : GrammarRule NodeId := do
  let found ← Rule.expect (branches (some subject)) "conditional content following query"
  make (.conditional (some subject) found)

/-- A rule that must reach up to a closing brace. -/
def upToBrace (rule : GrammarRule NodeId) : GrammarRule NodeId := do
  let found ← parse rule
  Rule.ahead (spaced (literal "\x7d"))
  return found

/-- What stands inside braces. -/
def braceContent : GrammarRule NodeId := do
  skipBlanks
  match ← attempt (parse sequenceAnnotation) with
  | some type => annotatedSequence type
  | none =>
      match ← attempt (parse condition) with
      | some subject => conditionalOn subject
      | none =>
          Rule.oneOf.firstOf ([conditional, unannotatedSequence, expression].map upToBrace)

/-- A node as a content list. -/
def asContentList (id : NodeId) : GrammarRule NodeId := do
  match ← kindOf id with
  | .contentList _ => return id
  | _ => make (.contentList [id])

/-- Put nodes at the end of a content list. -/
def appendTo (list : NodeId) : List NodeId → GrammarRule Unit
  | [] => return
  | id :: others => do
      amend list (.append id)
      appendTo list others

/-- Logic in braces; neither a string nor a tag begun inside goes on outside. -/
def braces : GrammarRule NodeId := do
  literal "\x7b"
  let inString ← Rule.hasFlag Flag.inString
  let tagOpen ← Rule.hasFlag Flag.tagOpen
  skipBlanks
  let found ← attempt <| Rule.expect braceContent
    "some kind of logic, conditional or sequence within braces: \x7b ... \x7d"
  match found with
  | none =>
      Rule.setFlag Flag.inString inString
      Rule.fail
  | some logic =>
      refuseStep logic
      let list ← asContentList logic
      skipBlanks
      let _ ← attempt
        (Rule.expect (literal "\x7d") "closing brace '\x7d' for inline logic")
      Rule.setFlag Flag.inString inString
      if !tagOpen then appendTo list (← closeTag)
      return list

/-- Text, logic in braces, glue and tags, with diverts at the end. -/
def mixedProse : GrammarRule (List NodeId) := proseOf braces

end InkSyntax.Grammar
