import InkSyntax.Grammar.Argument

namespace InkSyntax.Grammar

/-!
# Diverts, tunnels and threads

A chain of arrows and targets ends a line of text or a choice.  A target that
another arrow follows is a tunnel, a double arrow leads out of a tunnel, and an
arrow alone marks the fallback among choices.
-/

open Rule (attempt parse literal)

/-- One or two arrows in a row. -/
inductive Arrow where
  | plain
  | onwards
  deriving DecidableEq, Repr

/-- A link of a chain. -/
inductive Link where
  | arrow (arrow : Arrow)
  | target (divert : NodeId)
  deriving DecidableEq, Repr

/-- End the tag that is open, if any; gives the end marker. -/
def closeTag : GrammarRule (List NodeId) := do
  if ← Rule.hasFlag Flag.tagOpen then
    let marker ← make (.tag false)
    Rule.setFlag Flag.tagOpen false
    return [marker]
  else return []

/-- A run of arrows; more than two are too many. -/
def arrow : GrammarRule Arrow := do
  let count ← Rule.loop 0 fun count => do
    if ← optionalLiteral "->" then return .inl (count + 1) else return .inr count
  match count with
  | 0 => Rule.fail
  | 1 => return .plain
  | 2 => return .onwards
  | _ =>
      Rule.error "Unexpected number of arrows in divert. Should only have '->' or '->->'"
      return .onwards

/-- Names with points between them, blanks allowed. -/
def targetPath : GrammarRule (List NodeId) :=
  Rule.alternate (Rule.single (spaced identifier)) (Rule.dropped (literal "."))

/-- Where a divert leads, with arguments. -/
def target : GrammarRule NodeId := do
  skipBlanks
  let components ← parse targetPath
  skipBlanks
  let arguments ← attempt (parse callArguments)
  skipBlanks
  let path ← Rule.effect (.makeSpanning (.path components))
  make (.divert { target := some path, arguments := arguments.getD [] })

/-- A reversed arrow and a target. -/
def thread : GrammarRule NodeId := do
  skipBlanks
  literal "<-"
  skipBlanks
  let divert ← Rule.expectOr target "target for new thread" (make (.divert {}))
  amend divert .thread
  return divert

/-- The nodes of a chain, from some link on. -/
def chain (isFirst : Bool) : List Link → GrammarRule (List NodeId)
  | [] => return []
  | .arrow .onwards :: rest => do
      if !isFirst && 1 < rest.length then
        Rule.error "Tunnel onwards '->->' must only come at the beginning or the end of a divert"
      let after := match rest with
        | .target divert :: _ => some divert
        | _ => none
      return [← make (.tunnelOnwards after)]
  | .arrow .plain :: rest => chain false rest
  | .target divert :: rest => do
      if !rest.isEmpty then amend divert .tunnel
      return divert :: (← chain false rest)

/-- A thread, or a chain of diverts. -/
def diverts : GrammarRule (List NodeId) := do
  skipBlanks
  match ← attempt (parse thread) with
  | some divert => return [divert]
  | none =>
      let links ← Rule.alternate
        (do return .one (.arrow (← arrow)))
        (do return .one (.target (← parse target)))
      let markers ← closeTag
      let nodes ← chain true links
      if nodes.isEmpty && links.length == 1 then
        let empty ← make (.divert { isEmpty := true })
        if !(← Rule.effect .isInChoice) then
          Rule.error "Empty diverts (->) are only valid on choices"
        return markers ++ [empty]
      else return markers ++ nodes

/-- Whether a node is a divert. -/
def isDivert (id : NodeId) : GrammarRule Bool := do
  match ← kindOf id with
  | .divert _ => return true
  | _ => return false

/-- Exactly one divert that is no tunnel. -/
def singleDivert : GrammarRule NodeId := do
  match ← parse diverts with
  | [divert] =>
      match ← kindOf divert with
      | .divert link => if link.isTunnel then Rule.fail else return divert
      | _ => Rule.fail
  | _ => Rule.fail

end InkSyntax.Grammar
