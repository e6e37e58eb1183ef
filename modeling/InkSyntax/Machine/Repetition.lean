import InkSyntax.Machine.Rule

namespace InkSyntax

/-!
# Choice and repetition

Rules built from other rules: the first that matches, one or more, lists with
separators, two kinds of pieces in turn, and text up to a place where another
rule would match.  Each says in its comment how many scopes it opens, because
the depth of the stack is bounded.
-/

/-- What one piece of an alternation contributes. -/
inductive Step (α : Type) where
  | one (value : α)
  | many (values : List α)
  | neutral
  deriving DecidableEq, Repr

namespace Step

variable {α : Type}

/-- The contributed values in order. -/
def values : Step α → List α
  | .one value => [value]
  | .many values => values
  | .neutral => []

def isNeutral : Step α → Bool
  | .neutral => true
  | _ => false

end Step

instance : StandsFor (Step NodeId) := ⟨Step.values⟩

namespace Rule

variable {E : Type → Type 1} {α β γ : Type}

/-- The first rule that matches, each in a scope inside one scope for all. -/
def oneOf [StandsFor α] (rules : List (Rule E α)) : Rule E α :=
  parse (firstOf rules)
where
  firstOf : List (Rule E α) → Rule E α
    | [] => fail
    | rule :: others => do
        match ← attempt (parse rule) with
        | some value => return value
        | none => firstOf others

/-- As many matches as there are, each in its own scope; possibly none. -/
def zeroOrMore [StandsFor α] (rule : Rule E α) : Rule E (List α) :=
  loop [] fun found => do
    match ← attempt (parse rule) with
    | some value => return .inl (value :: found)
    | none => return .inr found.reverse

/-- At least one match, each in its own scope. -/
def oneOrMore [StandsFor α] (rule : Rule E α) : Rule E (List α) := do
  let found ← zeroOrMore rule
  if found.isEmpty then fail else return found

/-- Items with separators between them; a separator without an item after it is left.

The first item has its own scope.  Each further round is a scope around one for
the separator and one for the item. -/
def separated [StandsFor α] [StandsFor β] (item : Rule E α) (separator : Rule E β) :
    Rule E (List α) := do
  let first ← parse item
  loop [first] fun found => do
    let next ← attempt <| scope (fun _ => .keep []) do
      let _ ← parse separator
      parse item
    match next with
    | some value => return .inl (value :: found)
    | none => return .inr found.reverse

/-- One round of an alternation, from behind one outer piece to behind the next.

The round is the last one before an `inner` where `stop` would match, at the first
inner piece that fails, at an outer piece that fails, after pieces that were both
neutral, and at the end of the text. -/
def alternateRound [StandsFor (Step α)] (outer inner : Rule E (Step α)) (stop : Rule E β)
    (found : List α) : Rule E (List α ⊕ List α) := do
  if ← peek stop then return .inr found
  let some main ← attempt (parse inner) | return .inr found
  let found := found ++ main.values
  let some next ← attempt (parse outer) | return .inr found
  let found := found ++ next.values
  if main.isNeutral && next.isNeutral || (← atEnd) then return .inr found
  return .inl found

/-- Pieces `outer (inner outer)*`, stopping before an `inner` where `stop` would match.

Every piece has its own scope inside one scope for all.  Without any value the
whole fails. -/
def alternateUntil [StandsFor (Step α)] [StandsFor (List α)]
    (outer inner : Rule E (Step α)) (stop : Rule E β) : Rule E (List α) :=
  parse do
    let first ← parse outer
    let found ← loop first.values (alternateRound outer inner stop)
    if found.isEmpty then fail else return found

/-- Pieces `outer (inner outer)*`. -/
def alternate [StandsFor (Step α)] [StandsFor (List α)] (outer inner : Rule E (Step α)) :
    Rule E (List α) :=
  alternateUntil outer inner (fail : Rule E Unit)

/-- Text up to the end, to a character in `stops`, or to a place where `stop` would match.

Such a place is looked for only where a run of other characters ends; there, a
character in `pauses` is taken if `stop` would not match.  All this is one scope,
with one more for each look ahead; empty text is a failure. -/
def textUntil (stop : Rule E α) (pauses stops : Char → Bool) : Rule E String :=
  parse do
    let text ← loop [] fun (parts : List String) => do
      let parts := match ← attempt (chars fun c => !pauses c && !stops c) with
        | some part => part :: parts
        | none => parts
      if ← peek stop then return .inr parts
      match (← here).cursor.rest with
      | [] => return .inr parts
      | character :: _ =>
          if pauses character then
            let _ ← anyChar
            return .inl (character.toString :: parts)
          else
            return .inr parts
    let text := String.join text.reverse
    if text.isEmpty then fail else return text

/-- A piece that need not be there. -/
def optionally [StandsFor α] (rule : Rule E α) : Rule E (Step α) := do
  match ← attempt (parse rule) with
  | some value => return .one value
  | none => return .neutral

/-- A list of pieces that need not be there. -/
def optionallyMany [StandsFor (List α)] (rule : Rule E (List α)) : Rule E (Step α) := do
  match ← attempt (parse rule) with
  | some values => return .many values
  | none => return .neutral

/-- A piece that must be there and contributes nothing. -/
def dropped [StandsFor β] (rule : Rule E β) : Rule E (Step α) := do
  let _ ← parse rule
  return .neutral

/-- A piece that need not be there and contributes nothing. -/
def optionallyDropped [StandsFor β] (rule : Rule E β) : Rule E (Step α) := do
  let _ ← attempt (parse rule)
  return .neutral

/-- A piece that must be there. -/
def single [StandsFor α] (rule : Rule E α) : Rule E (Step α) := do return .one (← parse rule)

/-- A list of pieces that must be there. -/
def several [StandsFor (List α)] (rule : Rule E (List α)) : Rule E (Step α) := do
  return .many (← parse rule)

end Rule

end InkSyntax
