import InkSyntax.Grammar.Divert

namespace InkSyntax.Grammar

/-!
# Expressions

Operands are joined by operators of different strength: an operator takes to its
right whatever binds tighter than itself, so operators of one kind group to the
left.
-/

open Rule (attempt parse literal require)

/-- A way to write an operator. -/
structure Infix where
  spelling : String
  op : BinaryOp
  /-- The tighter an operator binds, the greater its strength. -/
  strength : Nat
  /-- A word, which needs a blank after it. -/
  isWord : Bool := false
  deriving DecidableEq, Repr

/-- All operators; a spelling stands before those that begin it. -/
def infixes : List Infix :=
  [⟨"hasnt", .hasnt, 3, true⟩, ⟨"and", .and, 1, true⟩, ⟨"has", .has, 3, true⟩,
    ⟨"mod", .modulo, 8, true⟩, ⟨"&&", .and, 1, false⟩, ⟨"||", .or, 1, false⟩,
    ⟨"or", .or, 1, true⟩, ⟨"==", .equal, 2, false⟩, ⟨">=", .greaterOrEqual, 2, false⟩,
    ⟨"<=", .lessOrEqual, 2, false⟩, ⟨"!=", .notEqual, 2, false⟩, ⟨"!?", .hasnt, 3, false⟩,
    ⟨"<", .less, 2, false⟩, ⟨">", .greater, 2, false⟩, ⟨"?", .has, 3, false⟩,
    ⟨"^", .intersect, 3, false⟩, ⟨"+", .add, 4, false⟩, ⟨"-", .subtract, 5, false⟩,
    ⟨"*", .multiply, 6, false⟩, ⟨"/", .divide, 7, false⟩, ⟨"%", .modulo, 8, false⟩]

/-- Words that name no variable. -/
def reservedWords : List String :=
  ["true", "false", "not", "return", "else", "VAR", "CONST", "temp", "LIST", "function"]

/-- An operator; an arrow is none. -/
def infixOperator : GrammarRule Infix := do
  require (!(← Rule.peek (literal "->")))
  Rule.oneOf.firstOf <| infixes.map fun candidate => do
    literal candidate.spelling
    if candidate.isWord then blanks
    return candidate

/-- What an attempt to extend an expression comes to. -/
inductive Extension where
  | grown (expression : NodeId)
  /-- An operator without a right side. -/
  | broken
  /-- No operator that binds tightly enough. -/
  | ended
  deriving DecidableEq, Repr

/-- Only an expression that grew is kept. -/
def Extension.fate : Extension → Fate
  | grown expression => .keep [expression]
  | _ => .undo

/-- The right side of an operator, joined to the left side. -/
def rightSide (left : NodeId) (operator : Infix) : GrammarRule NodeId := do
  skipBlanks
  let right ← parse (Rule.effect (.read (.expression operator.strength)))
  Rule.effect (.makeSpanning (.binary left operator.op right))

/-- Extend an expression by an operator that is stronger than a given strength. -/
def extend (weakerThan : Nat) (left : NodeId) : GrammarRule Extension :=
  Rule.scope Extension.fate do
    match ← attempt infixOperator with
    | none => return .ended
    | some operator =>
        if weakerThan < operator.strength then
          let description := s!"right side of '{operator.spelling}' expression"
          match ← attempt (Rule.expect (rightSide left operator) description) with
          | some binary => return .grown binary
          | none => return .broken
        else return .ended

/-- Operands joined by operators stronger than a given strength. -/
def expressionAbove (weakerThan : Nat) : GrammarRule NodeId := do
  skipBlanks
  let first ← parse (Rule.effect (.read .operand))
  skipBlanks
  let whole ← Rule.loop first fun left => do
    match ← extend weakerThan left with
    | .grown binary => return .inl binary
    | .broken => Rule.fail
    | .ended => return .inr left
  skipBlanks
  return whole

/-- The word `not`. -/
def notWord : GrammarRule UnaryOp := do
  require ((← name) == "not")
  return .not

/-- A single divert as a value; threads are none. -/
def divertValue : GrammarRule NodeId := do
  skipBlanks
  let divert ← parse singleDivert
  match ← kindOf divert with
  | .divert link => require (!link.isThread)
  | _ => pure ()
  skipBlanks
  make (.divertTarget divert)

/-- A number with a decimal point. -/
def floatLiteral : GrammarRule NodeId := do
  let (negative, whole, fraction) ← Rule.scan .decimalDigits
  let digits := Rule.digitsValue (whole ++ fraction)
  make (.number (.float (Binary32.ofDecimal negative digits fraction.length)))

/-- A number without a decimal point. -/
def intLiteral : GrammarRule NodeId := do make (.number (.int (← Rule.integer)))

/-- The words `true` and `false`. -/
def boolLiteral : GrammarRule NodeId := do
  match ← name with
  | "true" => make (.number (.bool true))
  | "false" => make (.number (.bool false))
  | _ => Rule.fail

/-- Whether a test holds of some node of a list. -/
def anyNode (test : NodeId → GrammarRule Bool) : List NodeId → GrammarRule Bool
  | [] => return false
  | id :: others => do
      if ← test id then return true else anyNode test others

/-- Prose between quotation marks. -/
def stringLiteral : GrammarRule NodeId := do
  literal "\""
  Rule.setFlag Flag.inString true
  let content ← attempt (parse prose)
  let _ ← attempt (Rule.expect (literal "\"") "close quote for string expression")
  Rule.setFlag Flag.inString false
  match content with
  | none => make (.string [← makeText ""])
  | some content =>
      if ← anyNode isDivert content then
        Rule.error "String expressions cannot contain diverts (->)"
      make (.string content)

/-- Whether a node is a string of plain text. -/
def isPlainString (id : NodeId) : GrammarRule Bool := do
  match ← kindOf id with
  | .string [only] =>
      match ← kindOf only with
      | .text _ => return true
      | _ => return false
  | _ => return false

/-- A literal value. -/
def literalValue : GrammarRule NodeId :=
  Rule.oneOf [floatLiteral, intLiteral, boolLiteral, stringLiteral]

/-- A name with arguments. -/
def functionCall : GrammarRule NodeId := do
  let function ← identifier
  skipBlanks
  let arguments ← parse callArguments
  make (.functionCall function arguments false)

/-- Names with points between them, the first of them not reserved. -/
def reference : GrammarRule NodeId := do
  let path ← Rule.alternate (Rule.single identifier) (Rule.dropped (spaced (literal ".")))
  let first ← match path.head? with
    | some id => identifierName id
    | none => pure ""
  require (!reservedWords.contains first)
  make (.reference path)

/-- An expression in parentheses. -/
def parenthesised : GrammarRule NodeId := do
  literal "("
  let inner ← parse expression
  skipBlanks
  let _ ← attempt (Rule.expect (literal ")") "closing parenthesis ')' for expression")
  return inner

/-- An element of a list literal, perhaps with the name of its list. -/
def listMember : GrammarRule NodeId := do
  skipBlanks
  let first ← name
  let full ←
    if ← optionalLiteral "." then
      let element ← attempt
        (Rule.expect name "element name within list definition (i.e. after the '.')")
      pure (first ++ "." ++ element.getD "")
    else pure first
  skipBlanks
  make (.identifier full)

/-- Names in parentheses, also none or one. -/
def listLiteral : GrammarRule NodeId := do
  skipBlanks
  literal "("
  skipBlanks
  let items ← attempt (Rule.separated listMember (spaced (literal ",")))
  skipBlanks
  literal ")"
  make (.listLiteral (items.getD []))

/-- An operand under a sign; the sign of a number becomes part of it. -/
def signed (op : UnaryOp) (inner : NodeId) : GrammarRule NodeId := do
  match op, ← kindOf inner with
  | .negate, .number (.int value) => make (.number (.int (-value)))
  | .negate, .number (.float value) => make (.number (.float value.negate))
  | .not, .number (.int value) => make (.number (.bool (value == 0)))
  | .not, .number (.float value) => make (.number (.bool value.isZero))
  | .not, .number (.bool value) => make (.number (.bool !value))
  | _, _ => make (.unary op inner)

/-- The names of some nodes. -/
def identifierNames : List NodeId → GrammarRule (List String)
  | [] => return []
  | id :: others => do return (← identifierName id) :: (← identifierNames others)

/-- The one identifier for a path; a path of several names gets a new one. -/
def joinedIdentifier (path : List NodeId) : GrammarRule NodeId := do
  match path with
  | [single] => return single
  | _ => make (.identifier (String.intercalate "." (← identifierNames path)))

/-- The sign before an operand, if there is one. -/
def sign : GrammarRule (Option UnaryOp) := do
  let mark ← attempt <| Rule.oneOf
    [do
      literal "-"
      return UnaryOp.negate,
    do
      literal "!"
      return UnaryOp.not]
  match mark with
  | some op => return some op
  | none => attempt (parse notWord)

/-- An operand without signs; behind a sign another signed one may stand. -/
def bareOperand (sign : Option UnaryOp) : GrammarRule NodeId := do
  let term ← attempt
    (Rule.oneOf [listLiteral, parenthesised, functionCall, reference, literalValue])
  match term, sign with
  | some value, _ => return value
  | none, some _ => parse (Rule.effect (.read .operand))
  | none, none => Rule.fail

/-- A value with the step after it, if there is one. -/
def stepAfter (value : NodeId) : GrammarRule NodeId := do
  let step ← attempt <| Rule.oneOf
    [do
      literal "++"
      return true,
    do
      literal "--"
      return false]
  match step with
  | none => return value
  | some isIncrement =>
      match ← kindOf value with
      | .reference path =>
          make (.step (← joinedIdentifier path) none isIncrement)
      | _ =>
          let shown := (← survey value).describe value
          Rule.error s!"can only increment and decrement variables, but saw '{shown}'"
          return value

/-- An operand with the signs before it and the step after it. -/
def operand : GrammarRule NodeId := do
  match ← attempt (parse divertValue) with
  | some value => return value
  | none =>
      let sign ← sign
      skipBlanks
      let bare ← bareOperand sign
      let value ← match sign with
        | some op => signed op bare
        | none => pure bare
      skipBlanks
      stepAfter value

/-- Complain about a step where a value is wanted. -/
def refuseStep (id : NodeId) : GrammarRule Unit := do
  match ← kindOf id with
  | .step .. =>
      Rule.error "Can't use increment/decrement here. It can only be used on a ~ line"
  | _ => return

end InkSyntax.Grammar
