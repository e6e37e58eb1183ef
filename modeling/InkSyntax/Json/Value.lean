namespace InkSyntax

/-!
# Structured values

The values that the data format JSON can write.  A number keeps the text it is
written with, and an object the order of its fields.
-/

/-- A structured value. -/
inductive JsonValue where
  | null
  | bool (value : Bool)
  | number (written : String)
  | text (value : String)
  | list (elements : List JsonValue)
  | object (fields : List (String × JsonValue))
  deriving Repr, Inhabited

namespace JsonValue

/-- A natural number. -/
def ofNat (value : Nat) : JsonValue := .number (toString value)

/-- An integer. -/
def ofInt (value : Int) : JsonValue := .number (toString value)

/-- A value that may be missing. -/
def ofOption {α : Type} (encode : α → JsonValue) : Option α → JsonValue
  | some value => encode value
  | none => .null

/-- A list of values of one kind. -/
def ofList {α : Type} (encode : α → JsonValue) (values : List α) : JsonValue :=
  .list (values.map encode)

end JsonValue

end InkSyntax
