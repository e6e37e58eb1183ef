import InkSyntax.Story.Location

namespace InkSyntax

/-!
# Cursors

A cursor is a place in a text together with the text that follows it.  Its line
and column count from zero; only a line feed ends a line.
-/

/-- A place in a text and what is still to be read there. -/
structure Cursor where
  offset : Nat := 0
  line : Nat := 0
  column : Nat := 0
  rest : List Char := []
  deriving DecidableEq, Repr

namespace Cursor

/-- The beginning of a text. -/
def atStart (text : List Char) : Cursor := { rest := text }

/-- Move over one character, which is the first of `rest` with `rest` to follow. -/
def past (cursor : Cursor) (character : Char) (rest : List Char) : Cursor :=
  if character = '\n' then ⟨cursor.offset + 1, cursor.line + 1, 0, rest⟩
  else ⟨cursor.offset + 1, cursor.line, cursor.column + 1, rest⟩

/-- Move over some characters, at most to the end of the text. -/
def advance (cursor : Cursor) : Nat → Cursor
  | 0 => cursor
  | count + 1 =>
      match cursor.rest with
      | [] => cursor
      | character :: rest => advance (cursor.past character rest) count

def atEnd (cursor : Cursor) : Bool := cursor.rest.isEmpty

/-- The place as users see it. -/
def position (cursor : Cursor) : Position :=
  ⟨cursor.offset, cursor.line + 1, cursor.column + 1⟩

/-- What follows up to, and without, the next line break. -/
def lineRemainder (cursor : Cursor) : String :=
  String.ofList (cursor.rest.takeWhile fun character => character != '\n' && character != '\r')

end Cursor

/-- The span between two cursors. -/
def Span.between (start stop : Cursor) : Span := ⟨start.position, stop.position⟩

/-- The part of a text between two offsets; empty when they are inverted. -/
def sliceBetween (text : List Char) (start stop : Nat) : List Char := (text.take stop).drop start

end InkSyntax
