namespace InkSyntax

/-!
# Places in a text

Positions count characters from zero and lines and columns from one.  A span is
the stretch between two positions.
-/

/-- A place in a text, as shown to users. -/
structure Position where
  offset : Nat := 0
  line : Nat := 0
  column : Nat := 0
  deriving DecidableEq, Repr

namespace Position

/-- Order by offset, then line, then column. -/
def le (left right : Position) : Bool :=
  decide (left.offset < right.offset) ||
    left.offset == right.offset &&
      (decide (left.line < right.line) ||
        left.line == right.line && decide (left.column ≤ right.column))

/-- The earlier of two positions. -/
def earlier (left right : Position) : Position := if left.le right then left else right

/-- The later of two positions. -/
def later (left right : Position) : Position := if left.le right then right else left

end Position

/-- The stretch of text between two positions. -/
structure Span where
  start : Position := {}
  stop : Position := {}
  deriving DecidableEq, Repr

namespace Span

/-- Whether the second span lies inside the first, by offset. -/
def contains (outer inner : Span) : Bool :=
  decide (outer.start.offset ≤ inner.start.offset) &&
    decide (inner.stop.offset ≤ outer.stop.offset)

/-- The smallest span that holds both. -/
def cover (left right : Span) : Span :=
  ⟨left.start.earlier right.start, left.stop.later right.stop⟩

/-- Written as line and column of both ends. -/
def display (span : Span) : String :=
  s!"{span.start.line}:{span.start.column}-{span.stop.line}:{span.stop.column}"

end Span

/-- The number under which a node is kept. -/
structure NodeId where
  index : Nat
  deriving DecidableEq, Repr, Hashable

namespace NodeId

/-- Written with a leading hash sign. -/
def display (id : NodeId) : String := s!"#{id.index}"

end NodeId

end InkSyntax
