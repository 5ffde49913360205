/-!
# Positions and ranges

A position is a line and a byte column, both counted from zero. A range is a span of byte offsets
together with the positions of its two ends.
-/

namespace Recipe

/-- A place in a text: a line, and a column in bytes from the beginning of that line. -/
structure Position where
  line : Nat
  column : Nat
deriving DecidableEq, Repr, Inhabited

namespace Position

/-- Positions are ordered by line, then by column. -/
instance : LE Position where
  le p q := p.line < q.line ∨ p.line = q.line ∧ p.column ≤ q.column

instance : LT Position where
  lt p q := p.line < q.line ∨ p.line = q.line ∧ p.column < q.column

instance (p q : Position) : Decidable (p ≤ q) :=
  inferInstanceAs (Decidable (p.line < q.line ∨ p.line = q.line ∧ p.column ≤ q.column))

instance (p q : Position) : Decidable (p < q) :=
  inferInstanceAs (Decidable (p.line < q.line ∨ p.line = q.line ∧ p.column < q.column))

end Position

/-- The bytes from `start` up to, not including, `stop`. -/
structure Span where
  start : Nat
  stop : Nat
deriving DecidableEq, Repr, Inhabited

/-- A span and the positions of its ends. -/
structure Range where
  span : Span
  start : Position
  stop : Position
deriving DecidableEq, Repr, Inhabited

namespace Range

/-- Whether the position lies in the range, its end excluded. -/
def contains (r : Range) (p : Position) : Bool :=
  decide (r.start ≤ p) && decide (p < r.stop)

/-- Whether the position lies in the range or at its end, where a cursor stands after the last
character. -/
def touches (r : Range) (p : Position) : Bool :=
  decide (r.start ≤ p) && decide (p ≤ r.stop)

/-- Whether the two spans have a byte in common. -/
def overlaps (r s : Range) : Bool :=
  decide (r.span.start < s.span.stop) && decide (s.span.start < r.span.stop)

/-- Whether the span has no byte. -/
def isEmpty (r : Range) : Bool :=
  decide (r.span.stop ≤ r.span.start)

end Range

end Recipe
