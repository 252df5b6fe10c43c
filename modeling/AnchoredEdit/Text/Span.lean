/-
`Text/Span.lean` -- spans between two positions.

A span is half-open: its start belongs to it and its end does not, so two spans that share
an end point never share a position. Spans arrive from outside and need not be in order; a
span whose end is not after its start contains nothing.

Overlapping spans are ranked by `extent`, the number of lines times a weight plus the
difference of the columns. It is a signed 64-bit quantity: the weight is read as such a
number, and so is the sum. With a weight above every column, more lines always outweigh
fewer, which is what makes the smallest span around a position the innermost one.
-/
import AnchoredEdit.Text.Position

set_option autoImplicit false

namespace AnchoredEdit

/-- The positions from `start` on, up to and without `stop`. -/
structure Span where
  start : Position
  stop : Position
deriving DecidableEq, Inhabited, Repr

namespace Span

/-- The position `p` lies in the span. -/
def contains (s : Span) (p : Position) : Bool :=
  s.start ≤ p && p < s.stop

@[simp] theorem contains_iff {s : Span} {p : Position} :
    s.contains p = true ↔ s.start ≤ p ∧ p < s.stop := by
  simp [contains]

/-- A span that contains a position ends on its first line or below it. -/
theorem line_le_of_contains {s : Span} {p : Position} (h : s.contains p = true) :
    s.start.line ≤ s.stop.line := by
  rw [contains_iff, Position.le_def, Position.lt_def] at h
  omega

/-- The rank of a span among overlapping ones: lines count `weight` each, columns one. -/
def extent (s : Span) (weight : Nat) : Int :=
  let lines : Int := s.stop.line - s.start.line
  let columns : Int := s.stop.column - s.start.column
  signed64 (lines * signed64 weight + columns)

/-- The span as `line:column-line:column`. -/
def toText (s : Span) : String :=
  s.start.toText ++ "-" ++ s.stop.toText

end Span

end AnchoredEdit
