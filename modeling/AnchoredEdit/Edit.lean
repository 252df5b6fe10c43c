/-
`Edit.lean` -- one replacement in a source.

An edit says which span of the source it replaces, what stood there, and what stands there
afterwards; it may also say where the cursor goes and what belongs on the clipboard. Applying it
turns the two ends of the span into byte offsets and splices.
-/
import AnchoredEdit.Text.Span

set_option autoImplicit false

namespace AnchoredEdit

/-- A single replacement. -/
structure Edit where
  /-- The replaced span of the source. -/
  span : Span
  /-- The text that stood there. -/
  replaced : Text
  /-- The text that stands there afterwards. -/
  replacement : Text
  /-- Where the cursor goes. -/
  cursor : Option Position := none
  /-- What belongs on the clipboard. -/
  clipboard : Option Text := none
deriving DecidableEq, Inhabited, Repr

/-- The source after the edit; none when the span does not fit the source. -/
def Edit.spliceInto? (e : Edit) (source : Text) : Option Text := do
  let start ← source.offsetOf? e.span.start
  let stop ← source.offsetOf? e.span.stop
  source.splice? start stop e.replacement

end AnchoredEdit
