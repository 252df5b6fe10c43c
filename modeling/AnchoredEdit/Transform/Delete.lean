/-
`Transform/Delete.lean` -- deleting the function or the markup element around the anchor.

Both leave the cursor where the deleted text started. A deleted element is handed back for the
clipboard as well.
-/
import AnchoredEdit.Edit
import AnchoredEdit.Failure
import AnchoredEdit.Syntax.Descriptor

set_option autoImplicit false

namespace AnchoredEdit

namespace Delete

open Attempt

/-- Kinds of nodes that declare a function. -/
def functionKinds : List String :=
  ["function_declaration", "generator_function_declaration"]

/-- Kinds of nodes that are markup elements. -/
def elementKinds : List String :=
  ["jsx_element", "jsx_self_closing_element", "jsx_fragment"]

variable (t : Tree)

/-- The declaration to delete. At a position it is the closest one; for a captured node it is
the nearest one at or above the node. -/
def functionAt (anchor : Anchor) (weight : Nat) : Checked (Option t.Id) :=
  match anchor with
  | .point p => pure (t.smallestAround (t.allOfKind functionKinds) p weight)
  | .node d => do
    let found ← t.locate d
    pure (found.bind fun i => t.nearestOfKind i functionKinds)

/-- Deletes the innermost function declaration at the anchor. -/
def function (anchor : Anchor) (weight : Nat) : Attempt Edit := do
  let found ← ofChecked (functionAt t anchor weight)
  let target ← need .noFunction found
  let text ← ofChecked (t.text target)
  let span := t.span target
  pure { span, replaced := text, replacement := [], cursor := some span.start }

/-- Deletes the innermost markup element around the anchor. -/
def element (anchor : Anchor) : Attempt Edit := do
  let found ← ofChecked (anchor.node? t)
  let start ← need .noNode found
  let tag ← need .noMarkup (t.nearestOfKind start elementKinds)
  let text ← ofChecked (t.text tag)
  let span := t.span tag
  pure {
    span, replaced := text, replacement := []
    cursor := some span.start, clipboard := some text }

end Delete

end AnchoredEdit
