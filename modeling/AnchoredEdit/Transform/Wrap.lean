/-
`Transform/Wrap.lean` -- turning a bare function reference into an arrow function.

`items.map(format)` becomes `items.map(() => format())`. From the closest reference at the
cursor the search climbs through the chains that reference is the object of, until one of them
is passed directly as an argument or is all there is in an interpolation. Whether the call
needs `?.` depends on the last accessor of the whole reference, so the reference is parsed once
more on its own.
-/
import AnchoredEdit.Edit
import AnchoredEdit.Failure
import AnchoredEdit.Syntax.Search

set_option autoImplicit false

namespace AnchoredEdit

/-- A parser gives the tree of a source, or none where it fails. -/
abbrev Parser := Variant → Text → Option Tree

namespace Wrap

open Attempt

/-- Kinds of nodes that refer to something. -/
def referenceKinds : List String :=
  ["identifier", "member_expression", "subscript_expression"]

/-- Kinds of nodes that reach into an object. -/
def chainKinds : List String :=
  ["member_expression", "subscript_expression"]

/-- Kinds of nodes that hold one interpolated expression. -/
def interpolationKinds : List String :=
  ["template_substitution", "jsx_expression"]

/-- What is written before the reference. -/
def arrow : Text :=
  "() => ".toList

variable (t : Tree)

/-- Node `i` is an argument of a call, or the only expression of an interpolation. -/
def isWrappable (i : t.Id) : Bool :=
  match t.parent i with
  | none => false
  | some parent =>
    t.kind parent = "arguments"
      || (interpolationKinds.contains (t.kind parent) && t.items parent = [i])

/-- The chain that node `i` is the object of. -/
def outerChain? (i : t.Id) : Option t.Id :=
  (t.parent i).filter fun parent =>
    chainKinds.contains (t.kind parent) && t.childInRole parent "object" = some i

theorem lt_of_outerChain? {i j : t.Id} (h : outerChain? t i = some j) : j < i :=
  t.lt_of_parent (Option.filter_eq_some_iff.mp h).1

/-- The first eligible node among `i` and the chains around it. -/
def wrappableFrom (i : t.Id) : Option t.Id :=
  if isWrappable t i then some i
  else
    match _h : outerChain? t i with
    | none => none
    | some j => wrappableFrom j
termination_by i.val
decreasing_by exact lt_of_outerChain? t _h

/-- The last accessor of the reference that `t` is the tree of is `?.`. -/
def endsOptional : Bool :=
  match (t.items t.root).head? with
  | none => false
  | some statement =>
    match (t.items statement).head? with
    | none => false
    | some expression =>
      chainKinds.contains (t.kind expression)
        && (t.children expression).any fun i => t.kind i = "optional_chain"

/-- How the reference `reference` is called. -/
def callOf (parser : Parser) (reference : Text) : Attempt Text :=
  match parser t.variant reference with
  | none => .error (.declined (Error.parse t.variant.grammar).toFailure)
  | some tree => .ok (if endsOptional tree then "?.()".toList else "()".toList)

/-- Wraps the reference at `p` in an arrow function. -/
def run (o : Overflow) (parser : Parser) (p : Position) (weight : Nat) : Attempt Edit := do
  let resolved ← need .noReference (t.smallestAround (t.allOfKind referenceKinds) p weight)
  let target ← need .notWrappable (wrappableFrom t resolved)
  let text ← ofChecked (t.text target)
  let call ← callOf t parser text
  let span := t.span target
  let cursor ← ofChecked (p.carry o span.start span.start arrow)
  pure { span, replaced := text, replacement := arrow ++ text ++ call, cursor := some cursor }

end Wrap

end AnchoredEdit
