/-
`Syntax/Search.lean` -- finding nodes by position, by rank and by kind.

Three questions are asked of a tree. *What is at this position?* `innermostAt` goes down from
the root, at each node into the first child that contains the position, and stops where no
child does; indices grow on the way, so it stops. *Which of these nodes is the closest?*
`smallestAround` takes, of the candidates that contain the position, the one with the smallest
extent, the earliest of equals. *What encloses this node?* `enclosingOfKind` climbs.
-/
import AnchoredEdit.Syntax.Tree

set_option autoImplicit false

namespace AnchoredEdit

/-- The element of a list with the smallest size, the earliest of equals. -/
def smallestBy {α : Type} (size : α → Int) : List α → Option α
  | [] => none
  | a :: rest =>
    match smallestBy size rest with
    | none => some a
    | some b => if size b < size a then some b else some a

@[simp] theorem smallestBy_nil {α : Type} (size : α → Int) :
    smallestBy size ([] : List α) = none := rfl

theorem smallestBy_eq_none_iff {α : Type} {size : α → Int} {l : List α} :
    smallestBy size l = none ↔ l = [] := by
  cases l with
  | nil => simp
  | cons a rest =>
    simp only [smallestBy, reduceCtorEq, iff_false]
    split
    · simp
    · split <;> simp

/-- Node kinds whose children form a sequence that can be reordered. -/
def sequenceKinds : List String :=
  ["arguments", "formal_parameters", "binary_expression", "ternary_expression",
    "object_pattern", "intersection_type", "union_type"]

namespace Tree

variable (t : Tree)

/-- The first child of `i` that contains the position `p`. -/
def childAt? (p : Position) (i : t.Id) : Option t.Id :=
  (t.children i).find? fun j => t.covers j p

theorem lt_of_childAt? {p : Position} {i j : t.Id} (h : t.childAt? p i = some j) : i < j :=
  t.lt_of_parent (t.mem_children.mp (List.mem_of_find?_eq_some h))

/-- Goes down from `i` as long as a child contains the position `p`. -/
def descend (p : Position) (i : t.Id) : t.Id :=
  match _h : t.childAt? p i with
  | none => i
  | some j => descend p j
termination_by t.nodes.size - i.val
decreasing_by
  have hlt : i.val < j.val := t.lt_of_childAt? _h
  omega

/-- The most specific node that contains the position `p`. -/
def innermostAt (p : Position) : Option t.Id :=
  if t.covers t.root p then some (t.descend p t.root) else none

/-- Of the candidates that contain `p`, the first one with the smallest extent. -/
def smallestAround (candidates : List t.Id) (p : Position) (weight : Nat) : Option t.Id :=
  smallestBy (fun i => (t.span i).extent weight)
    (candidates.filter fun i => t.covers i p)

/-- The nearest proper ancestor of `i` of one of the given kinds. -/
def enclosingOfKind (i : t.Id) (kinds : List String) : Option t.Id :=
  (t.ancestors i).find? fun j => kinds.contains (t.kind j)

/-- The nearest of `i` and its ancestors of one of the given kinds. -/
def nearestOfKind (i : t.Id) (kinds : List String) : Option t.Id :=
  if kinds.contains (t.kind i) then some i else t.enclosingOfKind i kinds

/-- The node with reorderable children that encloses the node at `p`. -/
def sequenceAround (p : Position) : Option t.Id :=
  (t.innermostAt p).bind fun i => t.enclosingOfKind i sequenceKinds

end Tree

end AnchoredEdit
