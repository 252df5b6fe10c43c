/-
`Syntax/Descriptor.lean` -- nodes described by value, and anchors.

Two parses of one text share no node identity, so a node captured earlier is described by what
can be read off it: its span, its text, its kind, and where the cursor stood. Matching such a
description against a tree is `locate`. The span is the key. Nodes that share a span share
their text, so one look at the text tells whether the description is stale; several nodes on
one span are told apart by kind, and only a single survivor counts.

An anchor is where an edit should act: a description of a node, or just a position.
-/
import AnchoredEdit.Syntax.Search

set_option autoImplicit false

namespace AnchoredEdit

/-! ## 1. Descriptions -/

/-- A node described by value. -/
structure Descriptor where
  span : Span
  text : Text
  kind : String
  cursor : Option Position
deriving DecidableEq, Inhabited, Repr

namespace Tree

variable (t : Tree)

/-- The description of node `i`, with the cursor where it stands. -/
def describe (i : t.Id) (cursor : Option Position) : Checked Descriptor := do
  let text ← t.text i
  pure ⟨t.span i, text, t.kind i, cursor⟩

/-- The nodes that cover exactly the span `s`. -/
def nodesOn (s : Span) : List t.Id :=
  t.ids.filter fun i => t.span i = s

/-- The node of the tree that the description `d` refers to. -/
def locate (d : Descriptor) : Checked (Option t.Id) :=
  match t.nodesOn d.span with
  | [] => pure none
  | first :: rest => do
    let text ← t.text first
    if text ≠ d.text then pure none
    -- A node that is alone on its span is taken whatever its kind.
    else if rest = [] then pure (some first)
    else
      match (first :: rest).filter fun i => t.kind i = d.kind with
      | [only] => pure (some only)
      | _ => pure none

end Tree

/-! ## 2. Anchors -/

/-- Where an edit should act. -/
inductive Anchor where
  /-- A node captured earlier, perhaps from another parse. -/
  | node (d : Descriptor)
  /-- A cursor position. -/
  | point (p : Position)
deriving DecidableEq, Inhabited, Repr

namespace Anchor

/-- The cursor position an anchor stands for: without a recorded cursor, the start of the
described node. -/
def position : Anchor → Position
  | point p => p
  | node d => d.cursor.getD d.span.start

/-- The node of `t` that the anchor designates. -/
def node? (a : Anchor) (t : Tree) : Checked (Option t.Id) :=
  match a with
  | point p => pure (t.innermostAt p)
  | node d => t.locate d

end Anchor

end AnchoredEdit
