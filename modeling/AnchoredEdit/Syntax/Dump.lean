/-
`Syntax/Dump.lean` -- a subtree as indented lines, for diagnostics.

Each node gets one line: two blanks per level, its role if it has one, its kind (quoted for
punctuation and the like), and its span. A named leaf also shows its text, cut to a width; a
node whose children lie below the depth limit shows how many there are. One node is marked.
Texts are quoted, so a line break inside a leaf never breaks a line of the dump.
-/
import AnchoredEdit.Syntax.Tree
import AnchoredEdit.Text.Quoted

set_option autoImplicit false

namespace AnchoredEdit

/-- At most the first `width` characters of `t`, with three dots for what is left out. -/
def Text.truncate (t : Text) (width : Nat) : Text :=
  if width < t.length then t.take width ++ "...".toList else t

namespace Tree

variable (t : Tree)

/-- The mark at the end of the marked node's line. -/
def mark : Text :=
  "  <== anchor".toList

/-- The part of a node's line that says what the node is. -/
def headline (l : Label) : Text :=
  (match l.role with
    | some role => role.toList ++ ": ".toList
    | none => [])
  ++ (if l.named then l.kind.toList else Text.quote l.kind.toList)
  ++ ' ' :: l.span.toText.toList

/-- The part of a node's line that says what is inside: the text of a named leaf, or, at the
depth limit, the number of children. -/
def inside (width : Nat) (atLimit : Bool) (i : t.Id) : Checked Text :=
  match t.children i with
  | [] =>
    if (t.label i).named then do
      let text ← t.text i
      pure (' ' :: Text.quote (text.truncate width))
    else pure []
  | children =>
    if atLimit then
      pure (" (".toList ++ (toString children.length).toList ++ " children)".toList)
    else pure []

/-- The line of node `i`, without its line break. -/
def dumpLine (marked : t.Id) (width depth : Nat) (atLimit : Bool) (i : t.Id) :
    Checked Text := do
  let inner ← t.inside width atLimit i
  pure (List.replicate (2 * depth) ' ' ++ headline (t.label i) ++ inner
    ++ if i = marked then mark else [])

/-- The lines of `i` and of everything up to `levels` levels below it, in document order. -/
def dumpLines (marked : t.Id) (width : Nat) : (levels depth : Nat) → t.Id → Checked (List Text)
  | 0, depth, i => do
    let line ← t.dumpLine marked width depth true i
    pure [line]
  | levels + 1, depth, i => do
    let line ← t.dumpLine marked width depth false i
    let below ← (t.children i).mapM (dumpLines marked width levels (depth + 1))
    pure (line :: below.flatten)

/-- The dump of the subtree at `top`, each line ended by a line break. -/
def dump (top marked : t.Id) (levels width : Nat) : Checked Text := do
  let lines ← t.dumpLines marked width levels 0 top
  pure (lines.flatMap fun line => line ++ ['\n'])

end Tree

end AnchoredEdit
