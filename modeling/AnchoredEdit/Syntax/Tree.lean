/-
`Syntax/Tree.lean` -- parse trees as arenas in document order.

A parser hands over its tree as rows, one for each node, in pre-order, each with its depth.
The arena keeps one node per row at the index of that row and adds the one link the rows do
not spell out, the parent. While the rows are read, the path of open ancestors is carried
along, innermost first: a row of depth `d` keeps the outermost `d` of them, and the first one
kept is its parent. A parent therefore always has a smaller index than its child, and that is
the invariant the type carries: it bounds every index, and it makes every climb end.

Children are read off the parent links: the children of a node are the nodes whose parent it
is, in index order, which is document order.
-/
import AnchoredEdit.Language
import AnchoredEdit.Syntax.Fault

set_option autoImplicit false

namespace AnchoredEdit

/-! ## 1. Rows and nodes -/

/-- What a parser says of one node, apart from its place in the tree. -/
structure Label where
  /-- The grammar's name for this sort of node, such as `arguments` or `,`. -/
  kind : String
  /-- False for punctuation, operators and keywords. -/
  named : Bool
  /-- The role of the node within its parent. -/
  role : Option String
  span : Span
  startByte : Nat
  endByte : Nat
deriving DecidableEq, Inhabited, Repr

/-- One row of a parse: a node and the number of its ancestors. -/
structure Row where
  depth : Nat
  label : Label
deriving DecidableEq, Inhabited, Repr

/-- One node of an arena: its label and the index of its parent. -/
structure Node where
  label : Label
  parent : Option Nat
deriving DecidableEq, Inhabited, Repr

/-! ## 2. Linking rows -/

/-- Links each row to its parent. `path` holds the indices of the previous row and its
ancestors, innermost first, and `next` is the index of the next row. -/
def Row.link (path : List Nat) (next : Nat) : List Row → List Node
  | [] => []
  | row :: rest =>
    let kept := path.drop (path.length - row.depth)
    ⟨row.label, kept.head?⟩ :: Row.link (next :: kept) (next + 1) rest

@[simp] theorem Row.length_link (path : List Nat) (next : Nat) (rows : List Row) :
    (Row.link path next rows).length = rows.length := by
  induction rows generalizing path next with
  | nil => rfl
  | cons row rest ih => simp [Row.link, ih]

/-- **A parent comes before its child**: as long as everything on the path is before the next
row, every link points back. -/
theorem Row.parent_lt_of_link {path : List Nat} {next : Nat} (rows : List Row)
    (hpath : ∀ i ∈ path, i < next) (k : Nat) (node : Node) (p : Nat)
    (hk : (Row.link path next rows)[k]? = some node) (hp : node.parent = some p) :
    p < next + k := by
  induction rows generalizing path next k with
  | nil => simp [Row.link] at hk
  | cons row rest ih =>
    have hkept : ∀ i ∈ path.drop (path.length - row.depth), i < next :=
      fun i hi => hpath i (List.mem_of_mem_drop hi)
    cases k with
    | zero =>
      simp only [Row.link, List.getElem?_cons_zero, Option.some.injEq] at hk
      subst hk
      exact hkept p (List.mem_of_mem_head? (by simpa using hp))
    | succ k =>
      simp only [Row.link, List.getElem?_cons_succ] at hk
      have hcons : ∀ i ∈ next :: path.drop (path.length - row.depth), i < next + 1 := by
        intro i hi
        rcases List.mem_cons.mp hi with rfl | hi
        · omega
        · exact Nat.lt_succ_of_lt (hkept i hi)
      have := ih hcons k hk
      omega

/-! ## 3. Trees -/

/-- A parsed source: at least the root, and every parent before its children. -/
structure Tree where
  source : Text
  variant : Variant
  nodes : Array Node
  nonempty : 0 < nodes.size
  parent_lt : ∀ (i : Nat) (h : i < nodes.size) (p : Nat), nodes[i].parent = some p → p < i

namespace Tree

/-- A node of `t`, as its index. -/
abbrev Id (t : Tree) := Fin t.nodes.size

/-- The tree that the rows of a parse describe. -/
def ofRows? (source : Text) (variant : Variant) (rows : List Row) : Option Tree :=
  if h : rows = [] then none
  else some {
    source, variant
    nodes := (Row.link [] 0 rows).toArray
    nonempty := by
      rw [List.size_toArray, Row.length_link]
      exact List.length_pos_iff.mpr h
    parent_lt := by
      intro i hi p hp
      have hi' : i < (Row.link [] 0 rows).length := by simpa using hi
      have := Row.parent_lt_of_link rows (by simp) i _ p (List.getElem?_eq_getElem hi')
        (by simpa using hp)
      omega }

variable (t : Tree)

/-- The first node in document order. -/
def root : t.Id :=
  ⟨0, t.nonempty⟩

/-- All nodes in document order. -/
def ids : List t.Id :=
  List.finRange t.nodes.size

/-- What the parser says of node `i`. -/
def label (i : t.Id) : Label :=
  t.nodes[i].label

/-- The grammar's name for node `i`. -/
def kind (i : t.Id) : String :=
  (t.label i).kind

/-- The positions that node `i` covers. -/
def span (i : t.Id) : Span :=
  (t.label i).span

/-- The node directly above `i`. -/
def parent (i : t.Id) : Option t.Id :=
  match h : t.nodes[i].parent with
  | none => none
  | some p => some ⟨p, Nat.lt_trans (t.parent_lt i i.isLt p h) i.isLt⟩

/-- **Links point back.** -/
theorem lt_of_parent {i p : t.Id} (h : t.parent i = some p) : p < i := by
  unfold parent at h
  split at h
  · cases h
  · next q hq =>
    cases h
    exact t.parent_lt i i.isLt q hq

/-- The nodes directly below `i`, in document order. -/
def children (i : t.Id) : List t.Id :=
  t.ids.filter fun j => t.parent j = some i

@[simp] theorem mem_children {i j : t.Id} : j ∈ t.children i ↔ t.parent j = some i := by
  simp [children, ids]

/-- The proper ancestors of `i`, innermost first. -/
def ancestors (i : t.Id) : List t.Id :=
  match _h : t.parent i with
  | none => []
  | some p => p :: ancestors p
termination_by i.val
decreasing_by exact t.lt_of_parent _h

/-! ## 4. Texts and roles -/

/-- The source text that node `i` covers. -/
def text (i : t.Id) : Checked Text :=
  t.source.slice (t.label i).startByte (t.label i).endByte

/-- The source text from the end of node `i` to the start of node `j`. -/
def textBetween (i j : t.Id) : Checked Text :=
  t.source.slice (t.label i).endByte (t.label j).startByte

/-- The source text from the start of node `i` to the start of node `j`. -/
def textBefore (i j : t.Id) : Checked Text :=
  t.source.slice (t.label i).startByte (t.label j).startByte

/-- The source text from the start of node `i` to the end of node `j`. -/
def textThrough (i j : t.Id) : Checked Text :=
  t.source.slice (t.label i).startByte (t.label j).endByte

/-- Node `i` contains the position `p`. -/
def covers (i : t.Id) (p : Position) : Bool :=
  (t.span i).contains p

/-- The first child of `i` that plays the role `role`. -/
def childInRole (i : t.Id) (role : String) : Option t.Id :=
  (t.children i).find? fun j => (t.label j).role = some role

/-- The node is a comment, which no list counts among its items. -/
def isComment (i : t.Id) : Bool :=
  t.kind i = "comment"

/-- The children of `i` other than comments, punctuation and operators included. -/
def parts (i : t.Id) : List t.Id :=
  (t.children i).filter fun j => !t.isComment j

/-- The named children of `i` other than comments: the items of a list. -/
def items (i : t.Id) : List t.Id :=
  (t.children i).filter fun j => (t.label j).named && !t.isComment j

/-- All nodes of one of the given kinds, in document order. -/
def allOfKind (kinds : List String) : List t.Id :=
  t.ids.filter fun i => kinds.contains (t.kind i)

end Tree

end AnchoredEdit
