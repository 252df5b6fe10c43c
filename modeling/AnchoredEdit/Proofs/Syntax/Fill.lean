/-
`Proofs/Syntax/Fill.lean` -- filling an arena along a cursor.

A cursor goes to the first child of a node, to its next sibling and to its parent. Going through a
whole tree that way, the arena is filled node by node: a node is pushed, its index goes to the
children of its parent, and a stack holds the indices of the ancestors of the cursor. Where there is
no way down, the cursor climbs until there is a way to the side, and the stack shrinks with it.

The invariant relates the three. The cells filled so far are those of the nodes laid out so far;
the stack holds indices of such nodes; and what is still to come is what is below the cursor, next
to it and next to its ancestors, hanging from the indices on the stack. Each move leaves less to
come, so the walk ends.
-/
import AnchoredEdit.Proofs.Syntax.Forest

set_option autoImplicit false

namespace AnchoredEdit

open Forest

/-! ## 1. Cells -/

/-- A node while the arena is filled: what it says of itself, and the indices of its parent and of
the children found so far. -/
structure Cell where
  label : Label
  parent : Option Nat
  children : List Nat
deriving DecidableEq, Inhabited, Repr

namespace Cell

/-- The cell with one more child. -/
def adopt (id : Nat) (cell : Cell) : Cell :=
  { cell with children := cell.children ++ [id] }

/-- Pushes a node, and its index to the children of its parent. -/
def push (arena : List Cell) (label : Label) (parent : Option Nat) : List Cell :=
  let filled := arena ++ [⟨label, parent, []⟩]
  match parent with
  | none => filled
  | some p => filled.modify p (adopt arena.length)

/-- The cells that nodes with links to their parents make. -/
def ofNodes (l : List Node) : List Cell :=
  l.mapIdx fun i node => ⟨node.label, node.parent, linksTo i 0 l⟩

/-- Links point back. -/
def LinksBack (l : List Node) : Prop :=
  ∀ node ∈ l, ∀ p, node.parent = some p → p < l.length

theorem LinksBack.push {l : List Node} {node : Node} (h : LinksBack l)
    (hnode : ∀ p, node.parent = some p → p < l.length) : LinksBack (l ++ [node]) := by
  intro other hother p hp
  rw [List.length_append, List.length_singleton]
  rcases List.mem_append.mp hother with hother | hother
  · exact Nat.lt_succ_of_lt (h other hother p hp)
  · rw [List.mem_singleton.mp hother] at hp
    exact Nat.lt_succ_of_lt (hnode p hp)

theorem linksTo_eq_nil_of_forall {l : List Node} {i : Nat}
    (h : ∀ node ∈ l, node.parent ≠ some i) (start : Nat) : linksTo i start l = [] := by
  induction l generalizing start with
  | nil => rfl
  | cons node l ih =>
    rw [linksTo, if_neg (h node List.mem_cons_self)]
    exact ih (fun other hother => h other (List.mem_cons_of_mem _ hother)) (start + 1)

theorem linksTo_push (i : Nat) (l : List Node) (label : Label) (parent : Option Nat) :
    linksTo i 0 (l ++ [⟨label, parent⟩])
      = linksTo i 0 l ++ if parent = some i then [l.length] else [] := by
  rw [linksTo_append, Nat.zero_add]
  rfl

@[simp] theorem length_ofNodes (l : List Node) : (ofNodes l).length = l.length :=
  List.length_mapIdx

/-- The cells of the nodes so far when a node is added: it goes to the children of its parent, and
it has no children itself. -/
theorem ofNodes_append {l : List Node} {label : Label} {parent : Option Nat}
    (hback : LinksBack l) (hparent : ∀ p, parent = some p → p < l.length) :
    ofNodes (l ++ [⟨label, parent⟩])
      = (l.mapIdx fun i node => ⟨node.label, node.parent,
          linksTo i 0 l ++ if parent = some i then [l.length] else []⟩)
        ++ [⟨label, parent, []⟩] := by
  have hnone : linksTo l.length 0 l = [] := by
    apply linksTo_eq_nil_of_forall
    intro node hnode heq
    exact Nat.lt_irrefl _ (hback node hnode _ heq)
  have hself : parent ≠ some l.length := by
    intro heq
    exact Nat.lt_irrefl _ (hparent _ heq)
  rw [ofNodes, List.mapIdx_append]
  simp only [List.mapIdx_singleton, Nat.zero_add, linksTo_push, hnone, if_neg hself,
    List.append_nil]

/-- **Pushing a node gives the cells with the node.** -/
theorem push_ofNodes {l : List Node} {label : Label} {parent : Option Nat}
    (hback : LinksBack l) (hparent : ∀ p, parent = some p → p < l.length) :
    push (ofNodes l) label parent = ofNodes (l ++ [⟨label, parent⟩]) := by
  rw [ofNodes_append hback hparent]
  cases parent with
  | none => simp [push, ofNodes]
  | some p =>
    have hlt := hparent p rfl
    apply List.ext_getElem
    · simp [push]
    · -- Only the cell of the parent changes, and the parent is not the node itself.
      intro k hk hk'
      simp only [push, List.getElem_modify, length_ofNodes]
      by_cases hkl : k < l.length
      · rw [List.getElem_append_left (by rw [length_ofNodes]; exact hkl),
          List.getElem_append_left (by rw [List.length_mapIdx]; exact hkl)]
        by_cases hpk : p = k
        · simp [hpk, ofNodes, adopt]
        · simp [hpk, ofNodes]
      · have hpk : p ≠ k := by omega
        rw [if_neg hpk, List.getElem_append_right (by rw [length_ofNodes]; omega),
          List.getElem_append_right (by rw [List.length_mapIdx]; omega)]
        simp

end Cell

/-! ## 2. The walk -/

/-- A node, with what is below it and next to it. -/
structure Spot where
  label : Label
  below : Forest
  next : Forest

/-- A cursor on a node, with its ancestors, innermost first. -/
structure Cursor where
  here : Spot
  above : List Spot

namespace Cursor

/-- The cursor on the root of a tree. -/
def top (label : Label) (below : Forest) : Cursor :=
  ⟨⟨label, below, .nil⟩, []⟩

/-- Goes to the first child. -/
def firstChild? (c : Cursor) : Option Cursor :=
  match c.here.below with
  | .nil => none
  | .cons label below next => some ⟨⟨label, below, next⟩, c.here :: c.above⟩

/-- Goes to the next sibling. -/
def nextSibling? (c : Cursor) : Option Cursor :=
  match c.here.next with
  | .nil => none
  | .cons label below next => some ⟨⟨label, below, next⟩, c.above⟩

/-- Goes to the parent. -/
def parent? (c : Cursor) : Option Cursor :=
  match c.above with
  | [] => none
  | spot :: above => some ⟨spot, above⟩

/-- The number of nodes next to the given ones. -/
def sizeBeside : List Spot → Nat
  | [] => 0
  | spot :: above => spot.next.size + sizeBeside above

/-- The number of nodes next to the cursor and next to its ancestors. -/
def beyond (c : Cursor) : Nat :=
  c.here.next.size + sizeBeside c.above

/-- The number of nodes that the cursor has yet to come to. -/
def ahead (c : Cursor) : Nat :=
  c.here.below.size + c.beyond

variable {c c' : Cursor}

theorem ahead_lt_of_firstChild? (h : c.firstChild? = some c') : c'.ahead < c.ahead := by
  unfold firstChild? at h
  split at h
  · cases h
  · next label below next hbelow =>
    cases h
    simp only [ahead, beyond, hbelow, Forest.size, sizeBeside]
    omega

theorem ahead_lt_of_nextSibling? (h : c.nextSibling? = some c') : c'.ahead < c.beyond := by
  unfold nextSibling? at h
  split at h
  · cases h
  · next label below next hnext =>
    cases h
    simp only [ahead, beyond, hnext, Forest.size]
    omega

theorem above_of_parent? (h : c.parent? = some c') : c.above = c'.here :: c'.above := by
  unfold parent? at h
  split at h
  · cases h
  · next spot above habove =>
    cases h
    exact habove

/-- Climbs to the nearest node that has a next sibling and goes there. The stack loses one index for
each parent. -/
def climb (c : Cursor) (stack : List Nat) : Option (Cursor × List Nat) :=
  match c.nextSibling? with
  | some c' => some (c', stack)
  | none =>
    match _h : c.parent? with
    | none => none
    | some c' => climb c' stack.tail
termination_by c.above.length
decreasing_by
  rw [above_of_parent? _h]
  exact Nat.lt_succ_self _

theorem climb_of_nextSibling? {stack : List Nat} (h : c.nextSibling? = some c') :
    c.climb stack = some (c', stack) := by
  rw [climb, h]

theorem climb_of_top {stack : List Nat} (hsibling : c.nextSibling? = none)
    (hparent : c.parent? = none) : c.climb stack = none := by
  rw [climb, hsibling]
  dsimp only
  split
  · rfl
  · next p hp =>
    rw [hparent] at hp
    cases hp

theorem climb_of_parent? {stack : List Nat} (hsibling : c.nextSibling? = none)
    (hparent : c.parent? = some c') : c.climb stack = c'.climb stack.tail := by
  rw [climb, hsibling]
  dsimp only
  split
  · next hp =>
    rw [hparent] at hp
    cases hp
  · next p hp =>
    rw [hparent] at hp
    cases hp
    rfl

/-- Climbing leaves fewer nodes to come to. -/
theorem ahead_lt_of_climb {stack stack' : List Nat} (h : c.climb stack = some (c', stack')) :
    c'.ahead < c.beyond := by
  induction c, stack using climb.induct with
  | case1 c stack sibling hsibling =>
    rw [climb_of_nextSibling? hsibling] at h
    cases h
    exact ahead_lt_of_nextSibling? hsibling
  | case2 c stack hsibling hparent =>
    rw [climb_of_top hsibling hparent] at h
    cases h
  | case3 c stack hsibling parent hparent ih =>
    rw [climb_of_parent? hsibling hparent] at h
    have hlt := ih h
    have hbeyond : c.beyond = c.here.next.size + parent.beyond := by
      rw [beyond, above_of_parent? hparent, sizeBeside, beyond]
    omega

/-- Fills the arena from the cursor on. The stack holds the indices of the ancestors of the cursor,
innermost first. -/
def fill (arena : List Cell) (stack : List Nat) (c : Cursor) : List Cell :=
  let filled := Cell.push arena c.here.label stack.head?
  match _h : c.firstChild? with
  | some c' => fill filled (arena.length :: stack) c'
  | none =>
    match _h' : c.climb stack with
    | none => filled
    | some (c', stack') => fill filled stack' c'
termination_by c.ahead
decreasing_by
  · exact ahead_lt_of_firstChild? _h
  · exact Nat.lt_of_lt_of_le (ahead_lt_of_climb _h') (Nat.le_add_left _ _)

/-! ## 3. The invariant -/

/-- What a cursor has yet to come to, laid out from `start` on: the given trees next to it, and what
is next to its ancestors. -/
def nodesBeyond : List Nat → Nat → Forest → List Spot → List Node
  | stack, start, next, [] => next.nodes stack.head? start
  | stack, start, next, spot :: above =>
    next.nodes stack.head? start ++ nodesBeyond stack.tail (start + next.size) spot.next above

theorem nodesBeyond_cons (stack : List Nat) (start : Nat) (label : Label) (below next : Forest)
    (above : List Spot) : nodesBeyond stack start (.cons label below next) above
      = ⟨label, stack.head?⟩ :: (below.nodes (some start) (start + 1)
        ++ nodesBeyond stack (start + 1 + below.size) next above) := by
  have hend : start + (1 + below.size + next.size) = start + 1 + below.size + next.size := by omega
  cases above with
  | nil => rw [nodesBeyond, nodesBeyond, nodes_cons]
  | cons spot above =>
    rw [nodesBeyond, nodesBeyond, nodes_cons, Forest.size, hend, List.cons_append,
      List.append_assoc]

/-- The node under the cursor and what the cursor has yet to come to, laid out from `start` on. -/
def nodes (c : Cursor) (stack : List Nat) (start : Nat) : List Node :=
  nodesBeyond stack start (.cons c.here.label c.here.below c.here.next) c.above

theorem next_of_nextSibling? (h : c.nextSibling? = some c') :
    c.here.next = .cons c'.here.label c'.here.below c'.here.next ∧ c.above = c'.above := by
  unfold nextSibling? at h
  split at h
  · cases h
  · next label below next hnext =>
    cases h
    exact ⟨hnext, rfl⟩

theorem next_eq_nil (h : c.nextSibling? = none) : c.here.next = .nil := by
  unfold nextSibling? at h
  split at h
  · assumption
  · cases h

theorem above_eq_nil (h : c.parent? = none) : c.above = [] := by
  unfold parent? at h
  split at h
  · assumption
  · cases h

/-- **A climb that fails leaves nothing out.** -/
theorem nodesBeyond_of_climb_eq_none {stack : List Nat} (h : c.climb stack = none) (start : Nat) :
    nodesBeyond stack start c.here.next c.above = [] := by
  induction c, stack using climb.induct with
  | case1 c stack sibling hsibling =>
    rw [climb_of_nextSibling? hsibling] at h
    cases h
  | case2 c stack hsibling hparent =>
    rw [next_eq_nil hsibling, above_eq_nil hparent]
    rfl
  | case3 c stack hsibling parent hparent ih =>
    rw [climb_of_parent? hsibling hparent] at h
    rw [next_eq_nil hsibling, above_of_parent? hparent]
    exact ih h

/-- **A climb goes to the next node**, with its ancestors on the stack. -/
theorem nodesBeyond_of_climb {stack stack' : List Nat} (h : c.climb stack = some (c', stack'))
    (start : Nat) : nodesBeyond stack start c.here.next c.above = c'.nodes stack' start
      ∧ ∀ p ∈ stack', p ∈ stack := by
  induction c, stack using climb.induct with
  | case1 c stack sibling hsibling =>
    rw [climb_of_nextSibling? hsibling] at h
    cases h
    obtain ⟨hnext, habove⟩ := next_of_nextSibling? hsibling
    rw [hnext, habove]
    exact ⟨rfl, fun p hp => hp⟩
  | case2 c stack hsibling hparent =>
    rw [climb_of_top hsibling hparent] at h
    cases h
  | case3 c stack hsibling parent hparent ih =>
    rw [climb_of_parent? hsibling hparent] at h
    obtain ⟨hbeyond, hstack⟩ := ih h
    rw [next_eq_nil hsibling, above_of_parent? hparent]
    exact ⟨hbeyond, fun p hp => List.mem_of_mem_tail (hstack p hp)⟩

theorem here_of_firstChild? (h : c.firstChild? = some c') :
    c.here.below = .cons c'.here.label c'.here.below c'.here.next
      ∧ c'.above = c.here :: c.above := by
  unfold firstChild? at h
  split at h
  · cases h
  · next label below next hbelow =>
    cases h
    exact ⟨hbelow, rfl⟩

theorem below_eq_nil (h : c.firstChild? = none) : c.here.below = .nil := by
  unfold firstChild? at h
  split at h
  · assumption
  · cases h

/-- **Filling the arena adds what the cursor has yet to come to.** The induction is on the number of
these nodes. -/
theorem fill_ofNodes {l : List Node} {stack : List Nat} (hback : Cell.LinksBack l)
    (hstack : ∀ p ∈ stack, p < l.length) (c : Cursor) :
    c.fill (Cell.ofNodes l) stack = Cell.ofNodes (l ++ c.nodes stack l.length) := by
  induction hahead : c.ahead using Nat.strongRecOn generalizing c l stack with
  | ind ahead ih =>
    subst hahead
    have hparent : ∀ p, stack.head? = some p → p < l.length :=
      fun p hp => hstack p (List.mem_of_mem_head? hp)
    have hpushed : Cell.LinksBack (l ++ [⟨c.here.label, stack.head?⟩]) := hback.push hparent
    have hlength : (l ++ [(⟨c.here.label, stack.head?⟩ : Node)]).length = l.length + 1 := by
      rw [List.length_append, List.length_singleton]
    have hnodes := nodesBeyond_cons stack l.length c.here.label c.here.below c.here.next c.above
    rw [nodes, hnodes, List.append_cons]
    rw [fill, Cell.push_ofNodes hback hparent, Cell.length_ofNodes]
    split
    · next child hchild =>
      -- The node is on the stack while what is below it is filled in.
      obtain ⟨hbelow, habove⟩ := here_of_firstChild? hchild
      have hinside : ∀ p ∈ l.length :: stack,
          p < (l ++ [(⟨c.here.label, stack.head?⟩ : Node)]).length := by
        rw [hlength]
        intro p hp
        rcases List.mem_cons.mp hp with rfl | hp
        · exact Nat.lt_succ_self _
        · exact Nat.lt_succ_of_lt (hstack p hp)
      rw [ih _ (ahead_lt_of_firstChild? hchild) hpushed hinside child rfl, hlength]
      rw [nodes, habove, ← hbelow]
      rfl
    · next hchild =>
      -- Nothing is below the node. Either the walk is over, or it goes on with an index less on the
      -- stack for each parent.
      rw [below_eq_nil hchild]
      split
      · next hclimb =>
        have hend := nodesBeyond_of_climb_eq_none hclimb (l.length + 1)
        show _ = Cell.ofNodes (_ ++ nodesBeyond stack (l.length + 1) _ _)
        rw [hend, List.append_nil]
      · next sibling stack' hclimb =>
        obtain ⟨hbeyond, hsub⟩ := nodesBeyond_of_climb hclimb (l.length + 1)
        have hless : sibling.ahead < c.ahead :=
          Nat.lt_of_lt_of_le (ahead_lt_of_climb hclimb) (Nat.le_add_left _ _)
        have hbeside : ∀ p ∈ stack',
            p < (l ++ [(⟨c.here.label, stack.head?⟩ : Node)]).length := by
          rw [hlength]
          intro p hp
          exact Nat.lt_succ_of_lt (hstack p (hsub p hp))
        rw [ih _ hless hpushed hbeside sibling rfl, hlength]
        show _ = Cell.ofNodes (_ ++ nodesBeyond stack (l.length + 1) _ _)
        rw [hbeyond]

/-- **The walk over a tree fills in the tree.** -/
theorem fill_top (label : Label) (below : Forest) :
    (top label below).fill [] [] = Cell.ofNodes ((Forest.cons label below .nil).nodes none 0) := by
  have hback : Cell.LinksBack [] := by
    intro node hnode
    cases hnode
  have hstack : ∀ p ∈ ([] : List Nat), p < ([] : List Node).length := by
    intro p hp
    cases hp
  exact fill_ofNodes hback hstack (top label below)

end Cursor

end AnchoredEdit
