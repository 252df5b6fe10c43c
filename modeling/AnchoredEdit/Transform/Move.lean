/-
`Transform/Move.lean` -- exchanging the sibling at the cursor with its neighbour.

What can be exchanged depends on the node around the cursor. *Operands*: `l op r` becomes
`r op l`, with the text around the operator as it was. *Branches*: `c ? x : y` becomes
`c ? y : x`. *Items* of a comma list: the item and its neighbour trade places, and only the two
of them change, with a comma and a blank between them.

The cursor stays on what it stood on. In each case that piece keeps its text and moves to a
place that follows from the start of the replacement by walking over what is written before it;
`Position.rebase` and `Position.carry` take the cursor along.
-/
import AnchoredEdit.Edit
import AnchoredEdit.Failure
import AnchoredEdit.Syntax.Search

set_option autoImplicit false

namespace AnchoredEdit

/-- Which neighbour the sibling trades places with. -/
inductive Direction where
  | left
  | right
deriving DecidableEq, Inhabited, Repr

/-- The other direction. -/
def Direction.opposite : Direction → Direction
  | left => right
  | right => left

namespace Move

open Attempt

variable (t : Tree) (o : Overflow) (p : Position) (d : Direction)

/-! ## 1. Operands -/

/-- Where the cursor goes when `left operator right` turns around. The operator counts before
the operands, so a cursor on it can go either way. -/
def operandCursor (left operator right : t.Id) (rightText beforeOperator middle : Text) :
    Attempt Position :=
  let start := (t.span left).start
  -- Whichever way the cursor is to go, on the operator the operands change sides.
  if t.covers operator p then
    ofChecked (p.carry o (t.span operator).start start (rightText ++ beforeOperator))
  else if t.covers left p then
    match d with
    | .left => noMatch .noPreviousOperand
    | .right => ofChecked (p.carry o start start (rightText ++ middle))
  else if t.covers right p then
    match d with
    | .left => ofChecked (p.rebase o (t.span right).start start)
    | .right => noMatch .noNextOperand
  else noMatch .noOperand

/-- Turns `left operator right` around. -/
def exchangeOperands (parent : t.Id) : Attempt Edit :=
  match t.parts parent with
  | [left, operator, right] => do
    let rightText ← ofChecked (t.text right)
    let beforeOperator ← ofChecked (t.textBetween left operator)
    let middle ← ofChecked (t.textBetween left right)
    let cursor ← operandCursor t o p d left operator right rightText beforeOperator middle
    let replaced ← ofChecked (t.textThrough left right)
    let leftText ← ofChecked (t.text left)
    pure {
      span := ⟨(t.span left).start, (t.span right).stop⟩
      replaced
      replacement := rightText ++ middle ++ leftText
      cursor := some cursor }
  | _ => noMatch .noSwappableOperands

/-! ## 2. Branches -/

/-- The parts of a conditional expression. -/
structure Branches (t : Tree) where
  condition : t.Id
  question : t.Id
  consequence : t.Id
  colon : t.Id
  alternative : t.Id

/-- Where the cursor goes when the two branches trade places. -/
def branchCursor (b : Branches t) (start : Position)
    (head alternativeText beforeColon between : Text) : Attempt Position :=
  if t.covers b.condition p || t.covers b.question p then noMatch .onCondition
  else if t.covers b.colon p then
    ofChecked (p.carry o (t.span b.colon).start start
      (head ++ alternativeText ++ beforeColon))
  else if t.covers b.consequence p then
    match d with
    | .left => noMatch .noPreviousBranch
    | .right =>
      ofChecked (p.carry o (t.span b.consequence).start start
        (head ++ alternativeText ++ between))
  else if t.covers b.alternative p then
    match d with
    | .left => ofChecked (p.carry o (t.span b.alternative).start start head)
    | .right => noMatch .noNextBranch
  else noMatch .noBranch

/-- Exchanges the two branches of a conditional expression. -/
def exchangeBranches (parent : t.Id) : Attempt Edit :=
  match t.parts parent with
  | [condition, question, consequence, colon, alternative] => do
    let head ← ofChecked (t.textBefore parent consequence)
    let consequenceText ← ofChecked (t.text consequence)
    let alternativeText ← ofChecked (t.text alternative)
    let beforeColon ← ofChecked (t.textBetween consequence colon)
    let between ← ofChecked (t.textBetween consequence alternative)
    let cursor ← branchCursor t o p d ⟨condition, question, consequence, colon, alternative⟩
      (t.span parent).start head alternativeText beforeColon between
    let replaced ← ofChecked (t.text parent)
    pure {
      span := t.span parent
      replaced
      replacement := head ++ alternativeText ++ between ++ consequenceText
      cursor := some cursor }
  | _ => noMatch .noSwappableBranches

/-! ## 3. Items -/

/-- What stands between two items after they were exchanged. -/
def separator : Text :=
  [',', ' ']

/-- Exchanges two neighbouring items; the cursor is on the first one if it moves right and on
the second one if it moves left. -/
def exchangePair (first second : t.Id) : Attempt Edit := do
  let start := (t.span first).start
  let firstText ← ofChecked (t.text first)
  let secondText ← ofChecked (t.text second)
  let cursor ← ofChecked <| match d with
    | .left => p.rebase o (t.span second).start start
    | .right => p.carry o start start (secondText ++ separator)
  let replaced ← ofChecked (t.textThrough first second)
  pure {
    span := ⟨start, (t.span second).stop⟩
    replaced
    replacement := secondText ++ separator ++ firstText
    cursor := some cursor }

/-- Exchanges the item at the cursor with its neighbour. -/
def exchangeItems (parent : t.Id) : Attempt Edit :=
  let items := t.items parent
  let before := items.takeWhile fun i => !t.covers i p
  match items.dropWhile fun i => !t.covers i p with
  | [] => noMatch .noItem
  | pivot :: after =>
    match d with
    | .left =>
      match before.getLast? with
      | none => noMatch .noPreviousItem
      | some previous => exchangePair t o p d previous pivot
    | .right =>
      match after with
      | [] => noMatch .noNextItem
      | next :: _ => exchangePair t o p d pivot next

/-! ## 4. The transformation -/

/-- Kinds of nodes that hold two operands. -/
def operandKinds : List String :=
  ["binary_expression", "union_type", "intersection_type"]

/-- The kind of node that holds two branches. -/
def branchKind : String :=
  "ternary_expression"

/-- Exchanges the operand, branch or item at `p` with its neighbour in direction `d`. -/
def run : Attempt Edit :=
  match t.sequenceAround p with
  | none => noMatch .noSwappableExpression
  | some parent =>
    if operandKinds.contains (t.kind parent) then exchangeOperands t o p d parent
    else if t.kind parent = branchKind then exchangeBranches t o p d parent
    else exchangeItems t o p d parent

end Move

end AnchoredEdit
