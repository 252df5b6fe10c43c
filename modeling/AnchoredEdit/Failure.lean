/-
`Failure.lean` -- transformations that produce no edit.

A transformation declines for one of a fixed list of reasons, hands back a diagnostic dump, or
reports an error of the engine. On the wire a failure is a code and a message; inside, declining
is kept apart from running into a fault, because only the latter means that something is wrong.
-/
import AnchoredEdit.Error

set_option autoImplicit false

namespace AnchoredEdit

/-! ## 1. Codes and messages -/

/-- The classes of failure. -/
inductive Code where
  /-- Nothing at the anchor is what the transformation looks for. -/
  | noMatch
  /-- Diagnostic output. -/
  | debug
  /-- Anything else. -/
  | error
deriving DecidableEq, Inhabited, Repr

namespace Code

/-- The name of a code. -/
def name : Code → String
  | noMatch => "NO_MATCH"
  | debug => "DEBUG"
  | error => "ERROR"

/-- The code called `name`. -/
def ofName? (name : String) : Option Code :=
  [noMatch, debug, error].find? (·.name = name)

theorem ofName?_name (c : Code) : ofName? c.name = some c := by
  cases c <;> decide

end Code

/-- A failure as it is reported. -/
structure Failure where
  code : Code
  message : String
deriving DecidableEq, Inhabited, Repr

/-- The failure on one line. -/
def Failure.toText (f : Failure) : String :=
  f.code.name ++ ": " ++ f.message

/-- The failure that reports an error of the engine. -/
def Error.toFailure (e : Error) : Failure :=
  ⟨.error, e.message⟩

/-! ## 2. Reasons to decline -/

/-- Why nothing matches at the anchor. -/
inductive NoMatch where
  | noSwappableExpression
  | noSwappableOperands
  | noPreviousOperand
  | noNextOperand
  | noOperand
  | noSwappableBranches
  | onCondition
  | noPreviousBranch
  | noNextBranch
  | noBranch
  | noItem
  | noPreviousItem
  | noNextItem
  | noReference
  | notWrappable
  | noFunction
  | noNode
  | noMarkup
deriving DecidableEq, Inhabited, Repr

/-- The wording of a reason to decline. -/
def NoMatch.message : NoMatch → String
  | noSwappableExpression => "no swappable expression at cursor"
  | noSwappableOperands => "no swappable operands at cursor"
  | noPreviousOperand => "no previous operand"
  | noNextOperand => "no next operand"
  | noOperand => "no operand at cursor"
  | noSwappableBranches => "no swappable branches at cursor"
  | onCondition => "cursor on condition"
  | noPreviousBranch => "no previous branch"
  | noNextBranch => "no next branch"
  | noBranch => "no branch at cursor"
  | noItem => "no item at cursor"
  | noPreviousItem => "no previous item"
  | noNextItem => "no next item"
  | noReference => "no reference at cursor"
  | notWrappable => "reference at cursor is not a call argument or interpolation"
  | noFunction => "no function declaration at cursor"
  | noNode => "no node at cursor"
  | noMarkup => "no enclosing markup element"

/-! ## 3. Attempts -/

/-- Why an attempt at a transformation stopped. -/
inductive Halt where
  | declined (f : Failure)
  | fault (f : Fault)
deriving DecidableEq, Inhabited, Repr

/-- An attempt at a transformation. -/
abbrev Attempt := Except Halt

namespace Attempt

/-- Declines because nothing matches. -/
def noMatch {α : Type} (why : NoMatch) : Attempt α :=
  .error (.declined ⟨.noMatch, why.message⟩)

/-- A checked computation as an attempt. -/
def ofChecked {α : Type} : Checked α → Attempt α
  | .ok a => .ok a
  | .error f => .error (.fault f)

@[simp] theorem ofChecked_ok {α : Type} (a : α) : ofChecked (.ok a) = .ok a := rfl

@[simp] theorem ofChecked_error {α : Type} (f : Fault) :
    ofChecked (.error f : Checked α) = .error (.fault f) := rfl

/-- What has to be there, or else nothing matches. -/
def need {α : Type} (why : NoMatch) : Option α → Attempt α
  | some a => .ok a
  | none => noMatch why

/-- The outcome of an attempt as it is reported. -/
def report {α : Type} : Attempt α → Except Failure α
  | .ok a => .ok a
  | .error (.declined f) => .error f
  | .error (.fault f) => .error (Error.worker f).toFailure

end Attempt

end AnchoredEdit
