/-
`Session.lean` -- editing one source step by step.

A session holds a source, a cursor, and perhaps a captured node. Each step either captures the
node at the cursor or runs a transformation; an edit that is produced and fits replaces the
source and moves the cursor, and a failure leaves everything as it is. A step runs only a known
transformation, so a script of steps that names another one is no script at all.
-/
import AnchoredEdit.Engine

set_option autoImplicit false

namespace AnchoredEdit

/-- The state of a session. -/
structure Session where
  source : Text
  variant : Variant
  cursor : Position
  captured : Option Descriptor := none
deriving DecidableEq, Inhabited, Repr

namespace Session

/-- One thing to do in a session. -/
inductive Step where
  /-- Captures the node at the cursor. -/
  | capture
  /-- Runs a transformation, after the cursor went to `goto` if that is given, on the captured
  node if that is wanted and there is one. -/
  | run (mod : Mod) (goto : Option Position) (useCaptured : Bool)
deriving DecidableEq, Inhabited, Repr

/-- The step that runs the transformation called `name`. -/
def Step.runNamed (name : String) (goto : Option Position) (useCaptured : Bool) :
    Except Error Step :=
  (Mod.named name).map fun m => .run m goto useCaptured

/-- What a step answers. -/
inductive Answer where
  | captured (d : Option Descriptor)
  | edited (e : Edit) (source : Text) (cursor : Position)
  | failed (f : Failure)
deriving DecidableEq, Inhabited, Repr

/-- The description of the node at the cursor. -/
def captureAt (parser : Parser) (s : Session) : Option Descriptor := do
  let t ← parser s.variant s.source
  let i ← t.innermostAt s.cursor
  (t.describe i (some s.cursor)).toOption

/-- Where a step acts. -/
def anchor (s : Session) (useCaptured : Bool) : Anchor :=
  match useCaptured, s.captured with
  | true, some d => .node d
  | _, _ => .point s.cursor

/-- Takes one step. -/
def step (e : Engine) (s : Session) : Step → Session × Answer
  | .capture =>
    let d := captureAt e.parser s
    ({ s with captured := d }, .captured d)
  | .run m goto useCaptured =>
    let s := { s with cursor := goto.getD s.cursor }
    match e.run m ⟨s.source, s.variant, s.anchor useCaptured⟩ with
    | .error f => (s, .failed f)
    | .ok edit =>
      let source := (edit.spliceInto? s.source).getD s.source
      let cursor := edit.cursor.getD s.cursor
      ({ s with source, cursor }, .edited edit source cursor)

/-- Takes several steps, one after the other. -/
def steps (e : Engine) (s : Session) : List Step → Session × List Answer
  | [] => (s, [])
  | x :: rest =>
    let (s, answer) := step e s x
    let (s, answers) := steps e s rest
    (s, answer :: answers)

end Session

end AnchoredEdit
