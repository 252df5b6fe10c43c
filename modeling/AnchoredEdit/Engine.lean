/-
`Engine.lean` -- the registry of transformations, and running one.

A transformation is a pure function of a source, its variant and an anchor. It produces one edit
or one failure. The engine adds nothing but the settings, the parser and the arithmetic of cursors.
-/
import AnchoredEdit.Config.Settings
import AnchoredEdit.Transform.Delete
import AnchoredEdit.Transform.Describe
import AnchoredEdit.Transform.Move
import AnchoredEdit.Transform.Wrap

set_option autoImplicit false

namespace AnchoredEdit

/-! ## 1. The registry -/

/-- The transformations on offer. -/
inductive Mod where
  | moveLeft
  | moveRight
  | pointFreeToAnon
  | deleteFunction
  | deleteClosestTag
  | debugNodeUnderCursor
deriving DecidableEq, Inhabited, Repr

namespace Mod

/-- All transformations, in the order they are presented. -/
def all : List Mod :=
  [moveLeft, moveRight, pointFreeToAnon, deleteFunction, deleteClosestTag,
    debugNodeUnderCursor]

/-- The name of a transformation. -/
def name : Mod → String
  | moveLeft => "move-left"
  | moveRight => "move-right"
  | pointFreeToAnon => "point-free-to-anon"
  | deleteFunction => "delete-function"
  | deleteClosestTag => "delete-closest-tag"
  | debugNodeUnderCursor => "debug-node-under-cursor"

/-- The names of all transformations. -/
def names : List String :=
  all.map name

/-- The transformation called `name`. -/
def ofName? (name : String) : Option Mod :=
  all.find? (·.name = name)

theorem ofName?_name (m : Mod) : ofName? m.name = some m := by
  cases m <;> decide

/-- The transformation called `name`, or the error that there is none. -/
def named (name : String) : Except Error Mod :=
  match ofName? name with
  | some m => .ok m
  | none => .error (.unknownMod name)

/-- Runs a transformation on a parsed source. -/
def attempt (m : Mod) (o : Overflow) (parser : Parser) (t : Tree) (anchor : Anchor)
    (c : Config) : Attempt Edit :=
  match m with
  | moveLeft => Move.run t o anchor.position .left
  | moveRight => Move.run t o anchor.position .right
  | pointFreeToAnon => Wrap.run t o parser anchor.position c.lineWeight
  | deleteFunction => Delete.function t anchor c.lineWeight
  | deleteClosestTag => Delete.element t anchor
  | debugNodeUnderCursor =>
    Describe.run t anchor
      ⟨c.debugAncestorLevels, c.debugRenderDepth, c.debugTextWidth⟩

end Mod

/-! ## 2. The engine -/

/-- The variant called `name`, or the error that there is none. -/
def Variant.named (name : String) : Except Error Variant :=
  match ofName? name with
  | some v => .ok v
  | none => .error (.unsupportedLanguage name)

/-- What a transformation is run on. -/
structure Context where
  source : Text
  variant : Variant
  anchor : Anchor
deriving DecidableEq, Inhabited, Repr

/-- What a run comes to: an edit, or a failure. -/
abbrev Outcome := Except Failure Edit

/-- A configured engine. -/
structure Engine where
  parser : Parser
  config : Config
  /-- What becomes of a cursor that leaves its words. -/
  overflow : Overflow

namespace Engine

/-- Parses the source and runs a transformation on it. -/
def run (e : Engine) (m : Mod) (ctx : Context) : Outcome :=
  match e.parser ctx.variant ctx.source with
  | none => .error (Error.parse ctx.variant.grammar).toFailure
  | some t => (m.attempt e.overflow e.parser t ctx.anchor e.config).report

/-- Runs the transformation called `name`. -/
def runNamed (e : Engine) (name : String) (ctx : Context) : Outcome :=
  match Mod.named name with
  | .ok m => e.run m ctx
  | .error err => .error err.toFailure

end Engine

end AnchoredEdit
