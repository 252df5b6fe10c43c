/-
`Config/Settings.lean` -- the settings of the engine.

Every setting has a default. Two of them have to be positive where a configuration is loaded;
the first of the two is reported when both are not.
-/
import AnchoredEdit.Error

set_option autoImplicit false

namespace AnchoredEdit

/-- The settings of the engine. -/
structure Config where
  /-- The weight of a line when overlapping candidates are ranked. -/
  lineWeight : Nat := 1000
  /-- How many ancestors a diagnostic dump climbs. -/
  debugAncestorLevels : Nat := 3
  /-- How many levels a diagnostic dump shows. -/
  debugRenderDepth : Nat := 3
  /-- How many characters of a leaf a diagnostic dump shows. -/
  debugTextWidth : Nat := 40
  /-- How long a request may be in flight, in milliseconds. -/
  requestTimeoutMs : Nat := 30000
deriving DecidableEq, Repr

namespace Config

/-- The configuration with every setting at its default. -/
def standard : Config := {}

instance : Inhabited Config := ⟨standard⟩

/-- The settings, for a text format to name. -/
inductive Setting where
  | lineWeight
  | debugAncestorLevels
  | debugRenderDepth
  | debugTextWidth
  | requestTimeoutMs
deriving DecidableEq, Inhabited, Repr

namespace Setting

/-- All settings, in the order in which a positional form lists them. -/
def all : List Setting :=
  [lineWeight, debugAncestorLevels, debugRenderDepth, debugTextWidth, requestTimeoutMs]

/-- The key of a setting. -/
def key : Setting → String
  | lineWeight => "line_weight"
  | debugAncestorLevels => "debug_ancestor_levels"
  | debugRenderDepth => "debug_render_depth"
  | debugTextWidth => "debug_text_width"
  | requestTimeoutMs => "request_timeout_ms"

/-- The setting with the given key. -/
def ofKey? (key : String) : Option Setting :=
  all.find? (·.key = key)

theorem ofKey?_key (s : Setting) : ofKey? s.key = some s := by
  cases s <;> decide

end Setting

/-- The value of a setting. -/
def get (c : Config) : Setting → Nat
  | .lineWeight => c.lineWeight
  | .debugAncestorLevels => c.debugAncestorLevels
  | .debugRenderDepth => c.debugRenderDepth
  | .debugTextWidth => c.debugTextWidth
  | .requestTimeoutMs => c.requestTimeoutMs

/-- The configuration with one setting changed. -/
def set (c : Config) (s : Setting) (n : Nat) : Config :=
  match s with
  | .lineWeight => { c with lineWeight := n }
  | .debugAncestorLevels => { c with debugAncestorLevels := n }
  | .debugRenderDepth => { c with debugRenderDepth := n }
  | .debugTextWidth => { c with debugTextWidth := n }
  | .requestTimeoutMs => { c with requestTimeoutMs := n }

/-- A setting that was changed holds the new value, and every other one what it held. -/
theorem get_set (c : Config) (s r : Setting) (n : Nat) :
    (c.set s n).get r = if r = s then n else c.get r := by
  cases s <;> cases r <;> rfl

/-- Accepts a configuration whose weight and timeout are positive. -/
def validate (c : Config) : Except Error Config :=
  if c.lineWeight = 0 then .error (.invalidConfig (.notPositive Setting.lineWeight.key))
  else if c.requestTimeoutMs = 0 then
    .error (.invalidConfig (.notPositive Setting.requestTimeoutMs.key))
  else .ok c

end Config

end AnchoredEdit
