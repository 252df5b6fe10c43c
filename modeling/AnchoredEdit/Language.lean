/-
`Language.lean` -- the four source flavours and the grammars that parse them.

A source is a script or a module, with or without markup. The grammar for scripts already
understands markup, so both script flavours share it; modules have one grammar for each
flavour. Names are matched exactly, file extensions without regard to the case of ASCII
letters.
-/
import AnchoredEdit.Files.Path

set_option autoImplicit false

namespace AnchoredEdit

/-! ## 1. Grammars -/

/-- The grammars sources are parsed with. -/
inductive Grammar where
  | javascript
  | typescript
  | tsx
deriving DecidableEq, Inhabited, Repr

namespace Grammar

/-- The name of the grammar. -/
def name : Grammar → String
  | javascript => "javascript"
  | typescript => "typescript"
  | tsx => "tsx"

/-- The file extensions that go with the grammar. -/
def extensions : Grammar → List String
  | javascript => ["js", "cjs", "mjs", "jsx"]
  | typescript => ["ts", "mts", "cts"]
  | tsx => ["tsx"]

/-- The grammar goes with the file extension `ext`, whatever the case of its letters. -/
def matchesExtension (g : Grammar) (ext : String) : Bool :=
  g.extensions.contains ext.toLower

/-- The grammar called `name`. -/
def ofName? (name : String) : Option Grammar :=
  [javascript, typescript, tsx].find? (·.name = name)

theorem ofName?_name (g : Grammar) : ofName? g.name = some g := by
  cases g <;> decide

end Grammar

/-! ## 2. Variants -/

/-- The source flavours a caller can ask for. -/
inductive Variant where
  | script
  | module
  | scriptMarkup
  | moduleMarkup
deriving DecidableEq, Inhabited, Repr

namespace Variant

/-- All variants, in the order they are listed. -/
def all : List Variant :=
  [script, module, scriptMarkup, moduleMarkup]

/-- The name of the variant. -/
def name : Variant → String
  | script => "script"
  | module => "module"
  | scriptMarkup => "script+markup"
  | moduleMarkup => "module+markup"

/-- The other name that a variant goes by among editors. -/
def alternative : Variant → String
  | script => "javascript"
  | module => "typescript"
  | scriptMarkup => "javascriptreact"
  | moduleMarkup => "typescriptreact"

/-- The variant assumed when a caller names none. -/
def standard : Variant :=
  module

/-- The grammar that parses the variant. -/
def grammar : Variant → Grammar
  | script | scriptMarkup => .javascript
  | module => .typescript
  | moduleMarkup => .tsx

/-- The variant called `name`, by either of its names. -/
def ofName? (name : String) : Option Variant :=
  all.find? fun v => v.name = name || v.alternative = name

theorem ofName?_name (v : Variant) : ofName? v.name = some v := by
  cases v <;> decide

/-- The variant for a file extension. -/
def ofExtension? (ext : String) : Option Variant :=
  match ext.toLower with
  | "jsx" => some scriptMarkup
  | "tsx" => some moduleMarkup
  | _ =>
    if Grammar.javascript.matchesExtension ext then some script
    else if Grammar.typescript.matchesExtension ext then some module
    else none

/-- The variant for the file at `path`. -/
def ofPath? (path : String) : Option Variant :=
  (Path.extension? path).bind ofExtension?

end Variant

end AnchoredEdit
