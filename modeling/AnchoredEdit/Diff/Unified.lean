/-
`Diff/Unified.lean` -- previews of a change.

A preview shows the changed lines with a few lines around them. Long stretches of equal lines
are cut: three lines are kept next to a change, and a stretch longer than six lines between two
changes divides the preview into groups. The summary counts the changed lines of the whole
script, whatever the preview shows.

What the lines of a text are, how a script between them is found and how it is grouped is the
business of a line diff. Preview and summary take any; the one that runs is `LineDiff.standard`.
-/
import AnchoredEdit.Diff.Compact
import AnchoredEdit.Edit

set_option autoImplicit false

namespace AnchoredEdit

namespace Diff

/-! ## 1. Groups -/

/-- How many equal lines are kept next to a change. -/
def context : Nat :=
  3

/-- At most the last `context` lines of a first stretch. -/
def trimFirst : List Op → List Op
  | .equal i j n :: rest =>
    let offset := n - context
    .equal (i + offset) (j + offset) (n - offset) :: rest
  | ops => ops

/-- At most the first `context` lines of a last stretch. -/
def trimLast : List Op → List Op
  | [] => []
  | [.equal i j n] => [.equal i j (min n context)]
  | [op] => [op]
  | op :: rest => op :: trimLast rest

/-- Divides a script at its long stretches. `group` is the current group, backwards. -/
def divide : (group : List Op) → List Op → List (List Op)
  | group, [] =>
    match group with
    | [] | [.equal ..] => []
    | group => [group.reverse]
  | group, .equal i j n :: rest =>
    if 2 * context < n then
      (.equal i j context :: group).reverse
        :: divide [.equal (i + (n - context)) (j + (n - context)) context] rest
    else divide (.equal i j n :: group) rest
  | group, op :: rest => divide (op :: group) rest

/-- The groups of a script. -/
def groups (ops : List Op) : List (List Op) :=
  divide [] (trimLast (trimFirst ops))

/-! ## 2. Line diffs -/

/-- How two texts are compared line by line. -/
structure LineDiff where
  /-- The lines of a text. -/
  lines : Text → List Text
  /-- The script that leads from the old lines to the new ones. -/
  script : (old new : List Text) → List Op
  /-- The groups of a script, with `context` equal lines next to a change. -/
  groups : List Op → List (List Op)
  /-- The line has no ending. -/
  unended : Text → Bool

/-- The script that leads from one text to another. -/
def LineDiff.ops (d : LineDiff) (before after : Text) : List Op :=
  d.script (d.lines before) (d.lines after)

/-- The line diff of this library. -/
def LineDiff.standard : LineDiff where
  lines := Diff.lines
  script := Diff.script
  groups := Diff.groups
  unended := missingEnding

variable (d : LineDiff)

/-! ## 3. The preview -/

/-- The sign in front of a line. -/
def Change.sign : Change → Char
  | equal => ' '
  | delete => '-'
  | insert => '+'

/-- A line of the preview: its sign, the line, and an ending if it has none. -/
def showLine (c : Change) (line : Text) : Text :=
  c.sign :: line ++ if d.unended line then ['\n'] else []

/-- The lines of a group. -/
def showGroup (old new : List Text) (group : List Op) : Text :=
  (group.flatMap (Op.changes old new)).flatMap fun (c, line) => showLine d c line

/-- The two lines at the top. -/
def header (label : Text) : Text :=
  "--- a/".toList ++ label ++ "\n+++ b/".toList ++ label ++ ['\n']

/-- The preview of the change from one text to another. -/
def unified (before after label : Text) : Text :=
  header label ++ ['\n'].intercalate
    ((d.groups (d.ops before after)).map (showGroup d (d.lines before) (d.lines after)))

/-- The preview of an edit; none if it does not fit the source. -/
def ofEdit? (source : Text) (e : Edit) (label : Text) : Option Text :=
  (e.spliceInto? source).map fun modified => unified d source modified label

/-! ## 4. The summary -/

/-- The number of changed lines. -/
structure Summary where
  insertions : Nat
  deletions : Nat
deriving DecidableEq, Inhabited, Repr

/-- The summary of a script. -/
def summarize (old new : List Text) (ops : List Op) : Summary :=
  let changes := (ops.flatMap (Op.changes old new)).map (·.1)
  ⟨changes.count .insert, changes.count .delete⟩

/-- The summary of the change from one text to another. -/
def summary (before after : Text) : Summary :=
  summarize (d.lines before) (d.lines after) (d.ops before after)

/-- The summary on one line. -/
def Summary.toText (s : Summary) : String :=
  toString s.insertions ++ " insertions(+), " ++ toString s.deletions ++ " deletions(-)"

end Diff

end AnchoredEdit
