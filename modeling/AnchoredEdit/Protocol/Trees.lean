/-
`Protocol/Trees.lean` -- parse trees that were made elsewhere.

A tree comes with the grammar and the source it was made from, and with its rows in pre-order. A
row is an array: depth, kind, whether the node is named, its role or `null`, the four numbers of
its span, and its two byte offsets. A list of such trees is a parser for the sources it holds.
-/
import AnchoredEdit.Json.Value
import AnchoredEdit.Transform.Wrap

set_option autoImplicit false

namespace AnchoredEdit

/-- A tree with the grammar and the source it was made from. -/
structure ParsedSource where
  grammar : Grammar
  source : Text
  rows : List Row
deriving Inhabited, Repr

namespace ParsedSource

/-- The row that a JSON array holds. -/
def row? : Json → Option Row
  | .arr [.num (.nat depth), .str kind, .num (.nat named), role,
      .num (.nat startLine), .num (.nat startColumn), .num (.nat endLine),
      .num (.nat endColumn), .num (.nat startByte), .num (.nat endByte)] => do
    let role ← match role with
      | .null => some none
      | .str name => some (some name)
      | _ => none
    pure ⟨depth, {
      kind, role, startByte, endByte
      named := named ≠ 0
      span := ⟨⟨startLine, startColumn⟩, ⟨endLine, endColumn⟩⟩ }⟩
  | _ => none

/-- The parsed source that a JSON object holds. -/
def ofJson? (v : Json) : Option ParsedSource := do
  let .str grammar ← v.member? "grammar" | none
  let .str source ← v.member? "source" | none
  let .arr nodes ← v.member? "nodes" | none
  let grammar ← Grammar.ofName? grammar
  let rows ← nodes.mapM row?
  pure ⟨grammar, source.toList, rows⟩

/-- The parser that knows the given sources and no others. -/
def parser (sources : List ParsedSource) : Parser := fun variant source => do
  let known ← sources.find? fun s => s.grammar = variant.grammar && s.source = source
  Tree.ofRows? source variant known.rows

end ParsedSource

end AnchoredEdit
