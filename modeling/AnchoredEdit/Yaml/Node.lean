/-
`Yaml/Node.lean` -- YAML tokens as nodes.

Tokens are composed into nodes by descent, following the productions of block and flow
collections. Where a node is missing an empty scalar stands in for it.

An anchor gives its node a number, the count of the names that anchors had before it. A name that
comes again is counted once, so a number may come again as well. An alias takes the number of the
last anchor of its name, and stands for the last node in the whole document with that number.

A stream holds at most one document.
-/
import AnchoredEdit.Yaml.Token

set_option autoImplicit false

namespace AnchoredEdit

namespace Yaml

/-! ## 1. Nodes -/

/-- A scalar as it is written. -/
structure Scalar where
  tag : Option Text := none
  style : Style := .plain
  text : Text := []
deriving DecidableEq, Inhabited, Repr

/-- A node of a document. -/
inductive Node where
  | scalar (s : Scalar)
  | sequence (items : List Node)
  | mapping (entries : List (Node × Node))
  /-- The node with this number. -/
  | alias (number : Nat)
deriving Inhabited, Repr

/-- The node that stands in where none is written. -/
def Node.empty : Node :=
  .scalar {}

/-- A document: its root, and what the numbers of its anchors stand for, the last anchor first.
Of a collection only that it is none of the scalars is kept. -/
structure Document where
  root : Node
  targets : List (Nat × Option Scalar) := []
deriving Inhabited, Repr

/-- The scalar that a node of the document is or stands for. -/
def Document.scalar? (d : Document) : Node → Option Scalar
  | .scalar s => some s
  | .alias number => (d.targets.find? (·.1 = number)).bind (·.2)
  | _ => none

/-! ## 2. The state of the composer -/

/-- The state of the composer. -/
structure Compose where
  tokens : List Token
  /-- The tag handles in force, with what they stand for. -/
  handles : List (Text × Text) := []
  /-- The names of anchors, each once, with the number that it has now. -/
  anchors : List (Text × Nat) := []
  /-- What the numbers stand for, as in `Document`. -/
  targets : List (Nat × Option Scalar) := []
deriving Inhabited, Repr

namespace Compose

/-- The first token. -/
def peek? (s : Compose) : Option Token :=
  s.tokens.head?

/-- The state after the first token. -/
def skip (s : Compose) : Compose :=
  { s with tokens := s.tokens.tail }

/-- The first token is one of the given ones. -/
def sees (s : Compose) (tokens : List Token) : Bool :=
  s.peek?.any tokens.contains

/-- Tag handles that need no directive. -/
def standardHandles : List (Text × Text) :=
  [(['!'], ['!']), (['!', '!'], "tag:yaml.org,2002:".toList)]

/-- The full name of a tag; none if its handle is unknown. -/
def resolveTag? (s : Compose) (handle suffix : Text) : Option Text :=
  if handle = [] then some suffix
  else (s.handles.find? (·.1 = handle)).map fun (_, expansion) => expansion ++ suffix

/-- The number of an alias; none if no anchor has the name. -/
def resolveAlias? (s : Compose) (name : Text) : Option Nat :=
  (s.anchors.find? (·.1 = name)).map (·.2)

/-- The number that the next anchor gets. -/
def nextNumber (s : Compose) : Nat :=
  s.anchors.length

/-- Notes an anchor before its node is read. -/
def openAnchor (s : Compose) (name : Text) : Compose :=
  { s with
    anchors := (name, s.nextNumber) :: s.anchors.filter (·.1 ≠ name)
    targets := (s.nextNumber, none) :: s.targets }

/-- Notes the node of an anchor if it is a scalar. -/
def closeAnchor (s : Compose) : Option Nat → Node → Compose
  | some number, .scalar x => { s with targets := (number, some x) :: s.targets }
  | _, _ => s

/-- The properties of a node: its anchor and its tag. -/
structure Properties where
  anchor : Option Text := none
  tag : Option Text := none
deriving DecidableEq, Inhabited, Repr

/-- Reads an anchor if one is due. -/
def takeAnchor (s : Compose) : Option Text × Compose :=
  match s.peek? with
  | some (.anchor name) => (some name, s.skip)
  | _ => (none, s)

/-- Reads a tag if one is due. -/
def takeTag? (s : Compose) : Option (Option Text × Compose) :=
  match s.peek? with
  | some (.tag handle suffix) => (s.resolveTag? handle suffix).map fun tag => (some tag, s.skip)
  | _ => some (none, s)

/-- Reads an anchor and a tag, in either order. -/
def takeProperties? (s : Compose) : Option (Properties × Compose) :=
  match s.takeAnchor with
  | (some anchor, s) => do
    let (tag, s) ← s.takeTag?
    pure (⟨some anchor, tag⟩, s)
  | (none, s) => do
    let (tag, s) ← s.takeTag?
    match tag with
    | none => pure ({}, s)
    | some tag =>
      let (anchor, s) := s.takeAnchor
      pure (⟨anchor, some tag⟩, s)

/-! ## 3. Nodes by descent -/

mutual

/-- Reads a node. In a block context it may be a block collection, and a sequence without an
indentation of its own where `indentless` says so. -/
def node? : (fuel : Nat) → (block indentless : Bool) → Compose → Option (Node × Compose)
  | 0, _, _, _ => none
  | fuel + 1, block, indentless, s =>
    match s.peek? with
    | some (.alias name) => (s.resolveAlias? name).map fun number => (.alias number, s.skip)
    | _ => do
      let (properties, s) ← s.takeProperties?
      let number := properties.anchor.map fun _ => s.nextNumber
      let s := match properties.anchor with
        | some name => s.openAnchor name
        | none => s
      let (node, s) ← content? fuel block indentless properties s
      pure (node, s.closeAnchor number node)

/-- Reads what follows the properties of a node. -/
def content? : (fuel : Nat) → (block indentless : Bool) → Properties → Compose →
    Option (Node × Compose)
  | 0, _, _, _, _ => none
  | fuel + 1, block, indentless, properties, s =>
    match s.peek? with
    | some (.scalar style text) => some (.scalar ⟨properties.tag, style, text⟩, s.skip)
    | some .flowSequenceStart => do
      let (items, s) ← flowItems? fuel true s.skip
      pure (.sequence items, s)
    | some .flowMappingStart => do
      let (entries, s) ← flowEntries? fuel true s.skip
      pure (.mapping entries, s)
    | token =>
      if indentless && token = some .blockEntry then do
        let (items, s) ← indentlessItems? fuel s
        pure (.sequence items, s)
      else if block && token = some .blockSequenceStart then do
        let (items, s) ← blockItems? fuel s.skip
        pure (.sequence items, s)
      else if block && token = some .blockMappingStart then do
        let (entries, s) ← blockEntries? fuel s.skip
        pure (.mapping entries, s)
      else if properties.anchor.isSome || properties.tag.isSome then
        some (.scalar ⟨properties.tag, .plain, []⟩, s)
      else none

/-- Reads a node, or the empty one where one of the given tokens follows. -/
def nodeUnless? : (fuel : Nat) → (block indentless : Bool) → List Token → Compose →
    Option (Node × Compose)
  | 0, _, _, _, _ => none
  | fuel + 1, block, indentless, ends, s =>
    if s.sees ends then some (.empty, s) else node? fuel block indentless s

/-- Reads the items of a block sequence up to its end. -/
def blockItems? : (fuel : Nat) → Compose → Option (List Node × Compose)
  | 0, _ => none
  | fuel + 1, s =>
    match s.peek? with
    | some .blockEntry => do
      let (item, s) ← nodeUnless? fuel true false [.blockEntry, .blockEnd] s.skip
      let (items, s) ← blockItems? fuel s
      pure (item :: items, s)
    | some .blockEnd => some ([], s.skip)
    | _ => none

/-- Reads the items of a sequence that has no indentation of its own. -/
def indentlessItems? : (fuel : Nat) → Compose → Option (List Node × Compose)
  | 0, _ => none
  | fuel + 1, s =>
    match s.peek? with
    | some .blockEntry => do
      let (item, s) ← nodeUnless? fuel true false [.blockEntry, .key, .value, .blockEnd] s.skip
      let (items, s) ← indentlessItems? fuel s
      pure (item :: items, s)
    | _ => some ([], s)

/-- Reads the entries of a block mapping up to its end. -/
def blockEntries? : (fuel : Nat) → Compose → Option (List (Node × Node) × Compose)
  | 0, _ => none
  | fuel + 1, s =>
    match s.peek? with
    | some .key => do
      let (key, s) ← nodeUnless? fuel true true [.key, .value, .blockEnd] s.skip
      let (value, s) ←
        if s.sees [.value] then nodeUnless? fuel true true [.key, .value, .blockEnd] s.skip
        else some (.empty, s)
      let (entries, s) ← blockEntries? fuel s
      pure ((key, value) :: entries, s)
    | some .blockEnd => some ([], s.skip)
    | _ => none

/-- Reads the items of a flow sequence up to its closing bracket. An item may be a single entry
of a mapping. -/
def flowItems? : (fuel : Nat) → (first : Bool) → Compose → Option (List Node × Compose)
  | 0, _, _ => none
  | fuel + 1, first, s =>
    if s.sees [.flowSequenceEnd] then some ([], s.skip)
    else do
      let s ← if first then some s else if s.sees [.flowEntry] then some s.skip else none
      if s.sees [.flowSequenceEnd] then some ([], s.skip)
      else do
        let (item, s) ← if s.sees [.key] then pair? fuel s.skip else node? fuel false false s
        let (items, s) ← flowItems? fuel false s
        pure (item :: items, s)

/-- Reads a single entry after its key indicator. Where the key is missing, the token that shows
so is taken for it. -/
def pair? : (fuel : Nat) → Compose → Option (Node × Compose)
  | 0, _ => none
  | fuel + 1, s => do
    let (key, s) ←
      if s.sees [.value, .flowEntry, .flowSequenceEnd] then some (.empty, s.skip)
      else node? fuel false false s
    let (value, s) ←
      if s.sees [.value] then
        nodeUnless? fuel false false [.flowEntry, .flowSequenceEnd] s.skip
      else some (.empty, s)
    pure (.mapping [(key, value)], s)

/-- Reads the entries of a flow mapping up to its closing brace. -/
def flowEntries? : (fuel : Nat) → (first : Bool) → Compose →
    Option (List (Node × Node) × Compose)
  | 0, _, _ => none
  | fuel + 1, first, s =>
    if s.sees [.flowMappingEnd] then some ([], s.skip)
    else do
      let s ← if first then some s else if s.sees [.flowEntry] then some s.skip else none
      if s.sees [.flowMappingEnd] then some ([], s.skip)
      else do
        let (entry, s) ←
          if s.sees [.key] then do
            let (key, s) ←
              nodeUnless? fuel false false [.value, .flowEntry, .flowMappingEnd] s.skip
            let (value, s) ←
              if s.sees [.value] then
                nodeUnless? fuel false false [.flowEntry, .flowMappingEnd] s.skip
              else some (.empty, s)
            some ((key, value), s)
          else do
            let (key, s) ← node? fuel false false s
            some ((key, .empty), s)
        let (entries, s) ← flowEntries? fuel false s
        pure (entry :: entries, s)

end

/-! ## 4. Documents -/

/-- Reads the directives before a document. -/
def directives? (handles : List (Text × Text)) (versioned : Bool) :
    List Token → Option (List (Text × Text) × List Token)
  | .versionDirective major minor :: rest =>
    if versioned || major ≠ 1 || (minor ≠ 1 && minor ≠ 2) then none
    else directives? handles true rest
  | .tagDirective handle expansion :: rest =>
    if handles.any (·.1 = handle) then none
    else directives? ((handle, expansion) :: handles) versioned rest
  | rest => some (handles, rest)

/-- The handles in force where directives gave the first ones. -/
def allHandles (given : List (Text × Text)) : List (Text × Text) :=
  given ++ standardHandles.filter fun (handle, _) => !given.any (·.1 = handle)

/-- Nothing but ends of documents is left. -/
def atStreamEnd (tokens : List Token) : Bool :=
  tokens.all (· = .documentEnd)

/-- Reads the content of a document, which has to be the last one. -/
def document? (explicit : Bool) (handles : List (Text × Text)) (tokens : List Token) :
    Option Document :=
  let s : Compose := { tokens, handles := allHandles handles }
  let missing := explicit &&
    match tokens with
    | [] | .documentStart :: _ | .documentEnd :: _ | .versionDirective _ _ :: _
    | .tagDirective _ _ :: _ => true
    | _ => false
  match if missing then some (.empty, s) else node? (4 * tokens.length + 4) true false s with
  | none => none
  | some (root, s) => if atStreamEnd s.tokens then some ⟨root, s.targets⟩ else none

end Compose

/-- The one document of a stream; the inner `none` is a stream without any. -/
def document? (tokens : List Token) : Option (Option Document) :=
  match tokens with
  | [] => some none
  | .versionDirective _ _ :: _ | .tagDirective _ _ :: _ | .documentStart :: _ => do
    let (handles, rest) ← Compose.directives? [] false tokens
    match rest with
    | .documentStart :: rest => (Compose.document? true handles rest).map some
    | _ => none
  | tokens => (Compose.document? false [] tokens).map some

/-- The one document of a text; the outer `none` is a text that is no YAML. -/
def parse? (t : Text) : Option (Option Document) :=
  (tokens? t).bind document?

end Yaml

end AnchoredEdit
