/-
`Yaml/Scalar.lean` -- reading scalars.

A scalar is plain, quoted, or a block of lines. Plain and quoted ones are runs of characters
with gaps between them. A gap that stays on its line is kept; in a gap that holds breaks the
first break folds into a space, unless more breaks follow it, which are kept instead. A block
keeps its breaks (literal) or folds them (folded), and what becomes of the last ones is up to
its header.

A reader returns what it read together with the rest of the text and the place it reached, and
nothing where the text is no YAML.
-/
import AnchoredEdit.Yaml.Chars

set_option autoImplicit false

namespace AnchoredEdit

namespace Yaml

/-- The ways of writing a scalar. -/
inductive Style where
  | plain
  | single
  | double
  | literal
  | folded
deriving DecidableEq, Inhabited, Repr

/-! ## 1. Gaps -/

/-- The spaces and breaks between two runs. -/
structure Gap where
  /-- The spaces before the first break. -/
  spaces : Text := []
  /-- The first break, if there is one. -/
  first : Option Text := none
  /-- The breaks after the first one. -/
  more : Text := []
deriving DecidableEq, Inhabited, Repr

namespace Gap

/-- The gap holds a break. -/
def hasBreak (g : Gap) : Bool :=
  g.first.isSome

/-- The gap with one more space. -/
def addSpace (g : Gap) (c : Char) : Gap :=
  if g.hasBreak then g else { g with spaces := g.spaces ++ [c] }

/-- The gap with one more break. -/
def addBreak (g : Gap) (b : Text) : Gap :=
  match g.first with
  | none => { g with spaces := [], first := some b }
  | some _ => { g with more := g.more ++ b }

/-- What the gap comes to in the text of the scalar. -/
def folded (g : Gap) : Text :=
  match g.first with
  | none => g.spaces
  | some b =>
    if b = ['\n'] then (if g.more = [] then [' '] else g.more) else b ++ g.more

end Gap

/-- Reads a gap. On a new line no tab may stand before column `indent`. -/
def readGap (indent : Int) : Text → Mark → Gap → Option (Gap × Text × Mark)
  | '\r' :: '\n' :: rest, m, g => readGap indent rest (m.newLine ['\r', '\n']) (g.addBreak ['\n'])
  | c :: rest, m, g =>
    if isSpace c then
      if g.hasBreak && m.column < indent && c = '\t' then none
      else readGap indent rest (m.past [c]) (g.addSpace c)
    else if isBreak c then
      readGap indent rest (m.newLine [c]) (g.addBreak (takeBreak [c] m).1)
    else some (g, c :: rest, m)
  | [], m, g => some (g, [], m)

/-! ## 2. Plain scalars -/

/-- Reads characters up to a gap or an indicator that ends a plain scalar. -/
def plainRun (inFlow : Bool) : Text → Option (Text × Text)
  | [] => some ([], [])
  | c :: rest =>
    if isSpaceOrBreak c then some ([], c :: rest)
    -- Between brackets a colon right before an indicator is refused, not read as an end.
    else if inFlow && c = ':' && rest.head?.any (fun d => d = '?' || isFlowIndicator d) then none
    else if (c = ':' && atWordEnd rest) || (inFlow && isFlowIndicator c) then some ([], c :: rest)
    else (plainRun inFlow rest).map fun (run, rest) => (c :: run, rest)

/-- What was read of a scalar, and whether a line break came last. -/
structure PlainText where
  text : Text
  endsInBreak : Bool
deriving DecidableEq, Inhabited, Repr

/-- Reads runs and gaps as long as the lines are indented by at least `indent`. -/
def plainLoop (inFlow : Bool) (indent : Int) (t : Text) (m : Mark) (text : Text) (gap : Gap) :
    Option (PlainText × Text × Mark) :=
  if atDocumentMark t m || t.head? = some '#' then some (⟨text, gap.hasBreak⟩, t, m)
  else
    match plainRun inFlow t with
    | none => none
    | some ([], rest) => some (⟨text, gap.hasBreak⟩, rest, m)
    | some (run, rest) =>
      let text := text ++ gap.folded ++ run
      let m := m.past run
      if rest.head?.any isSpaceOrBreak then
        match readGap indent rest m {} with
        | none => none
        | some (gap, rest, m) =>
          if !inFlow && m.column < indent then some (⟨text, gap.hasBreak⟩, rest, m)
          else if _h : rest.length < t.length then plainLoop inFlow indent rest m text gap
          else none
      else some (⟨text, false⟩, rest, m)
termination_by t.length

/-- Reads a plain scalar inside a block of the given indentation. -/
def readPlain (inFlow : Bool) (blockIndent : Int) (t : Text) (m : Mark) :
    Option (PlainText × Text × Mark) :=
  plainLoop inFlow (blockIndent + 1) t m [] {}

/-! ## 3. Quoted scalars -/

/-- Reads characters between single quotes up to a gap or a quote. A quote inside is written
twice. -/
def singleRun : Text → Text × Text
  | '\'' :: '\'' :: rest =>
    let (run, rest) := singleRun rest
    ('\'' :: run, rest)
  | '\'' :: rest => ([], '\'' :: rest)
  | c :: rest =>
    if isSpaceOrBreak c then ([], c :: rest)
    else
      let (run, rest) := singleRun rest
      (c :: run, rest)
  | [] => ([], [])

/-- The character that a letter after a backslash stands for. -/
def unescape? : Char → Option Char
  | '0' => some '\x00'
  | 'a' => some '\x07'
  | 'b' => some '\x08'
  | 't' => some '\t'
  | '\t' => some '\t'
  | 'n' => some '\n'
  | 'v' => some '\x0b'
  | 'f' => some '\x0c'
  | 'r' => some '\r'
  | 'e' => some '\x1b'
  | ' ' => some ' '
  | '"' => some '"'
  | '/' => some '/'
  | '\\' => some '\\'
  | 'N' => some '\u0085'
  | '_' => some '\u00a0'
  | 'L' => some '\u2028'
  | 'P' => some '\u2029'
  | _ => none

/-- The character that hexadecimal digits spell. -/
def hexChar? (digits : Text) : Option Char := do
  let n ← hexNumber? digits
  if (0xd800 ≤ n && n ≤ 0xdfff) || 0x10ffff < n then none else some (Char.ofNat n)

/-- Reads characters between double quotes up to a gap, a quote or an escaped break. -/
def doubleRun : Text → Option (Text × Text)
  | '"' :: rest => some ([], '"' :: rest)
  | '\\' :: 'x' :: a :: b :: rest => do
    let c ← hexChar? [a, b]
    let (run, rest) ← doubleRun rest
    pure (c :: run, rest)
  | '\\' :: 'u' :: a :: b :: c :: d :: rest => do
    let c ← hexChar? [a, b, c, d]
    let (run, rest) ← doubleRun rest
    pure (c :: run, rest)
  | '\\' :: 'U' :: a :: b :: c :: d :: e :: f :: g :: h :: rest => do
    let c ← hexChar? [a, b, c, d, e, f, g, h]
    let (run, rest) ← doubleRun rest
    pure (c :: run, rest)
  | '\\' :: e :: rest =>
    if isBreak e then some ([], '\\' :: e :: rest)
    else do
      let c ← unescape? e
      let (run, rest) ← doubleRun rest
      pure (c :: run, rest)
  | c :: rest =>
    if isSpaceOrBreak c then some ([], c :: rest)
    else do
      let (run, rest) ← doubleRun rest
      pure (c :: run, rest)
  | [] => some ([], [])

/-- Reads one run of a quoted scalar. -/
def quotedRun (double : Bool) (t : Text) : Option (Text × Text) :=
  if double then doubleRun t else some (singleRun t)

/-- An escaped break at the front of a text is no gap of its own: it starts one that folds to
the breaks after it. -/
def openGap (double : Bool) (t : Text) (m : Mark) : Text × Mark × Gap :=
  match double, t with
  | true, '\\' :: rest =>
    let (_, rest, m) := takeBreak rest (m.past ['\\'])
    (rest, m, { first := some [] })
  | _, t => (t, m, {})

/-- Reads runs and gaps up to the closing quote. -/
def quotedLoop (double : Bool) (t : Text) (m : Mark) (text : Text) :
    Option (Text × Text × Mark) :=
  if atDocumentMark t m || t = [] then none
  else
    match quotedRun double t with
    | none => none
    | some (run, rest) =>
      let text := text ++ run
      let m := m.upTo t rest
      if rest.head? = some (if double then '"' else '\'') then
        some (text, rest.tail, m.upTo rest rest.tail)
      else
        let (rest, m, gap) := openGap double rest m
        match readGap (-1) rest m gap with
        | none => none
        | some (gap, rest, m) =>
          if _h : rest.length < t.length then quotedLoop double rest m (text ++ gap.folded)
          else none
termination_by t.length

/-- Reads a quoted scalar from its opening quote on. -/
def readQuoted (double : Bool) (t : Text) (m : Mark) : Option (Text × Text × Mark) :=
  quotedLoop double t.tail (m.upTo t t.tail) []

/-! ## 4. Block scalars -/

/-- What becomes of the breaks at the end of a block. -/
inductive Chomping where
  | strip
  | clip
  | keep
deriving DecidableEq, Inhabited, Repr

/-- The header of a block: its chomping, and its indentation if that is given. -/
structure BlockHeader where
  chomping : Chomping
  indent : Nat
deriving DecidableEq, Inhabited, Repr

/-- The chomping that a sign asks for. -/
def chomping? : Char → Option Chomping
  | '+' => some .keep
  | '-' => some .strip
  | _ => none

/-- Reads the header after its indicator: a sign and a digit in either order, each optional. -/
def readHeader (t : Text) : Option (BlockHeader × Text) :=
  match t with
  | c :: rest =>
    match chomping? c with
    | some chomping =>
      match rest with
      | d :: rest' =>
        if d = '0' then none
        else if d.isDigit then some (⟨chomping, d.toNat - '0'.toNat⟩, rest')
        else some (⟨chomping, 0⟩, rest)
      | [] => some (⟨chomping, 0⟩, [])
    | none =>
      if c = '0' then none
      else if c.isDigit then
        match rest with
        | d :: rest' =>
          match chomping? d with
          | some chomping => some (⟨chomping, c.toNat - '0'.toNat⟩, rest')
          | none => some (⟨.clip, c.toNat - '0'.toNat⟩, rest)
        | [] => some (⟨.clip, c.toNat - '0'.toNat⟩, [])
      else some (⟨.clip, 0⟩, t)
  | [] => some (⟨.clip, 0⟩, [])

/-- Reads the rest of a line that may hold spaces and a comment only. -/
def readLineEnd (t : Text) (m : Mark) : Option (Text × Mark) :=
  let (t, m) := skipWhile isSpace t m
  let (t, m) := if t.head? = some '#' then skipWhile (!isBreak ·) t m else (t, m)
  match t with
  | [] => some ([], m)
  | c :: _ => if isBreak c then some (takeBreak t m).2 else none

/-- Reads the empty lines before a line of a block, and the indentation of that line up to
`indent` columns, or all of it where `indent` is zero. The breaks, the widest indentation, and
the rest. -/
def readBreaks (indent : Nat) : Text → Mark → (breaks : Text) → (widest : Nat) →
    Option (Text × Nat × Text × Mark)
  | '\r' :: '\n' :: rest, m, breaks, widest =>
    readBreaks indent rest (m.newLine ['\r', '\n']) (breaks ++ ['\n']) (max widest m.column)
  | c :: rest, m, breaks, widest =>
    let inIndent := indent = 0 || m.column < indent
    if c = ' ' && inIndent then readBreaks indent rest (m.past [c]) breaks widest
    else if c = '\t' && inIndent then none
    else if isBreak c then
      readBreaks indent rest (m.newLine [c]) (breaks ++ (takeBreak [c] m).1) (max widest m.column)
    else some (breaks, max widest m.column, c :: rest, m)
  | [], m, breaks, widest => some (breaks, max widest m.column, [], m)

/-- The text of a block while it is read. -/
structure BlockText where
  text : Text := []
  /-- The break that ended the last line. -/
  lastBreak : Text := []
  /-- The breaks of the empty lines after it. -/
  emptyLines : Text := []
  /-- The last line started with a space. -/
  spaced : Bool := false
deriving DecidableEq, Inhabited, Repr

/-- The block with one more line. In a folded block the break before it becomes a space, unless
one of the two lines starts with a space or empty lines come between them. -/
def BlockText.addLine (b : BlockText) (folding : Bool) (line : Text) : BlockText :=
  let spaced := line.head?.any isSpace
  let joint :=
    if folding && b.lastBreak = ['\n'] && !b.spaced && !spaced then
      if b.emptyLines = [] then [' '] else []
    else b.lastBreak
  { text := b.text ++ joint ++ b.emptyLines ++ line, spaced }

/-- What the block comes to. -/
def BlockText.finish (b : BlockText) : Chomping → Text
  | .strip => b.text
  | .clip => b.text ++ b.lastBreak
  | .keep => b.text ++ b.lastBreak ++ b.emptyLines

/-- Reads the lines of a block that are indented by `indent`. -/
def blockLoop (folding : Bool) (indent : Nat) (t : Text) (m : Mark) (b : BlockText) :
    Option (BlockText × Text × Mark) :=
  if m.column = indent && !t.isEmpty then
    let line := t.takeWhile (!isBreak ·)
    let (rest, m) := skipWhile (!isBreak ·) t m
    let (lastBreak, rest, m) := takeBreak rest m
    match readBreaks indent rest m [] 0 with
    | none => none
    | some (emptyLines, _, rest, m) =>
      let b := { b.addLine folding line with lastBreak, emptyLines }
      if _h : rest.length < t.length then blockLoop folding indent rest m b else none
  else some (b, t, m)
termination_by t.length

/-- Reads a block scalar from its indicator on. -/
def readBlock (folding : Bool) (blockIndent : Int) (t : Text) (m : Mark) :
    Option (Text × Text × Mark) := do
  let (header, rest) ← readHeader t.tail
  let (rest, m) ← readLineEnd rest (m.upTo t rest)
  let given := if header.indent = 0 then 0
    else if 0 ≤ blockIndent then blockIndent.toNat + header.indent else header.indent
  let (emptyLines, widest, rest, m) ← readBreaks given rest m [] 0
  let indent := if given = 0 then max (max widest (blockIndent + 1).toNat) 1 else given
  let (b, rest, m) ← blockLoop folding indent rest m { emptyLines }
  pure (b.finish header.chomping, rest, m)

end Yaml

end AnchoredEdit
