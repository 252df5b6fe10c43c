/-
`Yaml/Token.lean` -- YAML text as tokens.

A scanner reads tokens from left to right and keeps track of the indentation of the open blocks.
One thing it learns late: that a token was the start of a key shows only when the colon after
the key is reached. So tokens go into slots that are only ever appended, and when the colon
comes, the slot of the key is marked. The tokens are read off the slots in the end, where a
marked slot puts the start of a key, and perhaps of a mapping, in front of its token.

Which token may start a key is remembered once for each level of flow collections; on a level
without brackets such a key has to end on its line, and where the indentation already says that
a key must come, a missing colon is an error.
-/
import AnchoredEdit.Yaml.Scalar

set_option autoImplicit false

namespace AnchoredEdit

namespace Yaml

/-! ## 1. Tokens and slots -/

/-- The smallest parts of a YAML text. -/
inductive Token where
  | versionDirective (major minor : Nat)
  | tagDirective (handle expansion : Text)
  | documentStart
  | documentEnd
  | blockSequenceStart
  | blockMappingStart
  | blockEnd
  | flowSequenceStart
  | flowSequenceEnd
  | flowMappingStart
  | flowMappingEnd
  | blockEntry
  | flowEntry
  | key
  | value
  | alias (name : Text)
  | anchor (name : Text)
  | tag (handle suffix : Text)
  | scalar (style : Style) (text : Text)
deriving DecidableEq, Inhabited, Repr

/-- A token, and what goes in front of it. -/
structure Slot where
  token : Token
  /-- The token starts a key. -/
  startsKey : Bool := false
  /-- The key is the first one of a mapping. -/
  startsMapping : Bool := false
deriving DecidableEq, Inhabited, Repr

/-- The tokens of a slot. -/
def Slot.tokens (s : Slot) : List Token :=
  (if s.startsMapping then [.blockMappingStart] else [])
    ++ (if s.startsKey then [.key] else []) ++ [s.token]

/-! ## 2. The state of the scanner -/

/-- A token that may turn out to start a key. -/
structure KeyCandidate where
  /-- The number of its slot. -/
  slot : Nat
  mark : Mark
  /-- The indentation says that this must be a key. -/
  required : Bool
deriving DecidableEq, Inhabited, Repr

/-- The state of the scanner. -/
structure Scan where
  rest : Text
  mark : Mark := {}
  slots : List Slot := []
  /-- The indentation of the innermost block, -1 outside of all. -/
  indent : Int := -1
  /-- The indentations of the blocks around it. -/
  outerIndents : List Int := []
  /-- The key candidate of the innermost level. -/
  candidate : Option KeyCandidate := none
  /-- The key candidates of the levels around it, one for each open bracket. -/
  outerCandidates : List (Option KeyCandidate) := []
  /-- A key may start here. -/
  keyAllowed : Bool := true
deriving Inhabited, Repr

namespace Scan

/-- Some bracket is open. -/
def inFlow (s : Scan) : Bool :=
  !s.outerCandidates.isEmpty

/-- Appends a token. -/
def push (s : Scan) (token : Token) : Scan :=
  { s with slots := s.slots ++ [{ token }] }

/-- Moves on by `n` characters of the current line. -/
def advance (s : Scan) (n : Nat) : Scan :=
  { s with rest := s.rest.drop n, mark := s.mark.past (s.rest.take n) }

/-- Moves on to the given place. -/
def goto (s : Scan) (rest : Text) (mark : Mark) : Scan :=
  { s with rest, mark }

/-- Gives up the key candidate; one that is required cannot be given up. -/
def dropCandidate (s : Scan) : Option Scan :=
  match s.candidate with
  | some { required := true, .. } => none
  | _ => some { s with candidate := none }

/-- Makes the token to come the key candidate, if a key may start here. -/
def saveCandidate (s : Scan) : Option Scan :=
  if s.keyAllowed then do
    let s ← s.dropCandidate
    let required := !s.inFlow && s.indent = s.mark.column
    pure { s with candidate := some ⟨s.slots.length, s.mark, required⟩ }
  else some s

/-- A candidate is stale once its line is over or it is 1024 bytes back. -/
def isStale (m : Mark) (k : KeyCandidate) : Bool :=
  k.mark.line < m.line || k.mark.index + 1024 < m.index

/-- A candidate that is not stale; one that is required must not be. -/
def freshen (m : Mark) : Option KeyCandidate → Option (Option KeyCandidate)
  | none => some none
  | some k => if isStale m k then (if k.required then none else some none) else some (some k)

/-- Gives up all stale candidates. -/
def dropStale (s : Scan) : Option Scan := do
  let candidate ← freshen s.mark s.candidate
  let outerCandidates ← s.outerCandidates.mapM (freshen s.mark)
  pure { s with candidate, outerCandidates }

/-- Opens a block at `column` if that is deeper than the innermost one. Outside of brackets
only. The flag tells whether a block was opened. -/
def openBlock (s : Scan) (column : Nat) : Scan × Bool :=
  if !s.inFlow && s.indent < column then
    ({ s with indent := column, outerIndents := s.indent :: s.outerIndents }, true)
  else (s, false)

/-- Opens a block at the current column and announces it. -/
def startBlock (s : Scan) (token : Token) : Scan :=
  match s.openBlock s.mark.column with
  | (s, true) => s.push token
  | (s, false) => s

/-- Closes the blocks that are deeper than `column`. -/
def closeBlocks (column : Int) : (indent : Int) → (outer : List Int) → Int × List Int × Nat
  | indent, outer =>
    if indent ≤ column then (indent, outer, 0)
    else
      match outer with
      | [] => (-1, [], 1)
      | next :: outer =>
        let (indent, outer, n) := closeBlocks column next outer
        (indent, outer, n + 1)

/-- Closes the blocks that are deeper than `column`. Outside of brackets only. -/
def unrollTo (s : Scan) (column : Int) : Scan :=
  if s.inFlow then s
  else
    let (indent, outerIndents, n) := closeBlocks column s.indent s.outerIndents
    { s with
      indent, outerIndents
      slots := s.slots ++ List.replicate n { token := .blockEnd } }

/-! ## 3. Between tokens -/

/-- Skips the spaces and the comment at the front of a text. -/
def skipInLine (tabs : Bool) (t : Text) (m : Mark) : Text × Mark :=
  let (t, m) := skipWhile (fun c => c = ' ' || (tabs && c = '\t')) t m
  if t.head? = some '#' then skipWhile (!isBreak ·) t m else (t, m)

/-- Skips spaces, comments and breaks up to the next token. A byte order mark may start a line,
and a tab counts as a space only where no key may start. -/
def skipToToken (s : Scan) : Scan :=
  let (rest, mark) :=
    if s.mark.column = 0 && s.rest.head? = some '\ufeff' then
      (s.rest.tail, s.mark.upTo s.rest s.rest.tail)
    else (s.rest, s.mark)
  -- Where a key may start, a tab would be indentation.
  let (rest, mark) := skipInLine (s.inFlow || !s.keyAllowed) rest mark
  if rest.head?.any isBreak then
    let (_, rest, mark) := takeBreak rest mark
    if _h : rest.length < s.rest.length then
      skipToToken { s.goto rest mark with keyAllowed := s.keyAllowed || !s.inFlow }
    else s
  else s.goto rest mark
termination_by s.rest.length

/-! ## 4. Names, tags and directives -/

/-- A name at the front of a text. -/
def takeName (t : Text) : Text × Text :=
  (t.takeWhile isNameChar, t.dropWhile isNameChar)

/-- A character that may follow the name of an anchor. -/
def endsAnchor : Text → Bool
  | [] => true
  | c :: _ =>
    isSpaceOrBreak c || c = '?' || c = ':' || c = ',' || c = ']' || c = '}' || c = '%'
      || c = '@' || c = '`'

/-- Reads the name of an anchor after its indicator. -/
def readAnchorName? (t : Text) : Option (Text × Text) :=
  let (name, rest) := takeName t
  if name = [] || !endsAnchor rest then none else some (name, rest)

/-- The number of bytes of a character by the first of them. -/
def byteCount? (n : Nat) : Option Nat :=
  if n < 0x80 then some 1
  else if 0xc0 ≤ n && n < 0xe0 then some 2
  else if 0xe0 ≤ n && n < 0xf0 then some 3
  else if 0xf0 ≤ n && n < 0xf8 then some 4
  else none

/-- The part of a first byte that counts. -/
def leadingBits (count n : Nat) : Nat :=
  match count with
  | 1 => n
  | 2 => n % 0x20
  | 3 => n % 0x10
  | _ => n % 0x08

/-- One byte, written as a percent sign and two digits. -/
def readOctet? : Text → Option (Nat × Text)
  | '%' :: a :: b :: rest => (hexNumber? [a, b]).map fun n => (n, rest)
  | _ => none

/-- The bytes that continue a character. -/
def readContinuation? : (count value : Nat) → Text → Option (Nat × Text)
  | 0, value, t => some (value, t)
  | count + 1, value, t => do
    let (n, rest) ← readOctet? t
    if 0x80 ≤ n && n < 0xc0 then readContinuation? count (value * 0x40 + n % 0x40) rest else none

/-- The character that a number written in `count` bytes stands for. Bytes that encode no
character, or one that takes fewer of them, give the replacement character. -/
def escapedChar (count value : Nat) : Char :=
  let c := Char.ofNat value
  if c.toNat = value ∧ c.utf8Size = count then c else '\ufffd'

/-- A character, written as its bytes. -/
def readEscape? (t : Text) : Option (Char × Text) := do
  let (n, rest) ← readOctet? t
  let count ← byteCount? n
  let (value, rest) ← readContinuation? (count - 1) (leadingBits count n) rest
  pure (escapedChar count value, rest)

/-- A character of a tag; the last three only where no flow collection can be meant. -/
def isTagChar (whole : Bool) (c : Char) : Bool :=
  isNameChar c || ";/?:@&=+$.%!~*'()".toList.contains c || (whole && ",[]".toList.contains c)

/-- Reads the characters of a tag. -/
def readTagText? (whole : Bool) : (fuel : Nat) → Text → Option (Text × Text)
  | 0, t => some ([], t)
  | fuel + 1, t =>
    match t with
    | [] => some ([], [])
    | c :: rest =>
      if !isTagChar whole c then some ([], t)
      else do
        let (c, rest) ← if c = '%' then readEscape? t else some (c, rest)
        let (text, rest) ← readTagText? whole fuel rest
        pure (c :: text, rest)

/-- What counts of the characters of a tag: those before the first NUL, which an escape may
spell. -/
def beforeNul (t : Text) : Text :=
  t.takeWhile (· ≠ '\x00')

/-- Reads the handle of a tag: an exclamation mark, a name, perhaps one more mark. -/
def readHandle? : Text → Option (Text × Text)
  | '!' :: t =>
    let (name, rest) := takeName t
    match rest with
    | '!' :: rest => some ('!' :: name ++ ['!'], rest)
    | rest => some ('!' :: name, rest)
  | _ => none

/-- Reads a tag: its handle and its suffix. -/
def readTag? (inFlow : Bool) (t : Text) : Option (Text × Text × Text) := do
  let (handle, suffix, rest) ←
    match t with
    | '!' :: '<' :: t => do
      let (suffix, rest) ← readTagText? true t.length t
      match suffix, rest with
      | _ :: _, '>' :: rest => some ([], beforeNul suffix, rest)
      | _, _ => none
    | t => do
      let (handle, rest) ← readHandle? t
      let (suffix, rest) ← readTagText? false rest.length rest
      if 2 ≤ handle.length && handle.getLast? = some '!' then
        if suffix = [] then none else some (handle, beforeNul suffix, rest)
      else
        match handle.tail ++ beforeNul suffix with
        | [] => some ([], ['!'], rest)
        | suffix => some (['!'], suffix, rest)
  if atWordEnd rest || (inFlow && rest.head? = some ',') then some (handle, suffix, rest) else none

/-- Reads a number of at most nine digits. -/
def readVersionNumber? (t : Text) : Option (Nat × Text) :=
  let digits := t.takeWhile (·.isDigit)
  if digits = [] || 9 < digits.length then none
  else some (digits.foldl (fun n c => 10 * n + (c.toNat - '0'.toNat)) 0, t.dropWhile (·.isDigit))

/-- Reads a directive after its percent sign, up to the end of what it says. -/
def readDirective? (t : Text) : Option (Token × Text) := do
  let (name, rest) := takeName t
  if !atWordEnd rest then none
  let rest := rest.dropWhile isSpace
  if name = "YAML".toList then
    let (major, rest) ← readVersionNumber? rest
    match rest with
    | '.' :: rest =>
      let (minor, rest) ← readVersionNumber? rest
      some (.versionDirective major minor, rest)
    | _ => none
  else if name = "TAG".toList then
    let (handle, rest) ← readHandle? rest
    if handle ≠ ['!'] && handle.getLast? ≠ some '!' then none
    if !rest.head?.any isSpace then none
    let rest := rest.dropWhile isSpace
    let (expansion, rest) ← readTagText? true rest.length rest
    if expansion = [] || !atWordEnd rest then none
    some (.tagDirective handle (beforeNul expansion), rest)
  else none

/-! ## 5. One token -/

/-- Scans a directive. -/
def scanDirective (s : Scan) : Option Scan := do
  let s ← (s.unrollTo (-1)).dropCandidate
  let (token, rest) ← readDirective? s.rest.tail
  let (rest, mark) ← readLineEnd rest (s.mark.upTo s.rest rest)
  pure { (s.push token).goto rest mark with keyAllowed := false }

/-- Scans the mark of a document's start or end. -/
def scanDocumentMark (s : Scan) : Option Scan := do
  let token := if s.rest.head? = some '-' then Token.documentStart else .documentEnd
  let s ← (s.unrollTo (-1)).dropCandidate
  pure { (s.push token).advance 3 with keyAllowed := false }

/-- Scans an opening bracket. -/
def scanFlowStart (s : Scan) (token : Token) : Option Scan := do
  let s ← s.saveCandidate
  pure { (s.push token).advance 1 with
    candidate := none
    outerCandidates := s.candidate :: s.outerCandidates
    keyAllowed := true }

/-- Scans a closing bracket. -/
def scanFlowEnd (s : Scan) (token : Token) : Option Scan := do
  let s ← s.dropCandidate
  let s := match s.outerCandidates with
    | [] => s
    | candidate :: outerCandidates => { s with candidate, outerCandidates }
  pure { (s.push token).advance 1 with keyAllowed := false }

/-- Scans a comma between brackets. -/
def scanFlowEntry (s : Scan) : Option Scan := do
  let s ← s.dropCandidate
  pure { (s.push .flowEntry).advance 1 with keyAllowed := true }

/-- Scans the dash of a sequence. -/
def scanBlockEntry (s : Scan) : Option Scan := do
  if !s.inFlow && !s.keyAllowed then none
  let s ← (if s.inFlow then s else s.startBlock .blockSequenceStart).dropCandidate
  pure { (s.push .blockEntry).advance 1 with keyAllowed := true }

/-- Scans the question mark of a key. -/
def scanKey (s : Scan) : Option Scan := do
  if !s.inFlow && !s.keyAllowed then none
  let s ← (if s.inFlow then s else s.startBlock .blockMappingStart).dropCandidate
  pure { (s.push .key).advance 1 with keyAllowed := !s.inFlow }

/-- Marks the slot of a key. -/
def markKey (slots : List Slot) (n : Nat) (startsMapping : Bool) : List Slot :=
  slots.modify n fun slot => { slot with startsKey := true, startsMapping }

/-- Scans the colon of a value. -/
def scanValue (s : Scan) : Option Scan :=
  match s.candidate with
  | some k =>
    let (s, opened) := s.openBlock k.mark.column
    let s := { s with slots := markKey s.slots k.slot opened, candidate := none }
    some { (s.push .value).advance 1 with keyAllowed := false }
  | none =>
    if !s.inFlow && !s.keyAllowed then none
    else
      let s := if s.inFlow then s else s.startBlock .blockMappingStart
      some { (s.push .value).advance 1 with keyAllowed := !s.inFlow }

/-- Scans an anchor or an alias. -/
def scanAnchor (s : Scan) (token : Text → Token) : Option Scan := do
  let s ← s.saveCandidate
  let (name, rest) ← readAnchorName? s.rest.tail
  pure { (s.push (token name)).advance (s.rest.length - rest.length) with keyAllowed := false }

/-- Scans a tag. -/
def scanTag (s : Scan) : Option Scan := do
  let s ← s.saveCandidate
  let (handle, suffix, rest) ← readTag? s.inFlow s.rest
  pure { (s.push (.tag handle suffix)).advance (s.rest.length - rest.length) with
    keyAllowed := false }

/-- Scans a block scalar. -/
def scanBlock (s : Scan) (style : Style) : Option Scan := do
  let s ← s.dropCandidate
  let (text, rest, mark) ← readBlock (style = .folded) s.indent s.rest s.mark
  pure { (s.push (.scalar style text)).goto rest mark with keyAllowed := true }

/-- Scans a quoted scalar. -/
def scanQuoted (s : Scan) (style : Style) : Option Scan := do
  let s ← s.saveCandidate
  let (text, rest, mark) ← readQuoted (style = .double) s.rest s.mark
  pure { (s.push (.scalar style text)).goto rest mark with keyAllowed := false }

/-- Scans a plain scalar. -/
def scanPlain (s : Scan) : Option Scan := do
  let s ← s.saveCandidate
  let (plain, rest, mark) ← readPlain s.inFlow s.indent s.rest s.mark
  pure { (s.push (.scalar .plain plain.text)).goto rest mark with
    keyAllowed := plain.endsInBreak }

/-- A plain scalar may start with the character `c`, followed by `rest`. -/
def startsPlain (inFlow : Bool) (c : Char) (rest : Text) : Bool :=
  if c = '-' then !rest.head?.any isSpace
  else if c = '?' || c = ':' then !inFlow && !atWordEnd rest
  else !isSpaceOrBreak c && !",[]{}#&*!|>'\"%@`".toList.contains c

/-- Scans the token at the front of the text, which is not at its end. -/
def scanToken (s : Scan) (c : Char) (rest : Text) : Option Scan :=
  if s.mark.column = 0 && c = '%' then s.scanDirective
  else if atDocumentMark s.rest s.mark then s.scanDocumentMark
  else if c = '[' then s.scanFlowStart .flowSequenceStart
  else if c = '{' then s.scanFlowStart .flowMappingStart
  else if c = ']' then s.scanFlowEnd .flowSequenceEnd
  else if c = '}' then s.scanFlowEnd .flowMappingEnd
  else if c = ',' then s.scanFlowEntry
  else if c = '-' && atWordEnd rest then s.scanBlockEntry
  else if c = '?' && (s.inFlow || atWordEnd rest) then s.scanKey
  else if c = ':' && (s.inFlow || atWordEnd rest) then s.scanValue
  else if c = '*' then s.scanAnchor .alias
  else if c = '&' then s.scanAnchor .anchor
  else if c = '!' then s.scanTag
  else if c = '|' && !s.inFlow then s.scanBlock .literal
  else if c = '>' && !s.inFlow then s.scanBlock .folded
  else if c = '\'' then s.scanQuoted .single
  else if c = '"' then s.scanQuoted .double
  else if startsPlain s.inFlow c rest then s.scanPlain
  else none

/-- Ends the scan: closes all blocks. -/
def finish (s : Scan) : Option (List Token) := do
  let s ← (s.unrollTo (-1)).dropCandidate
  pure (s.slots.flatMap Slot.tokens)

/-- Scans one token after the other to the end of the text. -/
def run (s : Scan) : Option (List Token) :=
  match (s.skipToToken).dropStale with
  | none => none
  | some s₁ =>
    let s₁ := s₁.unrollTo s₁.mark.column
    match s₁.rest with
    | [] => s₁.finish
    | c :: rest =>
      match s₁.scanToken c rest with
      | none => none
      | some s₂ => if _h : s₂.rest.length < s.rest.length then run s₂ else none
termination_by s.rest.length

end Scan

/-- The tokens of a text; none if it is no YAML. -/
def tokens? (t : Text) : Option (List Token) :=
  if t.all isAllowed then Scan.run { rest := t } else none

end Yaml

end AnchoredEdit
