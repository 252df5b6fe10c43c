/-
`Yaml/Chars.lean` -- characters of YAML, and places in a text.

Reading goes from left to right. What is left of the text and the mark of the place are kept
side by side, so that recursion follows the text.
-/
import AnchoredEdit.Text.Bytes

set_option autoImplicit false

namespace AnchoredEdit

namespace Yaml

/-! ## 1. Classes of characters -/

/-- A space or a tab. -/
def isSpace (c : Char) : Bool :=
  c = ' ' || c = '\t'

/-- A line break. -/
def isBreak (c : Char) : Bool :=
  c = '\r' || c = '\n' || c = '\u0085' || c = '\u2028' || c = '\u2029'

/-- A character that ends a word. -/
def isSpaceOrBreak (c : Char) : Bool :=
  isSpace c || isBreak c

/-- A character of a name. -/
def isNameChar (c : Char) : Bool :=
  c.isAlphanum || c = '_' || c = '-'

/-- A character that brackets or separates the parts of a flow collection. -/
def isFlowIndicator (c : Char) : Bool :=
  c = ',' || c = '[' || c = ']' || c = '{' || c = '}'

/-- A character that a stream may hold. -/
def isAllowed (c : Char) : Bool :=
  let n := c.toNat
  n = 0x09 || n = 0x0a || n = 0x0d || (0x20 ≤ n && n ≤ 0x7e) || n = 0x85
    || (0xa0 ≤ n && n ≤ 0xfffd) || 0x10000 ≤ n

/-- The text is at its end or goes on with a character that ends a word. -/
def atWordEnd : Text → Bool
  | [] => true
  | c :: _ => isSpaceOrBreak c

/-! ## 2. Places -/

/-- A place in a text: its line, and its column in characters. The index counts the bytes of all
characters before it. -/
structure Mark where
  line : Nat := 0
  column : Nat := 0
  index : Nat := 0
deriving DecidableEq, Inhabited, Repr

namespace Mark

/-- The place after the characters `t`, none of which is a break. -/
def past (m : Mark) (t : Text) : Mark :=
  { m with column := m.column + t.length, index := m.index + t.byteLength }

/-- The start of the next line, after the characters of a break. -/
def newLine (m : Mark) (t : Text) : Mark :=
  ⟨m.line + 1, 0, m.index + t.byteLength⟩

/-- The place at which `rest` starts, when `m` is the place of `t` and no break lies between. -/
def upTo (m : Mark) (t rest : Text) : Mark :=
  m.past (t.take (t.length - rest.length))

end Mark

/-- Skips the characters of a class, none of which is a break. -/
def skipWhile (p : Char → Bool) (t : Text) (m : Mark) : Text × Mark :=
  (t.dropWhile p, m.past (t.takeWhile p))

/-- Takes the break off the front of a text. The two characters of a carriage return and a line
feed are one break; all but the two Unicode separators are read as a line feed. -/
def takeBreak (t : Text) (m : Mark) : Text × Text × Mark :=
  match t with
  | '\r' :: '\n' :: rest => (['\n'], rest, m.newLine ['\r', '\n'])
  | c :: rest =>
    if c = '\u2028' || c = '\u2029' then ([c], rest, m.newLine [c])
    else if isBreak c then (['\n'], rest, m.newLine [c])
    else ([], c :: rest, m)
  | [] => ([], [], m)

/-- A line starts here with the mark of a document's start or end. -/
def atDocumentMark (t : Text) (m : Mark) : Bool :=
  m.column = 0 &&
    match t with
    | '-' :: '-' :: '-' :: rest => atWordEnd rest
    | '.' :: '.' :: '.' :: rest => atWordEnd rest
    | _ => false

/-- The value of a hexadecimal digit. -/
def hexValue? (c : Char) : Option Nat :=
  if c.isDigit then some (c.toNat - '0'.toNat)
  else if 'a' ≤ c ∧ c ≤ 'f' then some (c.toNat - 'a'.toNat + 10)
  else if 'A' ≤ c ∧ c ≤ 'F' then some (c.toNat - 'A'.toNat + 10)
  else none

/-- The number that hexadecimal digits spell. -/
def hexNumber? (digits : Text) : Option Nat :=
  digits.foldlM (fun n c => (hexValue? c).map (16 * n + ·)) 0

end Yaml

end AnchoredEdit
