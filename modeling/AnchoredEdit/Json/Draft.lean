/-
`Json/Draft.lean` -- reading JSON text, broken text included.

A reader that takes a text apart from left to right notices two kinds of trouble: a value of
the wrong shape, and text that is no JSON. Which of the two it reports depends on which comes
first. So reading and shaping are kept apart: `read` turns any text into a `Draft`, a value
with whatever could be read of it and a sign where reading got stuck, and the shape is judged on
the draft afterwards, in the order of the text.

Two kinds of leaf are complete as text and still denote nothing: a string with half of a
surrogate pair, and a number out of range. Whoever skips such a value does not notice.
-/
import AnchoredEdit.Json.Value

set_option autoImplicit false

namespace AnchoredEdit

namespace Json

/-! ## 1. Drafts -/

/-- A value as far as it could be read. -/
inductive Draft where
  | null
  | bool (b : Bool)
  | num (n : Number)
  | str (s : String)
  /-- A string with half of a surrogate pair. -/
  | halfString
  /-- A number out of range. -/
  | hugeNumber
  /-- The elements of an array; the flag tells whether its end was reached. -/
  | arr (items : List Draft) (closed : Bool)
  /-- The members of an object, with no key where it is half of a string. -/
  | obj (members : List (Option String × Draft)) (closed : Bool)
  /-- No value starts here. -/
  | stuck
deriving Inhabited, Repr

/-- The value was read to its end. -/
def Draft.complete : Draft → Bool
  | .arr _ closed => closed
  | .obj _ closed => closed
  | .stuck => false
  | _ => true

/-! ## 2. Strings -/

/-- One character of a string, or one escape of a UTF-16 code unit. -/
inductive Piece where
  | char (c : Char)
  | unit (n : Nat)
deriving DecidableEq, Inhabited, Repr

/-- The character that a letter after a backslash stands for. -/
def unescape? : Char → Option Char
  | '"' => some '"'
  | '\\' => some '\\'
  | '/' => some '/'
  | 'b' => some '\x08'
  | 'f' => some '\x0c'
  | 'n' => some '\n'
  | 'r' => some '\r'
  | 't' => some '\t'
  | _ => none

/-- The value of a hexadecimal digit of either case. -/
def hexValue? (c : Char) : Option Nat :=
  if c.isDigit then some (c.toNat - '0'.toNat)
  else if 'a' ≤ c ∧ c ≤ 'f' then some (c.toNat - 'a'.toNat + 10)
  else if 'A' ≤ c ∧ c ≤ 'F' then some (c.toNat - 'A'.toNat + 10)
  else none

/-- The code unit that four hexadecimal digits spell. -/
def codeUnit? (a b c d : Char) : Option Nat := do
  let a ← hexValue? a
  let b ← hexValue? b
  let c ← hexValue? c
  let d ← hexValue? d
  pure (((a * 16 + b) * 16 + c) * 16 + d)

/-- The pieces of a string up to its closing quote, and the text after it. -/
def readPieces? : Text → Option (List Piece × Text)
  | [] => none
  | '"' :: rest => some ([], rest)
  | '\\' :: 'u' :: a :: b :: c :: d :: rest => do
    let n ← codeUnit? a b c d
    let (pieces, rest) ← readPieces? rest
    pure (.unit n :: pieces, rest)
  | '\\' :: e :: rest => do
    let c ← unescape? e
    let (pieces, rest) ← readPieces? rest
    pure (.char c :: pieces, rest)
  | c :: rest =>
    if c.toNat < 0x20 || c = '\\' then none
    else do
      let (pieces, rest) ← readPieces? rest
      pure (.char c :: pieces, rest)

/-- The characters of a string: a high code unit joins the low one right after it, and no
surrogate stands alone. -/
def joinPieces? : List Piece → Option Text
  | [] => some []
  | .char c :: rest => (joinPieces? rest).map (c :: ·)
  | .unit high :: .unit low :: rest =>
    if 0xd800 ≤ high ∧ high < 0xdc00 then
      if 0xdc00 ≤ low ∧ low < 0xe000 then
        (joinPieces? rest).map
          (Char.ofNat (0x10000 + (high - 0xd800) * 0x400 + (low - 0xdc00)) :: ·)
      else none
    else if 0xdc00 ≤ high ∧ high < 0xe000 then none
    else (joinPieces? (.unit low :: rest)).map (Char.ofNat high :: ·)
  | .unit n :: rest =>
    if 0xd800 ≤ n ∧ n < 0xe000 then none
    else (joinPieces? rest).map (Char.ofNat n :: ·)

/-- The string after an opening quote, none if half of it is missing, and the text after it. -/
def readString? (t : Text) : Option (Option String × Text) :=
  (readPieces? t).map fun (pieces, rest) => ((joinPieces? pieces).map String.ofList, rest)

/-! ## 3. Values -/

/-- The characters that may stand between the parts of a value. -/
def isGap (c : Char) : Bool :=
  c = ' ' || c = '\n' || c = '\t' || c = '\r'

/-- The text without the gap at its front. -/
def skipGap (t : Text) : Text :=
  t.dropWhile isGap

/-- Reads the given letters off the front of a text. -/
def expect? : Text → Text → Option Text
  | [], t => some t
  | c :: word, d :: t => if c = d then expect? word t else none
  | _ :: _, [] => none

/-- A value that is one word. -/
def readWord (word : Text) (value : Draft) (t : Text) : Draft × Option Text :=
  match expect? word t with
  | some rest => (value, some rest)
  | none => (.stuck, none)

/-- A value that is a number. -/
def readNumber (t : Text) : Draft × Option Text :=
  match Numeral.read? t with
  | none => (.stuck, none)
  | some (numeral, rest) =>
    match numeral.number? with
    | some n => (.num n, some rest)
    | none => (.hugeNumber, some rest)

/-- A value that is a string, after its opening quote. -/
def readText (t : Text) : Draft × Option Text :=
  match readString? t with
  | none => (.stuck, none)
  | some (some s, rest) => (.str s, some rest)
  | some (none, rest) => (.halfString, some rest)

mutual

/-- Reads one value. The second part is the text after it, none where reading got stuck.
Each step down takes one unit of `fuel` and at least one character. -/
def readValue : (fuel : Nat) → Text → Draft × Option Text
  | 0, _ => (.stuck, none)
  | fuel + 1, t =>
    match skipGap t with
    | '"' :: rest => readText rest
    | '[' :: rest =>
      match skipGap rest with
      | ']' :: rest => (.arr [] true, some rest)
      | _ =>
        let (items, rest) := readItems fuel rest
        (.arr items rest.isSome, rest)
    | '{' :: rest =>
      match skipGap rest with
      | '}' :: rest => (.obj [] true, some rest)
      | _ =>
        let (members, rest) := readMembers fuel rest
        (.obj members rest.isSome, rest)
    | 'n' :: rest => readWord "ull".toList .null rest
    | 't' :: rest => readWord "rue".toList (.bool true) rest
    | 'f' :: rest => readWord "alse".toList (.bool false) rest
    | rest => readNumber rest

/-- Reads the elements of an array from the first one to the closing bracket. -/
def readItems : (fuel : Nat) → Text → List Draft × Option Text
  | 0, _ => ([], none)
  | fuel + 1, t =>
    match readValue fuel t with
    | (item, none) => ([item], none)
    | (item, some rest) =>
      match skipGap rest with
      | ',' :: rest =>
        let (items, rest) := readItems fuel rest
        (item :: items, rest)
      | ']' :: rest => ([item], some rest)
      | _ => ([item], none)

/-- Reads the members of an object from the first one to the closing brace. -/
def readMembers : (fuel : Nat) → Text → List (Option String × Draft) × Option Text
  | 0, _ => ([], none)
  | fuel + 1, t =>
    match skipGap t with
    | '"' :: rest =>
      match readString? rest with
      | none => ([], none)
      | some (key, rest) =>
        match skipGap rest with
        | ':' :: rest =>
          match readValue fuel rest with
          | (value, none) => ([(key, value)], none)
          | (value, some rest) =>
            match skipGap rest with
            | ',' :: rest =>
              let (members, rest) := readMembers fuel rest
              ((key, value) :: members, rest)
            | '}' :: rest => ([(key, value)], some rest)
            | _ => ([(key, value)], none)
        | _ => ([(key, .stuck)], none)
    | _ => ([], none)

end

/-- A whole text: the value at its front, and whether anything but a gap comes after it. -/
structure Document where
  value : Draft
  clean : Bool
deriving Inhabited, Repr

/-- Reads a whole text. -/
def read (t : Text) : Document :=
  match readValue (2 * t.length + 1) t with
  | (value, none) => ⟨value, false⟩
  | (value, some rest) => ⟨value, skipGap rest = []⟩

/-! ## 4. Drafts as values -/

/-- Puts a member into a list of members sorted by key; a later member with the same key takes
the place of the earlier one. -/
def insertMember (key : String) (value : Json) :
    List (String × Json) → List (String × Json)
  | [] => [(key, value)]
  | (k, v) :: rest =>
    if key = k then (key, value) :: rest
    else if key < k then (key, value) :: (k, v) :: rest
    else (k, v) :: insertMember key value rest

/-- Members sorted by key, the last one of each key. -/
def sortMembers (members : List (String × Json)) : List (String × Json) :=
  members.foldl (fun sorted (key, value) => insertMember key value sorted) []

mutual

/-- The value of a draft that was read to its end and holds no leaf without a value, if it is
nested at most `depth` levels deep. Objects are sorted by key. -/
def Draft.value? (depth : Nat) : Draft → Option Json
  | .null => some .null
  | .bool b => some (.bool b)
  | .num n => some (.num n)
  | .str s => some (.str s)
  | .arr items closed =>
    match depth with
    | 0 => none
    | depth + 1 => if closed then (Draft.values? depth items).map .arr else none
  | .obj members closed =>
    match depth with
    | 0 => none
    | depth + 1 =>
      if closed then (Draft.members? depth members).map fun ms => .obj (sortMembers ms)
      else none
  | .halfString | .hugeNumber | .stuck => none

/-- The values of the elements of an array. -/
def Draft.values? (depth : Nat) : List Draft → Option (List Json)
  | [] => some []
  | d :: rest => do
    let v ← Draft.value? depth d
    let vs ← Draft.values? depth rest
    pure (v :: vs)

/-- The members of an object. -/
def Draft.members? (depth : Nat) : List (Option String × Draft) → Option (List (String × Json))
  | [] => some []
  | (none, _) :: _ => none
  | (some key, d) :: rest => do
    let v ← Draft.value? depth d
    let vs ← Draft.members? depth rest
    pure ((key, v) :: vs)

end

mutual

/-- A value as the draft of itself. -/
def toDraft : Json → Draft
  | .null => .null
  | .bool b => .bool b
  | .num n => .num n
  | .str s => .str s
  | .arr items => .arr (toDrafts items) true
  | .obj members => .obj (toDraftMembers members) true

/-- The drafts of the elements of an array. -/
def toDrafts : List Json → List Draft
  | [] => []
  | v :: rest => toDraft v :: toDrafts rest

/-- The drafts of the members of an object. -/
def toDraftMembers : List (String × Json) → List (Option String × Draft)
  | [] => []
  | (key, v) :: rest => (some key, toDraft v) :: toDraftMembers rest

end

/-- Values may be nested this deep. -/
def maxDepth : Nat :=
  127

/-- The value of a text that is JSON from its first to its last character. -/
def parse? (t : Text) : Option Json :=
  let document := read t
  if document.clean then document.value.value? maxDepth else none

end Json

end AnchoredEdit
