/-
`Json/Value.lean` -- JSON values and the two ways of writing them.

The members of an object are kept in the order they are written. Strings escape the quote,
the backslash and the characters below U+0020, and nothing else; so whatever a value holds, its
compact form is a single line. The indented form puts each element and each member on a line
of its own, two blanks deeper than what surrounds it.
-/
import AnchoredEdit.Json.Numeral

set_option autoImplicit false

namespace AnchoredEdit

/-- A JSON value. -/
inductive Json where
  | null
  | bool (b : Bool)
  | num (n : Json.Number)
  | str (s : String)
  | arr (items : List Json)
  | obj (members : List (String × Json))
deriving Inhabited, Repr

namespace Json

/-- The natural `n` as a value. -/
def ofNat (n : Nat) : Json :=
  .num (.nat n)

/-- The integer `n` as a value. -/
def ofInt (n : Int) : Json :=
  .num (.ofInt n)

/-- The text `t` as a value. -/
def ofText (t : Text) : Json :=
  .str (String.ofList t)

/-- A value that may be absent, with `null` for none. -/
def ofOption {α : Type} (f : α → Json) : Option α → Json
  | none => .null
  | some a => f a

/-- The member called `name`, the last one if there are several. -/
def member? (name : String) : Json → Option Json
  | .obj members => (members.reverse.find? (·.1 = name)).map (·.2)
  | _ => none

/-! ## 1. Strings and numbers -/

/-- A hexadecimal digit in lower case. -/
def hexDigit (n : Nat) : Char :=
  Nat.digitChar n

/-- How the character `c` is written inside a string. -/
def escapeChar (c : Char) : Text :=
  match c with
  | '"' => ['\\', '"']
  | '\\' => ['\\', '\\']
  | '\x08' => ['\\', 'b']
  | '\t' => ['\\', 't']
  | '\n' => ['\\', 'n']
  | '\x0c' => ['\\', 'f']
  | '\r' => ['\\', 'r']
  | c =>
    if c.toNat < 0x20 then
      ['\\', 'u', '0', '0', hexDigit (c.toNat / 16), hexDigit (c.toNat % 16)]
    else [c]

/-- A string with its quotes. -/
def writeString (s : String) : Text :=
  '"' :: s.toList.flatMap escapeChar ++ ['"']

/-- A number as a numeral. -/
def Number.write : Number → Text
  | .nat n => Nat.toDigits 10 n
  | .neg n => '-' :: Nat.toDigits 10 n
  | .real negative x => (if negative then ['-'] else []) ++ x.toText.toList

/-- A value without parts. -/
def writeBool (b : Bool) : Text :=
  if b then "true".toList else "false".toList

/-! ## 2. The compact form -/

mutual

/-- The value on one line, without blanks. -/
def compact : Json → Text
  | .null => "null".toList
  | .bool b => writeBool b
  | .num n => n.write
  | .str s => writeString s
  | .arr items => '[' :: compactItems items ++ [']']
  | .obj members => '{' :: compactMembers members ++ ['}']

/-- The elements of an array, separated by commas. -/
def compactItems : List Json → Text
  | [] => []
  | [v] => compact v
  | v :: rest => compact v ++ ',' :: compactItems rest

/-- The members of an object, separated by commas. -/
def compactMembers : List (String × Json) → Text
  | [] => []
  | [(k, v)] => writeString k ++ ':' :: compact v
  | (k, v) :: rest => writeString k ++ ':' :: compact v ++ ',' :: compactMembers rest

end

/-! ## 3. The indented form -/

/-- A line break and the indentation of level `level`. -/
def newline (level : Nat) : Text :=
  '\n' :: List.replicate (2 * level) ' '

mutual

/-- The value with its parts on lines of their own, inside level `level`. -/
def prettyAt (level : Nat) : Json → Text
  | .null => "null".toList
  | .bool b => writeBool b
  | .num n => n.write
  | .str s => writeString s
  | .arr [] => "[]".toList
  | .arr (v :: rest) => '[' :: prettyItems (level + 1) (v :: rest) ++ newline level ++ [']']
  | .obj [] => ['{', '}']
  | .obj (m :: rest) => '{' :: prettyMembers (level + 1) (m :: rest) ++ newline level ++ ['}']

/-- The elements of an array on level `level`. -/
def prettyItems (level : Nat) : List Json → Text
  | [] => []
  | [v] => newline level ++ prettyAt level v
  | v :: rest => newline level ++ prettyAt level v ++ ',' :: prettyItems level rest

/-- The members of an object on level `level`. -/
def prettyMembers (level : Nat) : List (String × Json) → Text
  | [] => []
  | [(k, v)] => newline level ++ writeString k ++ ": ".toList ++ prettyAt level v
  | (k, v) :: rest =>
    newline level ++ writeString k ++ ": ".toList ++ prettyAt level v
      ++ ',' :: prettyMembers level rest

end

/-- The value in the indented form. -/
def pretty (v : Json) : Text :=
  prettyAt 0 v

end Json

end AnchoredEdit
