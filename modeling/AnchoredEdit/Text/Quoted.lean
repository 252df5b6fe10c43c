/-
`Text/Quoted.lean` -- texts as quoted literals for diagnostics.

The quote and the backslash are escaped by a backslash; so are the four characters that
have a letter of their own (NUL, tab, line feed, carriage return). Any other character
without a visible form is written by its code point in braces, lower case and unpadded.
All the rest stands for itself. A quoted text therefore never holds a line break, whatever
the text holds.
-/
import AnchoredEdit.Text.Bytes
import AnchoredEdit.Text.Unprintable

set_option autoImplicit false

namespace AnchoredEdit

namespace Text

/-- The code point of `c` in lower-case hexadecimal. -/
def hexDigits (c : Char) : Text :=
  Nat.toDigits 16 c.toNat

/-- How the character `c` is written between quotes. -/
def quoteChar (c : Char) : Text :=
  match c with
  | '"' => ['\\', '"']
  | '\\' => ['\\', '\\']
  | '\n' => ['\\', 'n']
  | '\r' => ['\\', 'r']
  | '\t' => ['\\', 't']
  | '\x00' => ['\\', '0']
  | c => if isUnprintable c then ['\\', 'u', '{'] ++ hexDigits c ++ ['}'] else [c]

/-- The text `t` between quotes. -/
def quote (t : Text) : Text :=
  '"' :: t.flatMap quoteChar ++ ['"']

end Text

end AnchoredEdit
