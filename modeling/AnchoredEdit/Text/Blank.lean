/-
`Text/Blank.lean` -- blank characters, and texts that hold nothing else.

The blank characters are the 25 code points with the Unicode property `White_Space`.
-/
import AnchoredEdit.Text.Bytes

set_option autoImplicit false

namespace AnchoredEdit

/-- The character `c` has the property `White_Space`. -/
def isBlank (c : Char) : Bool :=
  let n := c.toNat
  (0x09 ≤ n && n ≤ 0x0d) || n = 0x20 || n = 0x85 || n = 0xa0 || n = 0x1680
    || (0x2000 ≤ n && n ≤ 0x200a) || n = 0x2028 || n = 0x2029 || n = 0x202f
    || n = 0x205f || n = 0x3000

/-- Nothing is left of `t` once its blank characters are taken away. -/
def Text.allBlank (t : Text) : Bool :=
  t.all isBlank

end AnchoredEdit
