/-
`Diff/Lines.lean` -- texts as lines that keep their endings.

A line ends after a line feed, a carriage return, or both in that order reversed: a carriage
return and the line feed after it end one line. The ending belongs to the line, so the lines of
a text joined again are the text.
-/
import AnchoredEdit.Text.Bytes

set_option autoImplicit false

namespace AnchoredEdit

namespace Diff

/-- Puts a character in front of the first line, or makes a line of it. -/
def consChar (c : Char) : List Text → List Text
  | [] => [[c]]
  | line :: rest => (c :: line) :: rest

/-- The lines of a text, each with its ending. -/
def lines : Text → List Text
  | [] => []
  | '\r' :: '\n' :: rest => ['\r', '\n'] :: lines rest
  | c :: rest =>
    if c = '\n' || c = '\r' then [c] :: lines rest else consChar c (lines rest)

theorem flatten_consChar (c : Char) (ls : List Text) :
    (consChar c ls).flatten = c :: ls.flatten := by
  cases ls <;> rfl

/-- **Nothing is lost**: the lines joined are the text. -/
theorem flatten_lines (t : Text) : (lines t).flatten = t := by
  fun_induction lines t with
  | case1 => rfl
  | case2 rest ih => simp [ih]
  | case3 c rest hne hc ih => simp [ih]
  | case4 c rest hne hc ih => rw [flatten_consChar, ih]

/-- The line has no ending. -/
def missingEnding (line : Text) : Bool :=
  match line.getLast? with
  | some c => !(c = '\n' || c = '\r')
  | none => true

end Diff

end AnchoredEdit
