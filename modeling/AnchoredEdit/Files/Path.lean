/-
`Files/Path.lean` -- the names inside a path.

A path is a text of components between slashes. Empty components and `.` stand for the place
they are in, so they carry no name; `..` is a direction and has no name either. The backslash
is an ordinary character.
-/

set_option autoImplicit false

namespace AnchoredEdit

namespace Path

/-- The components of `path` that are not empty and not `.`. -/
def components (path : String) : List String :=
  (path.splitOn "/").filter fun part => part ≠ "" && part ≠ "."

/-- The name that `path` ends in. -/
def fileName? (path : String) : Option String :=
  match (components path).getLast? with
  | some ".." => none
  | last => last

/-- What follows the last dot of a name, unless the name has no dot or only a leading one. -/
def nameExtension? (name : String) : Option String :=
  let reversed := name.toList.reverse
  let after := (reversed.takeWhile (· ≠ '.')).reverse
  match reversed.dropWhile (· ≠ '.') with
  | _ :: _ :: _ => some (String.ofList after)
  | _ => none

/-- The extension of the name that `path` ends in. -/
def extension? (path : String) : Option String :=
  (fileName? path).bind nameExtension?

end Path

end AnchoredEdit
