/-
`Files/Read.lean` -- reading files as texts.

What reading a path gives is a function of the path: the bytes of a file, or why there are none.
Each way in which reading fails has the wording that operating systems give it.
-/
import AnchoredEdit.Text.Bytes

set_option autoImplicit false

namespace AnchoredEdit

/-- Why a file cannot be read as text. -/
inductive FileError where
  | notFound
  | notDirectory
  | isDirectory
  | nameTooLong
  | notText
deriving DecidableEq, Inhabited, Repr

/-- The wording of a file error. -/
def FileError.message : FileError → String
  | notFound => "No such file or directory (os error 2)"
  | notDirectory => "Not a directory (os error 20)"
  | isDirectory => "Is a directory (os error 21)"
  | nameTooLong => "File name too long (os error 36)"
  | notText => "stream did not contain valid UTF-8"

/-- Nothing can be found under the path. -/
def FileError.isAbsence : FileError → Bool
  | notFound | notDirectory | nameTooLong => true
  | isDirectory | notText => false

/-- Bytes as the text they encode. -/
def decodeBytes (bytes : ByteArray) : Except FileError Text :=
  match String.fromUTF8? bytes with
  | some s => .ok s.toList
  | none => .error .notText

/-- What reading a path gives. -/
abbrev Files := String → Except FileError ByteArray

/-- The text of the file at `path`. -/
def Files.readText (files : Files) (path : String) : Except FileError Text :=
  (files path).bind decodeBytes

end AnchoredEdit
