/-
`Error.lean` -- failures of the engine itself.

An error is a cause; its wording is `Error.message`. A transformation that finds nothing to do
is not an error of this kind: that is `Failure`.
-/
import AnchoredEdit.Files.Read
import AnchoredEdit.Json.Decode
import AnchoredEdit.Language
import AnchoredEdit.Syntax.Fault

set_option autoImplicit false

namespace AnchoredEdit

/-- Why a configuration is refused. -/
inductive ConfigProblem where
  | yaml
  | json (e : Json.DecodeError)
  /-- The setting of this name has to be positive. -/
  | notPositive (setting : String)
deriving DecidableEq, Inhabited, Repr

/-- The wording of a configuration problem. -/
def ConfigProblem.message : ConfigProblem → String
  | yaml => "Failed to parse YAML config: malformed YAML or no settings"
  | json e => "Failed to parse JSON config: " ++ e.message
  | notPositive setting => setting ++ " must be positive"

/-- Why a request is refused. -/
inductive RequestProblem where
  | malformed (e : Json.DecodeError)
  | invalidParams (method : String) (e : Json.DecodeError)
  | unknownMethod (method : String)
  | alreadyInFlight (id : Int)
deriving DecidableEq, Inhabited, Repr

/-- The wording for an id that is already in use. -/
def inFlightMessage (id : Int) : String :=
  "request id " ++ toString id ++ " is already in flight"

/-- The wording of a request problem. -/
def RequestProblem.message : RequestProblem → String
  | malformed e => "malformed request: " ++ e.message
  | invalidParams method e => "invalid params for '" ++ method ++ "': " ++ e.message
  | unknownMethod method => "unknown method '" ++ method ++ "'"
  | alreadyInFlight id => inFlightMessage id

/-- A failure of the engine itself. -/
inductive Error where
  /-- A file could not be read; the first part says what for. -/
  | io (purpose : String) (e : FileError)
  /-- The parser gave no tree. -/
  | parse (grammar : Grammar)
  | unsupportedLanguage (name : String)
  | unknownMod (name : String)
  | invalidConfig (problem : ConfigProblem)
  | configNotFound (path : String)
  | invalidRequest (problem : RequestProblem)
  /-- A transformation met a tree that does not belong to its source. -/
  | worker (fault : Fault)
deriving DecidableEq, Inhabited, Repr

namespace Error

/-- The wording of an error. -/
def message : Error → String
  | io purpose e => "IO error: " ++ purpose ++ e.message
  | parse grammar => "Tree-sitter parse error for " ++ grammar.name ++ ": Failed to parse source"
  | unsupportedLanguage name => "Language not supported: " ++ name
  | unknownMod name => "Unknown mod: " ++ name
  | invalidConfig problem => "Invalid configuration: " ++ problem.message
  | configNotFound path => "Config file not found: " ++ path
  | invalidRequest problem => "Invalid request: " ++ problem.message
  | worker fault => "Worker task failed: " ++ fault.message

end Error

end AnchoredEdit
