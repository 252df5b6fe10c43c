/-
`Config/Load.lean` -- configurations from files.

A file whose name ends in `.json`, in any case, is read as JSON, and any other file as YAML.
-/
import AnchoredEdit.Config.Yaml

set_option autoImplicit false

namespace AnchoredEdit

namespace Config

/-- Reads the file at `path`, which has to exist. -/
def readConfig (files : Files) (purpose path : String) : Except Error Text :=
  match files.readText path with
  | .ok t => .ok t
  | .error e => .error (if e.isAbsence then .configNotFound path else .io purpose e)

/-- The configuration in the YAML file at `path`. -/
def ofYamlFile (files : Files) (path : String) : Except Error Config := do
  let t ← readConfig files "Failed to read config file: " path
  ofYamlText t

/-- The configuration in the JSON file at `path`. -/
def ofJsonFile (files : Files) (path : String) : Except Error Config := do
  let t ← readConfig files "" path
  ofJsonText t

/-- The name of the file at `path` says that it holds JSON. -/
def isJsonPath (path : String) : Bool :=
  (Path.extension? path).any fun ext => ext.toLower = "json"

/-- The configuration in the file at `path`. -/
def load (files : Files) (path : String) : Except Error Config :=
  if isJsonPath path then ofJsonFile files path else ofYamlFile files path

end Config

end AnchoredEdit
