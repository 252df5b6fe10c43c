/-
`Cli/Run.lean` -- what a command line does.

Files and standard input are data here, so what the program prints is a function of them. Serving
is the exception: it goes on as long as there is input, so the function only says with which
settings to serve.

Troubles come in a fixed order: the command line, the configuration, the name of the
transformation, the source, its language, the anchor.
-/
import AnchoredEdit.Cli.Help
import AnchoredEdit.Config.Load
import AnchoredEdit.Diff.Unified
import AnchoredEdit.Protocol.Response

set_option autoImplicit false

namespace AnchoredEdit

namespace Cli

/-! ## 1. Output -/

/-- What a program leaves behind. -/
structure Output where
  exit : Nat := 0
  stdout : Text := []
  stderr : Text := []
deriving DecidableEq, Inhabited, Repr

/-- Prints a line. -/
def Output.line (t : Text) : Output :=
  { stdout := t ++ ['\n'] }

/-- Prints lines. -/
def Output.lines (lines : List String) : Output :=
  { stdout := lines.flatMap fun line => line.toList ++ ['\n'] }

/-- What to do after reading the command line. -/
inductive Action where
  | finish (o : Output)
  /-- Serve with these settings. -/
  | serve (c : Config)

/-- Why a command fails: what went wrong, and the causes, the nearest one first. -/
structure Trouble where
  message : String
  causes : List String := []
deriving DecidableEq, Inhabited, Repr

namespace Trouble

/-- A text with its later lines indented. -/
def indented (indent : Nat) (text : String) : Text :=
  text.toList.flatMap fun c => if c = '\n' then '\n' :: List.replicate indent ' ' else [c]

/-- The causes, numbered if there are several. -/
def showCauses : List String → Text
  | [] => []
  | [cause] => "\n\nCaused by:\n    ".toList ++ indented 4 cause
  | causes =>
    "\n\nCaused by:".toList ++ causes.zipIdx.flatMap fun (cause, n) =>
      let number := toString n
      '\n' :: List.replicate (5 - number.length) ' ' ++ number.toList ++ ": ".toList
        ++ indented 7 cause

/-- The output of a command that fails. -/
def output (t : Trouble) : Output :=
  { exit := 1
    stderr := "Error: ".toList ++ t.message.toList ++ showCauses t.causes ++ ['\n'] }

/-- The trouble of an error of the engine. -/
def ofError (e : Error) : Trouble :=
  ⟨e.message, []⟩

/-- The causes that an error of the engine stands for. -/
def causesOf : Error → List String
  | .io purpose e => [(Error.io purpose e).message, purpose ++ e.message]
  | e => [e.message]

end Trouble

/-! ## 2. Commands -/

/-- What a program can see. -/
structure World where
  files : Files
  stdin : Except FileError Text
  parser : Parser

/-- Lists the transformations. -/
def runMods (json : Bool) : Output :=
  if json then .line (Payload.modsJson Mod.names).compact
  else .lines Mod.names

/-- The source to transform. -/
def readSource (w : World) : Option String → Except Trouble Text
  | some path =>
    match w.files.readText path with
    | .ok t => .ok t
    | .error e => .error ⟨"Failed to read " ++ path, [e.message]⟩
  | none =>
    match w.stdin with
    | .ok t => .ok t
    | .error e => .error ⟨"Failed to read stdin", [e.message]⟩

/-- The variant of the source: the one asked for, or the one of its file name. -/
def variantOf (a : ApplyArgs) : Except Trouble Variant :=
  match a.language with
  | some name =>
    match Variant.named name with
    | .ok v => .ok v
    | .error e => .error (.ofError e)
  | none => .ok ((a.file.bind Variant.ofPath?).getD .standard)

/-- Where to act. -/
def anchorOf : AnchorArg → Except Trouble Anchor
  | .point line column => .ok (.point ⟨line, column⟩)
  | .descriptor json =>
    match Descriptor.ofText json.toList with
    | .ok d => .ok (.node d)
    | .error e => .error ⟨"Invalid node descriptor", [e.message]⟩
  | .none => .error ⟨"either --line/--column or --descriptor is required", []⟩

/-- The output for a failure. -/
def showFailure (diff : Bool) (f : Failure) : Output :=
  if diff then { exit := 1, stderr := f.toText.toList ++ ['\n'] }
  else { exit := 1, stdout := f.toJson.pretty ++ ['\n'] }

/-- The output for an edit: the edit, or a preview with its summary. -/
def showEdit (a : ApplyArgs) (m : Mod) (source : Text) (e : Edit) : Output :=
  if a.diff then
    match e.spliceInto? source with
    | none => Trouble.output ⟨"Edit range does not fit the source", []⟩
    | some modified =>
      let label := (a.file.getD "<stdin>").toList
      .line (Diff.unified .standard source modified label ++ '\n'
        :: (Diff.summary .standard source modified).toText.toList)
  else .line (Payload.editJson m.name e).pretty

/-- Applies a transformation. -/
def runApply (w : World) (c : Config) (a : ApplyArgs) : Except Trouble Output := do
  let m ← match Mod.named a.mod with
    | .ok m => pure m
    | .error e => .error (.ofError e)
  let source ← readSource w a.file
  let variant ← variantOf a
  let anchor ← anchorOf a.anchor
  match (Engine.mk w.parser c .wraps).run m ⟨source, variant, anchor⟩ with
  | .error f => pure (showFailure a.diff f)
  | .ok e => pure (showEdit a m source e)

/-- The settings to run with. -/
def loadConfig (w : World) : Option String → Except Trouble Config
  | none => .ok .standard
  | some path =>
    match Config.load w.files path with
    | .ok c => .ok c
    | .error e => .error ⟨"Failed to load config " ++ path, Trouble.causesOf e⟩

/-- The line that `--version` prints. -/
def versionLine : Text :=
  (programName ++ " 0.1.0").toList

/-- What a command line that makes sense does. -/
def perform (w : World) (i : Invocation) : Except Trouble Action := do
  let config ← loadConfig w i.config
  match i.command with
  | .mods json => pure (.finish (runMods json))
  | .apply a => (runApply w config a).map .finish
  | .serve => pure (.serve config)

/-- What a command line does. -/
def act (w : World) (args : List String) : Action :=
  match parse args with
  | .error .usage => .finish { exit := 2 }
  | .error .version => .finish (.line versionLine)
  | .error (.help topic) => .finish (.lines topic.page)
  | .ok invocation =>
    match perform w invocation with
    | .ok action => action
    | .error t => .finish t.output

end Cli

end AnchoredEdit
