/-
`Main.lean` -- the program.

Everything the program decides is decided by `Cli.act`; here the files that the command line names
are read beforehand, and the output is printed. Parse trees are made elsewhere: the environment
variable `ANCHORED_EDIT_TREES` names a JSON file with a list of them, and a source without a tree
there does not parse.

Serving takes one line after the other, and lets the task of each line finish before it reads the
next one. That is one of the schedules that the worker loop allows.
-/
import AnchoredEdit.Cli.Run
import AnchoredEdit.Protocol.Trees
import AnchoredEdit.Serve.Loop

set_option autoImplicit false

namespace AnchoredEdit

namespace Main

/-- What an error of the operating system says about a file. Its number may come negated. -/
def fileError : IO.Error → FileError
  | .inappropriateType _ code _ => if code = 21 || code = -21 then .isDirectory else .notDirectory
  | .invalidArgument _ code _ => if code = 36 || code = -36 then .nameTooLong else .notFound
  | _ => .notFound

/-- Reads the file at `path`. -/
def readFile (path : String) : IO (Except FileError ByteArray) :=
  try
    let bytes ← IO.FS.readBinFile path
    pure (.ok bytes)
  catch e => pure (.error (fileError e))

/-- Reads the files at the given paths. -/
def readFiles (paths : List String) : IO Files := do
  let found ← paths.mapM fun path => do pure (path, ← readFile path)
  pure fun path => ((found.find? (·.1 = path)).map (·.2)).getD (.error .notFound)

/-- The parser that knows the trees in the file at `path`. -/
def readTrees (path : String) : IO Parser := do
  let sources := match (← readFile path).bind decodeBytes with
    | .error _ => []
    | .ok text =>
      match Json.parse? text with
      | some (.arr trees) => trees.filterMap ParsedSource.ofJson?
      | _ => []
  pure (ParsedSource.parser sources)

/-- The parser that the environment asks for. -/
def parser : IO Parser := do
  match ← IO.getEnv "ANCHORED_EDIT_TREES" with
  | some path => readTrees path
  | none => pure (ParsedSource.parser [])

/-- What the program can see, as far as the arguments need it. -/
def world (args : List String) : IO Cli.World := do
  let parser ← parser
  match Cli.parse args with
  | .error _ => pure ⟨fun _ => .error .notFound, .ok [], parser⟩
  | .ok invocation =>
    let files ← readFiles invocation.paths
    let stdin ← if invocation.readsStdin then (← IO.getStdin).readBinToEnd else pure .empty
    pure ⟨files, decodeBytes stdin, parser⟩

/-- Prints the output of a command and returns its exit code. -/
def finish (o : Cli.Output) : IO UInt32 := do
  IO.print (String.ofList o.stdout)
  IO.eprint (String.ofList o.stderr)
  pure (UInt32.ofNat o.exit)

/-- Serves one line, and returns the output for it with the state after it. -/
def serveLine (e : Engine) (line : Text) (s : Serve.State) : Text × Serve.State :=
  let s := Serve.readAll e.config (Lines.ofText line) s
  let s := Serve.receiveAll (Serve.finishAll e s)
  (Response.output s.written, { s with written := [] })

/-- Reads bytes up to the end of a line or of the input. -/
partial def readLine (input : IO.FS.Stream) (bytes : ByteArray) : IO ByteArray := do
  let next ← input.read 1
  if next.isEmpty then return bytes
  let bytes := bytes ++ next
  if next.data = #[10] then return bytes
  readLine input bytes

/-- Serves lines until the input ends. A line that is no text ends the service. -/
partial def serve (e : Engine) (input output : IO.FS.Stream) (s : Serve.State) : IO UInt32 := do
  let bytes ← readLine input .empty
  if bytes.isEmpty then return 0
  match decodeBytes bytes with
  | .error trouble =>
    finish (Cli.Trouble.output ⟨"Worker loop failed", Cli.Trouble.causesOf (.io "" trouble)⟩)
  | .ok line =>
    let (text, s) := serveLine e line s
    output.putStr (String.ofList text)
    output.flush
    serve e input output s

end Main

end AnchoredEdit

open AnchoredEdit in
/-- Runs the command that the arguments ask for. -/
def main (args : List String) : IO UInt32 := do
  let world ← Main.world args
  match Cli.act world args with
  | .finish o => Main.finish o
  | .serve c => Main.serve ⟨world.parser, c, .wraps⟩ (← IO.getStdin) (← IO.getStdout) {}
