/-
`Cli/Arguments.lean` -- the command line.

The program has three commands and one that asks for help; two options may stand before or after
the command. Options are long, with their value after an equals sign or as the next argument, and
some have a short form. Nothing may be given twice on one level; of an option given before and
after the command, the latter counts. What looks like an option is never taken for a value, and
after a lone `--` nothing is taken for an option.

Arguments are read from left to right, and the first one that asks for help or the version ends
the reading, unless something before it does not fit. A value that is an argument of its own is
looked at only when the next option or word of its level comes, so the one right before the
command is looked at last.

Whatever does not fit is a usage error, all kinds of which are one.
-/
import AnchoredEdit.Words

set_option autoImplicit false

namespace AnchoredEdit

namespace Cli

/-! ## 1. Values -/

/-- A count: decimal digits after an optional plus sign, up to 64 bits. -/
def count? (text : String) : Option Nat :=
  let digits := match text.toList with
    | '+' :: rest => rest
    | text => text
  if digits = [] || !digits.all (·.isDigit) then none
  else
    let n := digits.foldl (fun n c => 10 * n + (c.toNat - '0'.toNat)) 0
    if n < wordCount then some n else none

/-- What a value may be. -/
inductive ValueKind where
  | text
  /-- A path is never empty. -/
  | path
  | count
deriving DecidableEq, Inhabited, Repr

/-- The text is a value of the kind. -/
def ValueKind.accepts : ValueKind → String → Bool
  | text, _ => true
  | path, value => value ≠ ""
  | count, value => (count? value).isSome

/-! ## 2. Options and commands -/

/-- The options. -/
inductive Opt where
  | config
  | logLevel
  | json
  | language
  | line
  | column
  | descriptor
  | diff
  | version
  | help
deriving DecidableEq, Inhabited, Repr

namespace Opt

/-- The long form of an option. -/
def long : Opt → String
  | config => "config"
  | logLevel => "log-level"
  | json => "json"
  | language => "language"
  | line => "line"
  | column => "column"
  | descriptor => "descriptor"
  | diff => "diff"
  | version => "version"
  | help => "help"

/-- The short form of an option. -/
def short? : Opt → Option Char
  | language => some 'l'
  | version => some 'V'
  | help => some 'h'
  | _ => none

/-- The kind of the value that an option takes. -/
def valueKind? : Opt → Option ValueKind
  | config => some .path
  | line | column => some .count
  | logLevel | language | descriptor => some .text
  | json | diff | version | help => none

/-- The option takes a value. -/
def takesValue (o : Opt) : Bool :=
  o.valueKind?.isSome

/-- The text can be the value of the option. -/
def accepts (o : Opt) (value : String) : Bool :=
  o.valueKind?.all (·.accepts value)

end Opt

/-- The commands. -/
inductive CommandName where
  | mods
  | apply
  | serve
deriving DecidableEq, Inhabited, Repr

namespace CommandName

/-- All commands. -/
def all : List CommandName :=
  [mods, apply, serve]

/-- The name of a command. -/
def name : CommandName → String
  | mods => "mods"
  | apply => "apply"
  | serve => "serve"

/-- The command called `name`. -/
def ofName? (name : String) : Option CommandName :=
  all.find? (·.name = name)

/-- A command is found by its name. -/
theorem ofName?_name (c : CommandName) : ofName? c.name = some c := by
  cases c <;> rfl

end CommandName

/-- The command that asks for help. -/
def helpCommand : String := "help"

/-- What help can be asked for. -/
inductive Topic where
  | program
  | command (c : CommandName)
  /-- The command that asks for help. -/
  | help
deriving DecidableEq, Inhabited, Repr

/-- A word that is no option, as a command expects it. -/
structure Operand where
  kind : ValueKind
  /-- The name that stands for the word, in brackets that tell whether it may be missing. -/
  shown : String
  about : String
deriving DecidableEq, Inhabited, Repr

/-- What may stand on one level of the command line, in the order in which help lists it. -/
structure Level where
  topic : Topic
  options : List Opt
  operands : List Operand := []
deriving DecidableEq, Inhabited, Repr

/-- What may stand before the command. -/
def Level.program : Level :=
  { topic := .program, options := [.config, .logLevel, .help, .version] }

/-- What may stand after a command. -/
def CommandName.level (c : CommandName) : Level :=
  match c with
  | mods => { topic := .command c, options := [.config, .json, .logLevel, .help] }
  | apply =>
    { topic := .command c
      options := [.config, .language, .line, .logLevel, .column, .descriptor, .diff, .help]
      operands := [
        ⟨.text, "<MOD>", "Mod name (see `mods`)"⟩,
        ⟨.path, "[FILE]", "Source file (reads stdin when omitted)"⟩] }
  | serve => { topic := .command c, options := [.config, .logLevel, .help] }

/-! ## 3. One level -/

/-- Why reading stops. -/
inductive Stop where
  | usage
  /-- The version was asked for. -/
  | version
  /-- Help was asked for. -/
  | help (topic : Topic)
deriving DecidableEq, Inhabited, Repr

/-- The options and other words of one level. -/
structure Words where
  /-- Options with their values; an option without one has an empty value. -/
  options : List (Opt × String) := []
  /-- The last option and its value, if that is not looked at yet. -/
  pending : Option (Opt × String) := none
  /-- Words that are no options. -/
  plain : List String := []
deriving DecidableEq, Inhabited, Repr

namespace Words

/-- The value of an option. -/
def value? (w : Words) (o : Opt) : Option String :=
  (w.options.find? (·.1 = o)).map (·.2)

/-- The option was given. -/
def has (w : Words) (o : Opt) : Bool :=
  (w.value? o).isSome

/-- Adds an option that was not given yet. -/
def add (w : Words) (o : Opt) (value : String) : Except Stop Words :=
  if w.has o || !o.accepts value then .error .usage
  else .ok { w with options := w.options ++ [(o, value)] }

/-- Adds the option that is pending. -/
def settle (w : Words) : Except Stop Words :=
  match w.pending with
  | none => .ok w
  | some (o, value) => { w with pending := none }.add o value

/-- Adds a word that is no option. -/
def addPlain (level : Level) (w : Words) (word : String) : Except Stop Words := do
  let w ← w.settle
  match level.operands[w.plain.length]? with
  | some operand =>
    if operand.kind.accepts word then pure { w with plain := w.plain ++ [word] }
    else .error .usage
  | none => .error .usage

/-- Adds an option without a value, or stops if it asks to. -/
def addFlag (level : Level) (w : Words) (o : Opt) : Except Stop Words := do
  let w ← w.settle
  match o with
  | .version => .error .version
  | .help => .error (.help level.topic)
  | o => w.add o ""

end Words

/-- An argument, sorted by its looks. -/
inductive Word where
  /-- A word that is no option. -/
  | plain
  /-- The mark after which nothing is an option. -/
  | endOfOptions
  /-- A known option, with the value attached to it. -/
  | option (o : Opt) (value : Option String)
  /-- Something that looks like an option but is none. -/
  | unknown
deriving DecidableEq, Inhabited, Repr

/-- A long option, after its dashes. -/
def longOption (known : List Opt) (text : List Char) : Word :=
  let name := String.ofList (text.takeWhile (· ≠ '='))
  match known.find? (·.long = name), text.dropWhile (· ≠ '=') with
  | none, _ => .unknown
  | some o, [] => .option o none
  | some o, _ :: value =>
    if o.takesValue then .option o (some (String.ofList value)) else .unknown

/-- A short option, after its dash. What follows one that takes a value is its value, perhaps
after an equals sign; the others end the reading, so what follows them does not matter. -/
def shortOption (known : List Opt) (letter : Char) (text : List Char) : Word :=
  match known.find? (·.short? = some letter) with
  | none => .unknown
  | some o =>
    if !o.takesValue || text = [] then .option o none
    else
      let value := if text.head? = some '=' then text.tail else text
      .option o (some (String.ofList value))

/-- Sorts an argument by its looks. A lone dash is no option. -/
def sortWord (known : List Opt) (arg : String) : Word :=
  match arg.toList with
  | ['-', '-'] => .endOfOptions
  | '-' :: '-' :: text => longOption known text
  | '-' :: letter :: text => shortOption known letter text
  | _ => .plain

/-- An argument that can be the value of the option before it. -/
def isValue (arg : String) : Bool :=
  match arg.toList with
  | '-' :: _ :: _ => false
  | _ => true

/-- Reads one level. What is left starts with the first word that has no place on it. -/
def readLevel (level : Level) : List String → Words → Except Stop (Words × List String)
  | [], w => .ok (w, [])
  | arg :: rest, w =>
    match sortWord level.options arg with
    | .unknown => .error .usage
    | .plain =>
      if w.plain.length < level.operands.length then do
        let w ← w.addPlain level arg
        readLevel level rest w
      else .ok (w, arg :: rest)
    | .endOfOptions => do
      let w ← rest.foldlM (Words.addPlain level) w
      pure (w, [])
    | .option o (some value) => do
      let w ← w.settle
      let w ← w.add o value
      readLevel level rest w
    | .option o none =>
      if o.takesValue then
        match rest with
        | [] => .error .usage
        | value :: rest =>
          if isValue value then do
            let w ← w.settle
            readLevel level rest { w with pending := some (o, value) }
          else .error .usage
      else do
        let w ← w.addFlag level o
        readLevel level rest w

/-! ## 4. Invocations -/

/-- Where an application acts, as far as the command line says. -/
inductive AnchorArg where
  | none
  | point (line column : Nat)
  | descriptor (json : String)
deriving DecidableEq, Inhabited, Repr

/-- The arguments of an application. -/
structure ApplyArgs where
  mod : String
  file : Option String
  language : Option String
  anchor : AnchorArg
  diff : Bool
deriving DecidableEq, Inhabited, Repr

/-- A command with its arguments. -/
inductive Command where
  | mods (json : Bool)
  | apply (args : ApplyArgs)
  | serve
deriving DecidableEq, Inhabited, Repr

/-- A command line that makes sense. -/
structure Invocation where
  config : Option String
  command : Command
deriving DecidableEq, Inhabited, Repr

/-- The paths that an invocation names. -/
def Invocation.paths (i : Invocation) : List String :=
  i.config.toList ++
    match i.command with
    | .apply a => a.file.toList
    | _ => []

/-- The invocation reads its source from standard input. -/
def Invocation.readsStdin (i : Invocation) : Bool :=
  match i.command with
  | .apply a => a.file.isNone
  | _ => false

/-- The value of an option that is a count. -/
def Words.count? (w : Words) (o : Opt) : Option Nat :=
  (w.value? o).bind Cli.count?

/-- The anchor options: a line and a column together, or a descriptor alone. -/
def anchorArg (w : Words) : Except Stop AnchorArg :=
  match w.value? .descriptor, w.count? .line, w.count? .column with
  | none, none, none => .ok .none
  | none, some line, some column => .ok (.point line column)
  | some json, none, none => .ok (.descriptor json)
  | _, _, _ => .error .usage

/-- The arguments of an application. -/
def applyArgs (w : Words) : Except Stop ApplyArgs := do
  let (mod, file) ← match w.plain with
    | [mod] => pure (mod, none)
    | [mod, file] => pure (mod, some file)
    | _ => .error .usage
  let anchor ← anchorArg w
  pure { mod, file, language := w.value? .language, anchor, diff := w.has .diff }

/-- A command with its arguments. -/
def command (name : CommandName) (w : Words) : Except Stop Command :=
  match name with
  | .mods => .ok (.mods (w.has .json))
  | .serve => .ok .serve
  | .apply => (applyArgs w).map .apply

/-- What the arguments of the help command ask for. -/
def helpTopic? : List String → Option Topic
  | [] => some .program
  | [name] => if name = helpCommand then some .help else (CommandName.ofName? name).map .command
  | _ => none

/-- Reads the command and what comes after it. -/
def readCommand : List String → Except Stop (CommandName × Words)
  | [] => .error .usage
  | arg :: rest =>
    if arg = helpCommand then .error ((helpTopic? rest).elim .usage .help)
    else
      match CommandName.ofName? arg with
      | none => .error .usage
      | some name => do
        let (w, left) ← readLevel name.level rest {}
        let w ← w.settle
        if left = [] then pure (name, w) else .error .usage

/-- Reads a command line. -/
def parse (args : List String) : Except Stop Invocation := do
  let (leading, rest) ← readLevel .program args {}
  let (name, w) ← readCommand rest
  let command ← command name w
  let leading ← leading.settle
  pure ⟨w.value? .config <|> leading.value? .config, command⟩

end Cli

end AnchoredEdit
