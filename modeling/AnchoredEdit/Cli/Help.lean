/-
`Cli/Help.lean` -- the pages that explain the command line.

A page says what its topic does and how to use it, and lists the commands, the words and the
options that may follow, each list as a table of two columns.
-/
import AnchoredEdit.Cli.Arguments

set_option autoImplicit false

namespace AnchoredEdit

namespace Cli

/-! ## 1. What there is to say -/

/-- The name of the program. -/
def programName : String := "cursor-mods"

/-- What an option does. -/
def Opt.about : Opt → String
  | config => "Engine configuration file (YAML, or JSON with a .json extension)"
  | logLevel => "Log filter such as \"debug\" (falls back to RUST_LOG, then \"info\")"
  | json => "Print as a JSON object"
  | language => "Language variant: script, module, script+markup, module+markup"
  | line => "Zero-based cursor line"
  | column => "Zero-based cursor column"
  | descriptor => "Node descriptor JSON captured by the host"
  | diff => "Print a unified diff instead of the JSON result"
  | version => "Print version"
  | help => "Print help"

/-- What a command does. -/
def CommandName.about : CommandName → String
  | mods => "List available mods"
  | apply => "Apply a mod at a cursor position or captured node"
  | serve => "Serve JSON-lines requests on stdin/stdout"

/-- What the topic of a page does. -/
def Topic.about : Topic → String
  | program => "Cursor-anchored JavaScript/TypeScript transformations"
  | command c => c.about
  | help => "Print this message or the help of the given subcommand(s)"

/-- What may follow the topic of a page. -/
def Topic.level : Topic → Level
  | program => .program
  | command c => c.level
  | help =>
    { topic := .help
      options := []
      operands := [⟨.text, "[COMMAND]...", "Print help for the subcommand(s)"⟩] }

/-! ## 2. Tables -/

/-- Two columns, the first one as wide as its widest cell. -/
def table (rows : List (String × String)) : List String :=
  let width := rows.foldl (fun n (cell, _) => max n cell.length) 0
  rows.map fun (cell, about) =>
    "  " ++ cell ++ String.ofList (List.replicate (width - cell.length) ' ') ++ "  " ++ about

/-- A table under its title, after an empty line; nothing if the table is empty. -/
def titled (title : String) (rows : List (String × String)) : List String :=
  if rows = [] then [] else "" :: (title ++ ":") :: table rows

/-- The name that stands for the value of an option. -/
def Opt.valueName (o : Opt) : String :=
  o.long.map fun c => if c = '-' then '_' else c.toUpper

/-- The forms of an option, with room for a short one. -/
def Opt.shown (o : Opt) : String :=
  let short := match o.short? with
    | some c => "-" ++ c.toString ++ ", "
    | none => "    "
  short ++ "--" ++ o.long ++ if o.takesValue then " <" ++ o.valueName ++ ">" else ""

/-! ## 3. Pages -/

/-- How a command line on the topic goes on after the name of the program. -/
def Topic.usage (t : Topic) : String :=
  let operands := t.level.operands.map fun o => " " ++ o.shown
  match t with
  | program => " [OPTIONS] <COMMAND>"
  | command c => " " ++ c.name ++ " [OPTIONS]" ++ String.join operands
  | help => " " ++ helpCommand ++ String.join operands

/-- The commands that may follow. -/
def Topic.commands : Topic → List (String × String)
  | program => CommandName.all.map (fun c => (c.name, c.about)) ++ [(helpCommand, help.about)]
  | _ => []

/-- The lines of the page on a topic. -/
def Topic.page (t : Topic) : List String :=
  [t.about, "", "Usage: " ++ programName ++ t.usage]
    ++ titled "Commands" t.commands
    ++ titled "Arguments" (t.level.operands.map fun o => (o.shown, o.about))
    ++ titled "Options" (t.level.options.map fun o => (o.shown, o.about))

end Cli

end AnchoredEdit
