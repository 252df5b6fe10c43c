/-
`Config/Yaml.lean` -- configurations written as YAML.

A configuration is a mapping, or nothing at all. Keys that name no setting are passed over with
whatever they map to. The value of a setting is an unsigned 64-bit integer, written plainly, in
decimal without leading zeros or with a base of its own.
-/
import AnchoredEdit.Config.Json
import AnchoredEdit.Yaml.Node

set_option autoImplicit false

namespace AnchoredEdit

namespace Config

open Yaml

/-! ## 1. Integers -/

/-- The digit of `c` in a base of at most sixteen. -/
def digit? (base : Nat) (c : Char) : Option Nat :=
  (hexValue? c).filter (· < base)

/-- The number that digits spell in a base, if it fits 64 bits. -/
def number? (base : Nat) (digits : Text) : Option Nat :=
  if digits = [] then none
  else
    (digits.foldlM (fun n c => (digit? base c).map (base * n + ·)) 0).filter (· < wordCount)

/-- The digits start with a zero and do not end there. -/
def hasLeadingZero : Text → Bool
  | '0' :: c :: rest => (c :: rest).all (·.isDigit)
  | _ => false

/-- An unsigned integer in decimal. -/
def decimal? (t : Text) : Option Nat :=
  if hasLeadingZero t then none else number? 10 t

/-- An unsigned integer, after a plus sign if there is one. -/
def unsigned? (t : Text) : Option Nat :=
  let t := match t with
    | '+' :: rest => rest
    | t => t
  match t with
  | '0' :: 'x' :: rest => number? 16 rest
  | '0' :: 'o' :: rest => number? 8 rest
  | '0' :: 'b' :: rest => number? 2 rest
  | t => decimal? t

/-! ## 2. Settings -/

/-- The tag of integers. -/
def intTag : Text :=
  "tag:yaml.org,2002:int".toList

/-- The value of a setting. -/
def settingValue? (s : Yaml.Scalar) : Option Nat :=
  match s.style with
  | .plain => unsigned? s.text
  | .literal => if s.tag = some intTag then unsigned? s.text else none
  | _ => none

/-- Collects the settings among the entries of a mapping. Every key has to be a scalar. -/
def collect? (d : Yaml.Document) :
    List (Yaml.Node × Yaml.Node) → Assignment → Option Assignment
  | [], a => some a
  | (key, value) :: rest, a =>
    match d.scalar? key with
    | none => none
    | some key =>
      match Setting.ofKey? (String.ofList key.text) with
      | none => collect? d rest a
      | some s =>
        match a.get? s with
        | some _ => none
        | none =>
          ((d.scalar? value).bind settingValue?).bind fun n => collect? d rest ((s, n) :: a)

/-- The settings of a document: those of a mapping, and none where nothing is written. -/
def assignment? : Option Yaml.Document → Option Assignment
  | none => some []
  | some d =>
    match d.root with
    | .scalar s => if s.style = .plain ∧ s.text = [] then some [] else none
    | .mapping entries => collect? d entries []
    | _ => none

/-- The valid configuration that a YAML text holds. -/
def ofYamlText (t : Text) : Except Error Config :=
  match (Yaml.parse? t).bind assignment? with
  | some a => a.toConfig.validate
  | none => .error (.invalidConfig .yaml)

end Config

end AnchoredEdit
