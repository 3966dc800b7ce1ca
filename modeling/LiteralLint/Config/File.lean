import LiteralLint.Config.Value
import LiteralLint.FileTree
import LiteralLint.Json.Draft
import LiteralLint.Toml.Read
import LiteralLint.Yaml.Compose

/-! # Configuration files

A file is read as TOML, YAML or JSON, as the extension of its name says. -/

set_option autoImplicit false

namespace LiteralLint.Config

inductive FileFormat where
  | toml
  | yaml
  | json
deriving DecidableEq, Repr

namespace FileFormat

def name : FileFormat → String
  | toml => "TOML"
  | yaml => "YAML"
  | json => "JSON"

/-- Files with any other extension, or with none, are taken for TOML. -/
def ofPath (path : String) : FileFormat :=
  match Path.extension? path with
  | some "yaml" | some "yml" => yaml
  | some "json" => json
  | _ => toml

end FileFormat

mutual

def Value.ofJson? (depth : Nat) : Json.Draft → Option Value
  | .null => some .unit
  | .bool b => some (.bool b)
  | .number n =>
    match n.value? with
    | some (.natural v) => some (.unsigned v)
    | some (.negative v) => some (.signed v)
    | some (.real f) => some (.real f)
    | none => none
  | .string s => s.map .text
  | .array items closed =>
    if closed ∧ depth + 1 < Json.depthLimit then (valuesOfJson? (depth + 1) items).map .list
    else none
  | .object members closed =>
    if closed ∧ depth + 1 < Json.depthLimit then
      (entriesOfJson? (depth + 1) members).map fun entries => .table (Table.ofList entries)
    else none
  | .faulty => none

def valuesOfJson? (depth : Nat) : List Json.Draft → Option (List Value)
  | [] => some []
  | d :: ds => do return (← Value.ofJson? depth d) :: (← valuesOfJson? depth ds)

def entriesOfJson? (depth : Nat) :
    List (Option String × Json.Draft) → Option (List (String × Value))
  | [] => some []
  | (some key, d) :: ds => do return (key, ← Value.ofJson? depth d) :: (← entriesOfJson? depth ds)
  | (none, _) :: _ => none

end

def readJson? (text : String) : Option Table := do
  let document := Json.read text.toList
  guard document.complete
  match ← Value.ofJson? 0 document.root with
  | .table entries => return entries
  | _ => none

/-- The settings that a text describes; `none` if it cannot be parsed or is no table. -/
def FileFormat.read? : FileFormat → String → Option Table
  | toml => Toml.read?
  | yaml => Yaml.read?
  | json => readJson?

end LiteralLint.Config
