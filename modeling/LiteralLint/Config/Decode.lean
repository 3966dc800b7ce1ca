import LiteralLint.Config.Basic
import LiteralLint.Config.Value
import LiteralLint.Json.Decode
import LiteralLint.Number.Shortest
import LiteralLint.Text.Quotation

/-! # Typed configurations

Reads a configuration from a table of untyped settings. The settings are taken in the order of their
names, and the first one of a wrong type is the error. Settings that are not known have no effect.
-/

set_option autoImplicit false

namespace LiteralLint.Config

inductive Found where
  | unit
  | bool (value : Bool)
  | text (value : String)
  | signed (value : Int)
  | unsigned (value : Nat)
  | wide (value : Int)
  | real (value : Binary64)
  | sequence
  | map
deriving DecidableEq, Repr

def Value.found : Value → Found
  | .unit => .unit
  | .bool b => .bool b
  | .text s => .text s
  | .character c => .text (String.singleton c)
  | .signed n => .signed n
  | .unsigned n => .unsigned n
  | .wide n => .wide n
  | .real f => .real f
  | .list _ => .sequence
  | .table _ => .map

def Found.describe : Found → String
  | unit => "unit"
  | bool b => s!"bool {b}"
  | text s => s!"string {Text.quoted s}"
  | signed n => s!"signed int \x60{n}\x60"
  | unsigned n => s!"unsigned int \x60{n}\x60"
  | wide n =>
    if n < 0 then s!"integer \x60{n}\x60 as i128" else s!"integer \x60{n}\x60 as u128"
  | real f => s!"float \x60{String.ofList f.positional}\x60"
  | sequence => "sequence"
  | map => "map"

def describeMismatch : Mismatch Found → String
  | .invalidType found expected => s!"invalid type: found {found.describe}, expected {expected}"
  | .invalidValue found expected => s!"invalid value {found.describe}, expected {expected}"
  | .invalidLength found expected => s!"invalid length {found}, expected {expected}"
  | .unknownVariant found known =>
    s!"unknown variant: found \x60{found}\x60, expected \x60{choiceOf known}\x60"
  | .missingField name => s!"missing field \x60{name}\x60"
  | .duplicateField name => s!"duplicate field \x60{name}\x60"

/-- A mismatch and the path of keys and indices that leads to it. -/
structure Misfit where
  path : List String
  cause : Mismatch Found
deriving DecidableEq, Repr

abbrev Reader (α : Type) := List String → Value → Except Misfit α

namespace Reader

def wrongType {α : Type} (expected : String) : Reader α := fun path v =>
  .error ⟨path, .invalidType v.found expected⟩

def bool : Reader Bool := fun path v =>
  match v with
  | .bool b => .ok b
  | v => wrongType "a boolean" path v

/-- A single character is a text too. -/
def textAs (expected : String) : Reader String := fun path v =>
  match v with
  | .text s => .ok s
  | .character c => .ok (String.singleton c)
  | v => wrongType expected path v

def text : Reader String := textAs "a string"

def path : Reader String := textAs "a UTF-8 path string"

def natural : Reader Nat := fun path v =>
  match v with
  | .unsigned n => .ok n
  | .signed n =>
    if n < 0 then .error ⟨path, .invalidValue (.signed n) "usize"⟩ else .ok n.toNat
  | v => wrongType "usize" path v

def optional {α : Type} (item : Reader α) : Reader (Option α) := fun path v =>
  match v with
  | .unit => .ok none
  | v => some <$> item path v

def list {α : Type} (item : Reader α) : Reader (List α) := fun path v =>
  match v with
  | .list items => items.zipIdx.mapM fun (v, i) => item (path ++ [toString i]) v
  | v => wrongType "a sequence" path v

/-- A name, or a table whose first key is the name and leads to nothing. -/
def logLevel : Reader LogLevel := fun path v =>
  let named (path : List String) (s : String) : Except Misfit LogLevel :=
    match LogLevel.all.find? (·.name == s) with
    | some level => .ok level
    | none => .error ⟨path, .unknownVariant s (LogLevel.all.map LogLevel.name)⟩
  match v with
  | .text s => named path s
  | .table [] => wrongType "enum" path v
  | .table ((key, value) :: _) => do
    let level ← named (path ++ [key]) key
    match value with
    | .unit => return level
    | value => wrongType "unit" (path ++ [key]) value
  | v => wrongType "enum LogLevel" path v

def field {α : Type} (item : Reader α) (path : List String) (entries : Table) (key : String) :
    Except Misfit (Option α) :=
  match List.lookup key entries with
  | some v => some <$> item (path ++ [key]) v
  | none => .ok none

/-- A table with both fields, or a list of them in the order of the structure. -/
def override : Reader Override := fun path v =>
  let texts := list text
  match v with
  | .table entries => do
    let allowed? ← field texts path entries "allowed_values"
    let paths? ← field texts path entries "paths"
    match paths?, allowed? with
    | none, _ => throw ⟨path, .missingField "paths"⟩
    | _, none => throw ⟨path, .missingField "allowed_values"⟩
    | some paths, some allowedValues => return { paths, allowedValues }
  | .list items => do
    let tooShort := Misfit.mk path (.invalidLength items.length "struct Override with 2 elements")
    match items with
    | [] => throw tooShort
    | first :: rest =>
      let paths ← texts (path ++ ["0"]) first
      match rest with
      | [] => throw tooShort
      | second :: _ => return { paths, allowedValues := ← texts (path ++ ["1"]) second }
  | v => wrongType "struct Override" path v

end Reader

/-- Settings that are missing have their defaults. -/
def ofTable (entries : Table) : Except Misfit Config := do
  let get {α : Type} (item : Reader α) (key : String) := Reader.field item [] entries key
  let allowedValues ← get (.list .text) "allowed_values"
  let disableInputLimit ← get .bool "disable_input_limit"
  let logDir ← get (.optional .path) "log_dir"
  let logLevel ← get .logLevel "log_level"
  let maxInputBytes ← get (.optional .natural) "max_input_bytes"
  let overrides ← get (.optional (.list .override)) "overrides"
  return {
    logLevel := logLevel.getD standard.logLevel
    logDir := logDir.getD standard.logDir
    allowedValues := allowedValues.getD standard.allowedValues
    maxInputBytes := maxInputBytes.getD standard.maxInputBytes
    disableInputLimit := disableInputLimit.getD standard.disableInputLimit
    overrides := overrides.getD standard.overrides }

end LiteralLint.Config
