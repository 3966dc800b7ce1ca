import LiteralLint.Input
import LiteralLint.Interchange
import LiteralLint.Output
import LiteralLint.Override.Select

/-! # Checking files

Each file is checked on its own and gives one outcome, whatever becomes of the others. The outcomes
are printed as lines for people or as one JSON array. -/

set_option autoImplicit false

namespace LiteralLint.Check

/-- The files to check, and the values that replace all configured ones if there are any. -/
structure Arguments where
  files : List String
  allow : List String := []
deriving DecidableEq, Repr, Inhabited

inductive Outcome where
  | checked (report : Report)
  | failed (error : InputError)
deriving DecidableEq, Repr

namespace Outcome

def report? : Outcome → Option Report
  | checked report => some report
  | failed _ => none

def error? : Outcome → Option InputError
  | checked _ => none
  | failed e => some e

def toJson : Outcome → Json
  | checked report => report.toJson
  | failed e => .obj [("uri", .str e.path), ("error", .str e.message)]

end Outcome

def overrides (config : Config) (arguments : Arguments) : List Override :=
  if arguments.allow.isEmpty then config.overrides.getD [] else []

def fallback (config : Config) (arguments : Arguments) : AllowList :=
  if arguments.allow.isEmpty then config.allowList else .ofList arguments.allow

def allowList (config : Config) (arguments : Arguments) (path : String) : AllowList :=
  resolve (overrides config arguments) path (fallback config arguments)

def documentOf (path text : String) : Document where
  uri := path
  languageId := languageOfExtension (Path.extension? path)
  version := 0
  text

def checkFile (s : Surroundings) (limit : Option Nat) (allow : AllowList) (path : String) :
    Except InputError Report := do
  let text ← s.readInput path limit
  match (documentOf path text).check allow with
  | .ok report => return report
  | .error cause => throw ⟨path, .outOfBounds cause⟩

def outcome (s : Surroundings) (config : Config) (arguments : Arguments) (path : String) :
    Outcome :=
  match checkFile s config.inputLimit (allowList config arguments path) path with
  | .ok report => .checked report
  | .error e => .failed e

def outcomes (s : Surroundings) (config : Config) (arguments : Arguments) : List Outcome :=
  arguments.files.map (outcome s config arguments)

/-- A diagnostic on one line, with positions counted from one. -/
def diagnosticText (colored : Bool) (uri : String) (d : Diagnostic) : String :=
  let place := s!"{d.range.start.line + 1}:{d.range.start.character + 1}"
  let severity := Style.yellow.paintIf colored d.severity.name
  let code := Style.dimmed.paintIf colored d.code
  s!"{Style.bold.paintIf colored uri}:{place}: {severity}[{code}]: {d.message}"

def reportTexts (colored : Bool) (report : Report) : List String :=
  report.diagnostics.map (diagnosticText colored report.uri)

def errorText (colored : Bool) (e : InputError) : String :=
  let label := Style.red.paintIf colored "error"
  s!"{Style.bold.paintIf colored e.path}: {label}: {e.message}"

def successText (colored : Bool) (count : Nat) : String :=
  let label := Style.green.paintIf colored "OK:"
  s!"{label} {count} file(s) checked, no invalid format values"

def uncheckedText (count : Nat) : String := s!"{count} file(s) could not be checked"

def findingsText (count files : Nat) : String :=
  let plural := if count = 1 then "" else "s"
  s!"{count} invalid format value{plural} found in {files} file(s)"

def reports (results : List Outcome) : List Report := results.filterMap Outcome.report?

def errors (results : List Outcome) : List InputError := results.filterMap Outcome.error?

def findingCount (results : List Outcome) : Nat :=
  ((reports results).flatMap (·.diagnostics)).length

def unchecked (results : List Outcome) : List String :=
  match (errors results).length with
  | 0 => []
  | count => [uncheckedText count]

def findings (results : List Outcome) : List String :=
  match findingCount results with
  | 0 => []
  | count => [findingsText count ((reports results).filter (!·.pass)).length]

/-- Findings are failures only where they are printed for people. -/
def problems (json : Bool) (results : List Outcome) : List String :=
  if json then unchecked results else findings results ++ unchecked results

def failure (json : Bool) (results : List Outcome) : Option String :=
  match problems json results with
  | [] => none
  | many => some ("; ".intercalate many)

def jsonText (results : List Outcome) : String := (Json.arr (results.map Outcome.toJson)).pretty

def texts (colored : Bool) (results : List Outcome) : List String :=
  (reports results).flatMap (reportTexts colored)
    ++ if (failure false results).isNone then [successText colored (reports results).length] else []

def output (json colored : Bool) (results : List Outcome) : Output where
  stdout := if json then Output.line (jsonText results) else Output.lines (texts colored results)
  stderr := Output.lines ((errors results).map (errorText colored))
  failure := failure json results

/-- The error stream is taken to be no terminal, so that no bar shows how far a long check is. -/
def run (s : Surroundings) (config : Config) (json : Bool) (color : ColorChoice)
    (arguments : Arguments) : Output :=
  output json (color.isColored s.getVariable) (outcomes s config arguments)

end LiteralLint.Check
