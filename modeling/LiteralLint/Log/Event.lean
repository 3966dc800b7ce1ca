import LiteralLint.Check
import LiteralLint.Config.Sources
import LiteralLint.Text.Quotation

/-! # Log events

What is logged in the course of a run, and by which part of the program. -/

set_option autoImplicit false

namespace LiteralLint.Log

inductive Level where
  | error
  | warn
  | info
  | debug
  | trace
deriving DecidableEq, Repr, Inhabited

namespace Level

def all : List Level := [error, warn, info, debug, trace]

def name : Level → String
  | error => "ERROR"
  | warn => "WARN"
  | info => "INFO"
  | debug => "DEBUG"
  | trace => "TRACE"

/-- The more detail, the higher. -/
def rank : Level → Nat
  | error => 1
  | warn => 2
  | info => 3
  | debug => 4
  | trace => 5

def ofLogLevel : LogLevel → Level
  | .debug => debug
  | .info => info
  | .warn => warn
  | .error => error

end Level

structure Event where
  level : Level
  target : String
  message : String
  fields : List (String × Json) := []
deriving Repr, Inhabited

namespace Event

def toJson (e : Event) : Json := .obj (("message", .str e.message) :: e.fields)

def program : String := "format_lint"

def starting (primaryFile : Option String) (json : Bool) (verbose : Nat) : Event where
  level := .debug
  target := program
  message := "starting"
  fields :=
    let file :=
      match primaryFile with
      | some path => s!"Some({Text.quoted path})"
      | none => "None"
    [("config_file", .str file), ("json", .bool json), ("verbose", .int verbose)]

def failed (reason : String) : Event where
  level := .error
  target := program
  message := "command failed"
  fields := [("error", .str reason)]

def checkTarget : String := "format_lint::commands::check"

def overridesTarget : String := "format_lint_core::overrides"

def checking (arguments : Check.Arguments) : Event where
  level := .debug
  target := checkTarget
  message := "executing check command"
  fields :=
    [("files", .int arguments.files.length), ("allow", .str (Text.quotedList arguments.allow))]

def patternSkipped (pattern : String) (fault : Glob.Fault) : Event where
  level := .warn
  target := overridesTarget
  message := "skipping invalid glob pattern"
  fields :=
    let reason := s!"error parsing glob '{pattern}': {fault.describe}"
    [("pattern", .str pattern), ("error", .str reason)]

def overrideResolved (path : String) (matched : Bool) : Event where
  level := .debug
  target := overridesTarget
  message := "resolved path override"
  fields := [("path", .str path), ("matched", .bool matched)]

def literalsChecked (count : Nat) : Event where
  level := .debug
  target := "format_lint_core::diagnostics"
  message := "format literals checked"
  fields := [("count", .int count)]

def documentChecked (count : Nat) (pass : Bool) : Event where
  level := .debug
  target := "format_lint_core::lint"
  message := "document checked"
  fields := [("count", .int count), ("pass", .bool pass)]

def fileFailed (e : InputError) : Event where
  level := .warn
  target := checkTarget
  message := "file could not be checked"
  fields := [("path", .str e.path), ("error", .str e.message)]

def informing (json : Bool) : Event where
  level := .debug
  target := "format_lint::commands::info"
  message := "executing info command"
  fields := [("json_output", .bool json)]

def serving (allow : AllowList) : Event where
  level := .info
  target := "format_lint::commands::serve"
  message := "starting MCP server on stdio"
  fields := [("allowed", .str allow.describe)]

end Event

def outcomeEvents (overrides : List Override) (path : String) (outcome : Check.Outcome) :
    List Event :=
  .overrideResolved path (resolve? overrides path).isSome ::
    match outcome with
    | .checked report =>
      let count := report.diagnostics.length
      [.literalsChecked count, .documentChecked count report.pass]
    | .failed e => [.fileFailed e]

/-- The events of a check: patterns that cannot be read come before all files. -/
def checkEvents (s : Surroundings) (config : Config) (arguments : Check.Arguments) : List Event :=
  let overrides := Check.overrides config arguments
  let skipped := (overrides.flatMap Override.faults).map fun (pattern, fault) =>
    Event.patternSkipped pattern fault
  .checking arguments :: skipped
    ++ arguments.files.flatMap fun path =>
      outcomeEvents overrides path (Check.outcome s config arguments path)

end LiteralLint.Log
