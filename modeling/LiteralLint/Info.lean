import LiteralLint.Config.Basic
import LiteralLint.Config.Sources
import LiteralLint.Diagnostic
import LiteralLint.Interchange
import LiteralLint.Output

/-! # Information

What the tool is and which configuration is in effect. The text for people is always styled. -/

set_option autoImplicit false

namespace LiteralLint.Info

structure Summary where
  configFile : Option String
  logLevel : LogLevel
  logDir : Option String
  allow : AllowList
  inputLimit : Option Nat
  overrideCount : Nat

namespace Summary

def ofConfig (config : Config) (sources : Sources) : Summary where
  configFile := sources.primaryFile
  logLevel := config.logLevel
  logDir := config.logDir
  allow := config.allowList
  inputLimit := config.inputLimit
  overrideCount := (config.overrides.getD []).length

/-- A member that is left out if there is no value. -/
def member? (name : String) (value : Option String) : List (String × Json) :=
  value.toList.map fun v => (name, .str v)

def toJson (summary : Summary) : Json :=
  .obj (member? "config_file" summary.configFile
    ++ [("log_level", summary.logLevel.toJson)]
    ++ member? "log_dir" summary.logDir
    ++ [("allowed_values", .strings summary.allow.values),
      ("max_input_bytes", .optional (fun n => .int n) summary.inputLimit),
      ("override_count", .int summary.overrideCount)])

end Summary

def toJson (summary : Summary) : Json :=
  .obj [("name", .str About.name), ("version", .str About.version),
    ("description", .str About.description), ("license", .str About.license),
    ("config", summary.toJson)]

def heading (text : String) : String := Style.underlined.paint (Style.bold.paint text)

def entry (label value : String) : String := s!"{Style.dimmed.paint label}: {value}"

def allowedText (allow : AllowList) : String :=
  if allow.isEmpty then Style.yellow.paint allow.describe else allow.describe

def limitText : Option Nat → String
  | some limit => s!"{limit} bytes"
  | none => Style.dimmed.paint "disabled"

def configFileText : Option String → String
  | some path => Style.cyan.paint path
  | none => Style.yellow.paint "none loaded"

def texts (summary : Summary) : List String :=
  [s!"{Style.bold.paint About.name} {Style.green.paint About.version}",
    About.description,
    entry "License" About.license,
    "",
    heading "Configuration",
    entry "Config file" (configFileText summary.configFile),
    entry "Log level" summary.logLevel.name]
  ++ summary.logDir.toList.map (entry "Log directory")
  ++ ["",
    heading "Format rule",
    entry "Allowed values" (allowedText summary.allow),
    entry "Input limit" (limitText summary.inputLimit),
    entry "Path overrides" s!"{summary.overrideCount}"]

def run (config : Config) (sources : Sources) (json : Bool) : Output where
  stdout :=
    let summary := Summary.ofConfig config sources
    if json then Output.line (toJson summary).pretty else Output.lines (texts summary)

end LiteralLint.Info
