import LiteralLint.Report

/-! # Configuration

The settings of a run. Every one of them has a default. -/

set_option autoImplicit false

namespace LiteralLint

inductive LogLevel where
  | debug
  | info
  | warn
  | error
deriving DecidableEq, Repr, Inhabited

namespace LogLevel

def all : List LogLevel := [debug, info, warn, error]

def name : LogLevel → String
  | debug => "debug"
  | info => "info"
  | warn => "warn"
  | error => "error"

end LogLevel

/-- The values that are allowed in the files whose path matches one of the patterns. -/
structure Override where
  paths : List String
  allowedValues : List String
deriving DecidableEq, Repr, Inhabited

structure Config where
  logLevel : LogLevel := .info
  logDir : Option String := none
  allowedValues : List String := AllowList.standardValues
  maxInputBytes : Option Nat := none
  disableInputLimit : Bool := false
  overrides : Option (List Override) := none
deriving DecidableEq, Repr, Inhabited

namespace Config

def standard : Config := {}

def allowList (config : Config) : AllowList := .ofList config.allowedValues

/-- The greatest admitted size in bytes; `none` where the limit is switched off. -/
def inputLimit (config : Config) : Option Nat :=
  if config.disableInputLimit then none else some (config.maxInputBytes.getD standardInputLimit)

end Config

end LiteralLint
