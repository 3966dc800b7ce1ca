import LiteralLint.AllowList
import LiteralLint.Cursor
import LiteralLint.LineIndex

/-! # Diagnostics

One warning for each literal of a text whose value is not allowed, and what the tool that makes them
says about itself. -/

set_option autoImplicit false

namespace LiteralLint

inductive Severity where
  | error
  | warning
  | information
  | hint
deriving DecidableEq, Repr, Inhabited

namespace Severity

def all : List Severity := [error, warning, information, hint]

def name : Severity → String
  | error => "error"
  | warning => "warning"
  | information => "information"
  | hint => "hint"

end Severity

structure Diagnostic where
  severity : Severity
  range : Range
  message : String
  source : String
  code : String
deriving DecidableEq, Repr, Inhabited

namespace Diagnostic

def toolName : String := "format-lint"

def invalidFormatCode : String := "invalid-format"

def invalidFormat (value : String) (range : Range) (allow : AllowList) : Diagnostic where
  severity := .warning
  range
  message := s!"Invalid format '{value}'. Allowed formats: {allow.describe}."
  source := toolName
  code := invalidFormatCode

/-- The diagnostics of the literals that are not allowed. Allowed ones are not looked up in the
index, and the first one that does not fit the index is the error. -/
def ofLiterals (index : LineIndex) (found : List Literal) (allow : AllowList) :
    Except OffsetOutOfBounds (List Diagnostic) :=
  (found.filter fun l => !allow.contains l.value).mapM fun l => do
    let range ← index.range l.start l.stop
    return invalidFormat l.value range allow

end Diagnostic

def checkText (text : String) (allow : AllowList) : Except OffsetOutOfBounds (List Diagnostic) :=
  Diagnostic.ofLiterals (LineIndex.ofText text) (literals text) allow

namespace About

def name : String := Diagnostic.toolName

def version : String := "0.1.0"

def description : String :=
  "Positioned diagnostics for disallowed \x60format\x60 literals in plain text"

def license : String := "MIT"

end About

end LiteralLint
