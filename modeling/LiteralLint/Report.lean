import LiteralLint.Diagnostic
import LiteralLint.Document

/-! # Reports

The diagnostics of one snapshot of a document, and the limit on the size of what is checked. -/

set_option autoImplicit false

namespace LiteralLint

structure Report where
  uri : String
  languageId : String
  version : Int32
  diagnostics : List Diagnostic
  pass : Bool
deriving DecidableEq, Repr, Inhabited

def Document.check (document : Document) (allow : AllowList) : Except OffsetOutOfBounds Report := do
  let diagnostics ← checkText document.text allow
  return {
    uri := document.uri
    languageId := document.languageId
    version := document.version
    diagnostics
    pass := diagnostics.isEmpty }

structure InputTooLarge where
  size : Nat
  limit : Nat
deriving DecidableEq, Repr

def InputTooLarge.message (e : InputTooLarge) : String :=
  s!"input too large: {e.size} bytes (limit: {e.limit} bytes)"

/-- Five mebibytes. -/
def standardInputLimit : Nat := 5242880

/-- Without a limit every size is admitted; the limit itself is admitted too. -/
def checkInputSize (size : Nat) : Option Nat → Except InputTooLarge Unit
  | some limit => if size > limit then .error ⟨size, limit⟩ else .ok ()
  | none => .ok ()

end LiteralLint
