import LiteralLint.Config.Surroundings
import LiteralLint.Report

/-! # Reading the files that are checked

The size of a file is looked at before its content is. -/

set_option autoImplicit false

namespace LiteralLint

inductive InputFault where
  | unreadable (cause : AccessFault)
  | tooLarge (cause : InputTooLarge)
  | outOfBounds (cause : OffsetOutOfBounds)
deriving DecidableEq, Repr

structure InputError where
  path : String
  fault : InputFault
deriving DecidableEq, Repr

def InputError.message (e : InputError) : String :=
  match e.fault with
  | .unreadable cause => s!"failed to read {e.path}: {cause.message}"
  | .tooLarge cause => s!"cannot check {e.path}: {cause.message}"
  | .outOfBounds cause => s!"failed to check {e.path}: {cause.message}"

namespace Surroundings

/-- The text of a file that has no more bytes than the limit admits. -/
def readInput (s : Surroundings) (path : String) (limit : Option Nat) : Except InputError String :=
  match s.tree.size s.directory path with
  | .error cause => .error ⟨path, .unreadable cause⟩
  | .ok size =>
    match checkInputSize size limit with
    | .error cause => .error ⟨path, .tooLarge cause⟩
    | .ok () =>
      match s.readText path with
      | .error cause => .error ⟨path, .unreadable cause⟩
      | .ok text => .ok text

end Surroundings

end LiteralLint
