import LiteralLint.Config.Basic
import LiteralLint.Glob.Match

/-! # Overrides for a path

Which override decides on a path: the one with the most specific pattern that matches it, and of
several such the first. -/

set_option autoImplicit false

namespace LiteralLint

namespace Override

/-- The patterns that can be read; the others have no effect. -/
def globs (o : Override) : List Glob := o.paths.filterMap fun text => (Glob.parse text).toOption

def faults (o : Override) : List (String × Glob.Fault) :=
  o.paths.filterMap fun text =>
    match Glob.parse text with
    | .ok _ => none
    | .error e => some (text, e)

def allowList (o : Override) : AllowList := .ofList o.allowedValues

def rank? (o : Override) (path : String) : Option Nat :=
  ((o.globs.filter (·.isMatch path)).map Glob.specificity).max?

def best? (path : String) : List Override → Option (Nat × Override)
  | [] => none
  | o :: os =>
    match o.rank? path, best? path os with
    | none, later => later
    | some rank, none => some (rank, o)
    | some rank, some later => if later.1 > rank then some later else some (rank, o)

end Override

def resolve? (overrides : List Override) (path : String) : Option AllowList :=
  (Override.best? path overrides).map fun (_, o) => o.allowList

def resolve (overrides : List Override) (path : String) (otherwise : AllowList) : AllowList :=
  (resolve? overrides path).getD otherwise

end LiteralLint
