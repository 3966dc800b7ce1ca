import LiteralLint.Log.Event

/-! # Log filters

A filter is a list of directives, each of which admits the events of some targets up to a level. On
every event the directive with the longest target that fits decides. -/

set_option autoImplicit false

namespace LiteralLint.Log

/-- Decides on the targets that start with its own. Without a level nothing is admitted. -/
structure Directive where
  target : String := ""
  most : Option Level
deriving DecidableEq, Repr

namespace Directive

def covers (d : Directive) (target : String) : Bool := d.target.toList.isPrefixOf target.toList

def readLevel? (s : String) : Option (Option Level) :=
  let name := s.toUpper
  match Text.natural? 10 s.toList with
  | some 0 => some none
  | some rank => (Level.all.find? (·.rank == rank)).map some
  | none => if name = "OFF" then some none else (Level.all.find? (·.name == name)).map some

def startsTarget (c : Char) : Bool :=
  c.isAlphanum || c == '-' || c == ':' || c == '_' || c.toNat ≥ 128

/-- A level, a target, or a target and a level with an equals sign between them. A target alone
stands for all its events. -/
def parse? (item : String) : Option Directive := do
  let cs := item.toList
  guard ((cs.head?.map startsTarget).getD false ∧ '[' ∉ cs)
  match cs.dropWhile (· ≠ '=') with
  | [] =>
    match readLevel? item with
    | some most => return { most }
    | none => return { target := item, most := some .trace }
  | _ :: rest =>
    let target := String.ofList (cs.takeWhile (· ≠ '='))
    if rest.isEmpty then return { target, most := some .trace }
    return { target, most := ← readLevel? (String.ofList rest) }

end Directive

abbrev Filter := List Directive

namespace Filter

/-- The directive that decides on a target. Of two with the same target the later one does. -/
def decisive? (target : String) : Filter → Option Directive
  | [] => none
  | d :: ds =>
    match decisive? target ds with
    | none => if d.covers target then some d else none
    | some later =>
      if d.covers target ∧ d.target.length > later.target.length then some d else some later

def admits (filter : Filter) (e : Event) : Bool :=
  match (filter.decisive? e.target).bind (·.most) with
  | some most => e.level.rank ≤ most.rank
  | none => false

def upTo (level : Level) : Filter := [{ most := some level }]

def parse? (s : String) : Option Filter := do
  let items := (Text.split ',' s.toList).filter (!·.isEmpty)
  let directives ← items.mapM fun item => Directive.parse? (String.ofList item)
  return if directives.isEmpty then upTo .error else directives

def variableName : String := "RUST_LOG"

/-- The filter that a variable asks for if it makes sense, else one by the options of the call, else
one by the configured level. -/
def choose (variableValue : Option String) (quiet : Bool) (verbose : Nat) (level : LogLevel) :
    Filter :=
  (variableValue.bind parse?).getD <|
    upTo <|
      if quiet then .error
      else
        match verbose with
        | 0 => .ofLogLevel level
        | 1 => .debug
        | _ => .trace

end Filter

end LiteralLint.Log
