import LiteralLint.Config.Surroundings

/-! # Log files

Where events are written. A file that cannot be opened is no reason to fail: nothing is logged
then. -/

set_option autoImplicit false

namespace LiteralLint.Log

inductive Destination where
  | file (path : String)
  | directory (path : String)
deriving DecidableEq, Repr

namespace Destination

/-- Variables weigh more than the configuration; the user's own directory comes last. -/
def choose? (s : Surroundings) (configured : Option String) : Option Destination :=
  match s.getVariable "FORMAT_LINT_LOG_PATH" with
  | some path => some (.file path)
  | none =>
    match (s.getVariable "FORMAT_LINT_LOG_DIR").or configured with
    | some path => some (.directory path)
    | none => s.dataDirectory?.map fun path => .directory (Path.join path "logs")

/-- The directory and the name of the file to write on a day. A path without a directory in front of
its name gives none. -/
def place? (today : String) : Destination → Option (String × String)
  | file path => do
    let directory ← Path.parent? path
    guard (!directory.isEmpty)
    return (directory, ← Path.fileName? path)
  | directory path => some (path, s!"{applicationName}.{today}.jsonl")

def openIn (s : Surroundings) (destination : Option Destination) : FileTree × Option Location :=
  match destination.bind (place? s.today) with
  | none => (s.tree, none)
  | some (path, name) =>
    match s.tree.makeDirectories s.directory path with
    | (tree, some there) =>
      if (Path.join path name).utf8ByteSize > FileTree.greatestPathLength then (tree, none)
      else tree.openFile there name
    | (tree, none) => (tree, none)

end Destination

end LiteralLint.Log
