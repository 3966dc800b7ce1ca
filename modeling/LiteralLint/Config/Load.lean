import LiteralLint.Config.Decode
import LiteralLint.Config.Discovery
import LiteralLint.Config.Environment
import LiteralLint.Config.File
import LiteralLint.Config.Sources

/-! # Loading a configuration

The settings of all files and of the environment lie in layers, each of which weighs more than those
before it. They are merged, and the result is read as a configuration. -/

set_option autoImplicit false

namespace LiteralLint.Config

inductive Origin where
  | file (format : FileFormat) (path : String)
  | environment
deriving DecidableEq, Repr

namespace Origin

def ofPath (path : String) : Origin := .file (.ofPath path) path

def name : Origin → String
  | file format _ => s!"{format.name} file"
  | environment => s!"\x60{Environment.namePrefix}\x60 environment variable(s)"

/-- How the setting at a path is called: in files below the default profile, in the environment in
capitals. -/
def keyName : Origin → List String → String
  | file _ _, path => ".".intercalate ("default" :: path)
  | environment, path => ".".intercalate (path.map String.toUpper)

def describe (base : String) : Origin → String
  | file format path => s!"{Path.shown base path} {(file format path).name}"
  | environment => environment.name

end Origin

inductive Fault where
  | unreadable (cause : AccessFault)
  | malformed
  | misfit (cause : Misfit)
deriving DecidableEq, Repr

structure LoadError where
  origin : Origin
  fault : Fault
deriving DecidableEq, Repr

namespace LoadError

/-- In a TOML file a line ends behind the reason why it cannot be read. What a parser says of a
text that it cannot read is not worked out: `malformed settings` stands for it. -/
def reason (e : LoadError) : String :=
  match e.fault, e.origin with
  | .unreadable cause, .file .toml _ => cause.message ++ "\n"
  | .unreadable cause, _ => cause.message
  | .malformed, _ => "malformed settings"
  | .misfit m, origin =>
    let key := if m.path.isEmpty then "" else s!" for key {Text.quoted (origin.keyName m.path)}"
    describeMismatch m.cause ++ key

def text (base : String) (e : LoadError) : String := s!"{e.reason} in {e.origin.describe base}"

def texts (base : String) (errors : List LoadError) : String :=
  "\n".intercalate (errors.map (·.text base))

def message (base : String) (errors : List LoadError) : String :=
  s!"invalid configuration: {texts base errors}"

end LoadError

structure Layer where
  origin : Origin
  table : Table

def readFile (s : Surroundings) (path : String) : Except LoadError Layer :=
  let origin := Origin.ofPath path
  match s.readText path with
  | .error cause => .error ⟨origin, .unreadable cause⟩
  | .ok text =>
    match (FileFormat.ofPath path).read? text with
    | some table => .ok ⟨origin, table⟩
    | none => .error ⟨origin, .malformed⟩

def environmentLayer (s : Surroundings) : Layer := ⟨.environment, Environment.table s.environment⟩

/-- The settings of all layers; later ones weigh more. -/
def mergeLayers (layers : List Layer) : Table :=
  layers.foldl (fun merged layer => Table.merge merged layer.table) []

def originOf (layers : List Layer) (path : List String) : Origin :=
  match layers.reverse.find? fun layer => ((Value.table layer.table).at? path).isSome with
  | some layer => layer.origin
  | none => .environment

def ofLayers (layers : List Layer) : Except LoadError Config :=
  match ofTable (mergeLayers layers) with
  | .ok config => .ok config
  | .error misfit => .error ⟨originOf layers misfit.path, .misfit misfit⟩

structure Request where
  userFile : Bool := true
  start : Option String := none
  marker : Option String := some standardMarker
  explicitFiles : List String := []
deriving Inhabited

/-- The first and the last of the files that cannot be read are the errors. -/
def reported : List LoadError → List LoadError
  | [] => []
  | [e] => [e]
  | e :: es => [e, es.getLastD e]

/-- The layers that have been merged, the faults of files that cannot be read, and where all of it
comes from. -/
structure Loading where
  layers : List Layer := []
  faults : List LoadError := []
  sources : Sources := {}

namespace Loading

variable (s : Surroundings) (r : Request)

def mergeFile (l : Loading) (path : String) : Loading :=
  match readFile s path with
  | .ok layer => { l with layers := l.layers ++ [layer] }
  | .error e => { l with faults := l.faults ++ [e] }

def mergeFiles (l : Loading) (files : List String) : Loading := files.foldl (mergeFile s) l

def mergeUserFile (l : Loading) : Loading :=
  match if r.userFile then findUserFile? s else none with
  | some file => { l.mergeFile s file with sources.userFile := some file }
  | none => l

def mergeProjectFiles (l : Loading) : Loading :=
  match r.start with
  | some start =>
    let files := findProjectFiles s r.marker start
    { l.mergeFiles s files with sources.projectFiles := files }
  | none => l

def mergeExplicitFiles (l : Loading) : Loading :=
  { l.mergeFiles s r.explicitFiles with sources.explicitFiles := r.explicitFiles }

def extract (l : Loading) : Except (List LoadError) Config :=
  match l.faults with
  | [] =>
    match ofLayers (l.layers ++ [environmentLayer s]) with
    | .ok config => .ok config
    | .error e => .error [e]
  | faults => .error (reported faults)

end Loading

def load (s : Surroundings) (r : Request) : Except (List LoadError) (Config × Sources) := do
  let nothing : Loading := {}
  let merged := ((nothing.mergeUserFile s r).mergeProjectFiles s r).mergeExplicitFiles s r
  let config ← merged.extract s
  return (config, merged.sources)

end LiteralLint.Config
