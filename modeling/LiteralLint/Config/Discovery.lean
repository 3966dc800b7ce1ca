import LiteralLint.Config.Surroundings

/-! # Finding configuration files

Project files are looked for in a directory and then in those above it, up to the nearest one that
holds a marker; the first directory with any of them gives all of its own. Of the files in the
user's directory only the first is taken. -/

set_option autoImplicit false

namespace LiteralLint.Config

def extensions : List String := ["toml", "yaml", "yml", "json"]

/-- The names of project files; later ones weigh more. -/
def projectFileNames : List String :=
  extensions.map (fun e => s!".{applicationName}.{e}")
    ++ extensions.map (fun e => s!"{applicationName}.{e}")

def userFileNames : List String := extensions.map fun e => s!"config.{e}"

def standardMarker : String := ".git"

def ancestorsFrom : Nat → String → List String
  | 0, path => [path]
  | fuel + 1, path =>
    match Path.parent? path with
    | some parent => path :: ancestorsFrom fuel parent
    | none => [path]

def ancestors (path : String) : List String := ancestorsFrom path.length path

def projectFilesIn (s : Surroundings) (directory : String) : List String :=
  (projectFileNames.map (Path.join directory)).filter s.isFile

/-- Whether the search ends at a directory. It does not end where it began. -/
def isBoundary (s : Surroundings) (marker : Option String) (start directory : String) : Bool :=
  match marker with
  | some name => s.exists? (Path.join directory name) && !Path.same directory start
  | none => false

/-- The files of the first of some directories that holds any, up to a boundary. -/
def searchProject (s : Surroundings) (marker : Option String) (start : String) :
    List String → List String
  | [] => []
  | directory :: directories =>
    match projectFilesIn s directory with
    | [] =>
      if isBoundary s marker start directory then [] else searchProject s marker start directories
    | found => found

def findProjectFiles (s : Surroundings) (marker : Option String) (start : String) : List String :=
  searchProject s marker start (ancestors start)

def findUserFile? (s : Surroundings) : Option String := do
  let directory ← s.configDirectory?
  (userFileNames.map (Path.join directory)).find? s.isFile

end LiteralLint.Config
