import LiteralLint.FileTree

/-! # Surroundings of a run

The files, the working directory, the environment variables and the date that a run finds, and the
directories of the user that follow from them. -/

set_option autoImplicit false

namespace LiteralLint

structure Surroundings where
  tree : FileTree
  directory : Location
  environment : List (String × String)
  /-- Year, month and day, with dashes between them. -/
  today : String
  /-- The dialect that the schemas of tools are said to be in. -/
  schemaDialect : Option String := none
deriving Inhabited

def applicationName : String := "format-lint"

namespace Surroundings

def getVariable (s : Surroundings) (name : String) : Option String :=
  List.lookup name s.environment

def workingDirectory (s : Surroundings) : String := FileTree.pathOf s.directory

def isFile (s : Surroundings) (path : String) : Bool := s.tree.isFile s.directory path

def exists? (s : Surroundings) (path : String) : Bool := s.tree.exists? s.directory path

def readText (s : Surroundings) (path : String) : Except AccessFault String :=
  s.tree.readText s.directory path

def home? (s : Surroundings) : Option String := (s.getVariable "HOME").filter (!·.isEmpty)

/-- The directory that a variable names if it is absolute, else one within the home directory.
Without a home directory there is none. -/
def userDirectory? (s : Surroundings) (variableName fallback : String) : Option String := do
  let home ← s.home?
  let base := ((s.getVariable variableName).filter Path.isAbsolute).getD (Path.join home fallback)
  return Path.join base applicationName

def configDirectory? (s : Surroundings) : Option String :=
  s.userDirectory? "XDG_CONFIG_HOME" ".config"

def dataDirectory? (s : Surroundings) : Option String :=
  s.userDirectory? "XDG_DATA_HOME" ".local/share"

end Surroundings

end LiteralLint
