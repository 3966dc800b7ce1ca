import LiteralLint.Json.Basic

/-! # Sources of a configuration

The files a configuration was read from. Within each list later files weigh more. -/

set_option autoImplicit false

namespace LiteralLint

structure Sources where
  projectFiles : List String := []
  userFile : Option String := none
  explicitFiles : List String := []
deriving DecidableEq, Repr, Inhabited

namespace Sources

/-- The files in the order in which they are merged. -/
def files (s : Sources) : List String := s.userFile.toList ++ s.projectFiles ++ s.explicitFiles

def primaryFile (s : Sources) : Option String :=
  (s.explicitFiles.getLast?.orElse fun _ => s.projectFiles.getLast?).or s.userFile

theorem primaryFile_eq (s : Sources) : s.primaryFile = s.files.getLast? := by
  rw [primaryFile, files, List.getLast?_append, List.getLast?_append, Option.orElse_eq_or,
    Option.or_assoc]
  cases s.userFile <;> rfl

/-- Only what is there is written. -/
def toJson (s : Sources) : Json :=
  let list (name : String) (files : List String) :=
    if files.isEmpty then [] else [(name, Json.strings files)]
  .obj (list "project_files" s.projectFiles
    ++ s.userFile.toList.map (fun file => ("user_file", .str file))
    ++ list "explicit_files" s.explicitFiles)

end Sources

end LiteralLint
