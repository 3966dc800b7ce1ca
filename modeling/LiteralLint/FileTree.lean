import LiteralLint.Path

/-! # File trees

Directories and the files in them, each under the list of names that leads to it from the root.
Paths are followed one component after the other, so that `a/..` needs a directory `a`. There are no
links, no permissions and no special files: whatever is there can be read and written. -/

set_option autoImplicit false

namespace LiteralLint

inductive Node where
  | file (content : ByteArray)
  | directory
deriving Inhabited

inductive AccessFault where
  | notFound
  | notADirectory
  | isADirectory
  | nameTooLong
  | nulInName
  | invalidText
deriving DecidableEq, Repr

def AccessFault.message : AccessFault → String
  | notFound => "No such file or directory (os error 2)"
  | notADirectory => "Not a directory (os error 20)"
  | isADirectory => "Is a directory (os error 21)"
  | nameTooLong => "File name too long (os error 36)"
  | nulInName => "file name contained an unexpected NUL byte"
  | invalidText => "stream did not contain valid UTF-8"

/-- The names on the way from the root. -/
abbrev Location := List String

structure FileTree where
  nodes : List (Location × Node)
deriving Inhabited

namespace FileTree

def greatestNameLength : Nat := 255

def greatestPathLength : Nat := 4095

/-- What a directory counts for is up to the file system: on a common one, a block, if there is not
too much in it. -/
def directorySize : Nat := 4096

def empty : FileTree := ⟨[]⟩

/-- What stands at a location. The root is always there. -/
def node? (tree : FileTree) : Location → Option Node
  | [] => some .directory
  | location => List.lookup location tree.nodes

def insert (tree : FileTree) (location : Location) (node : Node) : FileTree :=
  ⟨(location, node) :: tree.nodes.filter fun (l, _) => l ≠ location⟩

theorem node?_insert_self (tree : FileTree) {location : Location} (node : Node)
    (h : location ≠ []) :
    (tree.insert location node).node? location = some node := by
  cases location with
  | nil => exact absurd rfl h
  | cons => simp [node?, insert]

def withDirectoriesFrom (tree : FileTree) (here : Location) : Location → FileTree
  | [] => tree
  | name :: names =>
    let there := here ++ [name]
    let tree := if (tree.node? there).isSome then tree else tree.insert there .directory
    tree.withDirectoriesFrom there names

def withDirectories (tree : FileTree) (location : Location) : FileTree :=
  tree.withDirectoriesFrom [] location

def withFile (tree : FileTree) (location : Location) (content : ByteArray) : FileTree :=
  (tree.withDirectories location.dropLast).insert location (.file content)

def follow (tree : FileTree) : Location → List (List Char) → Except AccessFault Location
  | here, [] => .ok here
  | here, piece :: pieces =>
    match tree.node? here with
    | none => .error .notFound
    | some (.file _) => .error .notADirectory
    | some .directory =>
      if Path.isVoid piece then tree.follow here pieces
      else if piece = ['.', '.'] then tree.follow here.dropLast pieces
      else
        let name := String.ofList piece
        if name.utf8ByteSize > greatestNameLength then .error .nameTooLong
        else
          let there := here ++ [name]
          if (tree.node? there).isSome then tree.follow there pieces else .error .notFound

def locate (tree : FileTree) (base : Location) (path : String) : Except AccessFault Location :=
  if path.isEmpty then .error .notFound
  else if '\x00' ∈ path.toList then .error .nulInName
  else if path.utf8ByteSize > greatestPathLength then .error .nameTooLong
  else tree.follow (if Path.isAbsolute path then [] else base) (Text.split '/' path.toList)

def find (tree : FileTree) (base : Location) (path : String) : Except AccessFault Node := do
  match tree.node? (← tree.locate base path) with
  | some node => return node
  | none => throw .notFound

def isFile (tree : FileTree) (base : Location) (path : String) : Bool :=
  match tree.find base path with
  | .ok (.file _) => true
  | _ => false

def exists? (tree : FileTree) (base : Location) (path : String) : Bool :=
  (tree.find base path).toOption.isSome

def size (tree : FileTree) (base : Location) (path : String) : Except AccessFault Nat := do
  match ← tree.find base path with
  | .file content => return content.size
  | .directory => return directorySize

def readText (tree : FileTree) (base : Location) (path : String) : Except AccessFault String := do
  match ← tree.find base path with
  | .directory => throw .isADirectory
  | .file content =>
    match String.fromUTF8? content with
    | some text => return text
    | none => throw .invalidText

def enter (tree : FileTree) (base : Location) (path : String) : Except AccessFault Location := do
  let there ← tree.locate base path
  match tree.node? there with
  | some .directory => return there
  | some (.file _) => throw .notADirectory
  | none => throw .notFound

/-- Follows the pieces of a path and makes the directories that are missing. Those that were made
stay even if a later piece leads nowhere. -/
def makeWay (tree : FileTree) : Location → List (List Char) → FileTree × Option Location
  | here, [] =>
    match tree.node? here with
    | some .directory => (tree, some here)
    | _ => (tree, none)
  | here, piece :: pieces =>
    match tree.node? here with
    | some .directory =>
      if Path.isVoid piece then tree.makeWay here pieces
      else if piece = ['.', '.'] then tree.makeWay here.dropLast pieces
      else
        let name := String.ofList piece
        if name.utf8ByteSize > greatestNameLength then (tree, none)
        else
          let there := here ++ [name]
          if (tree.node? there).isSome then tree.makeWay there pieces
          else (tree.insert there .directory).makeWay there pieces
    | _ => (tree, none)

/-- Makes the directory a path names, and those above it; the empty path names `base`. -/
def makeDirectories (tree : FileTree) (base : Location) (path : String) :
    FileTree × Option Location :=
  if '\x00' ∈ path.toList ∨ path.utf8ByteSize > greatestPathLength then (tree, none)
  else tree.makeWay (if Path.isAbsolute path then [] else base) (Text.split '/' path.toList)

/-- Makes an empty file of that name unless there is a file already; `none` if that cannot be. -/
def openFile (tree : FileTree) (directory : Location) (name : String) :
    FileTree × Option Location :=
  let location := directory ++ [name]
  if name.utf8ByteSize > greatestNameLength then (tree, none)
  else
    match tree.node? location with
    | some (.file _) => (tree, some location)
    | some .directory => (tree, none)
    | none => (tree.insert location (.file .empty), some location)

def files (tree : FileTree) : List Location :=
  tree.nodes.filterMap fun (location, node) =>
    match node with
    | .file _ => some location
    | .directory => none

def pathOf (location : Location) : String := "/" ++ "/".intercalate location

end FileTree

end LiteralLint
