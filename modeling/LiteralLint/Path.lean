import LiteralLint.Text.Split

/-! # Paths

Paths are texts with slashes between their components. Empty components and single dots do not
count, except for a single dot in front of all others. -/

set_option autoImplicit false

namespace LiteralLint.Path

inductive Component where
  | root
  | here
  | up
  | name (value : String)
deriving DecidableEq, Repr

def isVoid (piece : List Char) : Bool := piece.isEmpty || piece == ['.']

/-- A path cut in two: its root or its leading dot, and the pieces between slashes behind it. -/
def pieces (path : String) : List Char × List (List Char) :=
  match path.toList with
  | '/' :: rest => (['/'], Text.split '/' rest)
  | '.' :: '/' :: rest => (['.'], [] :: Text.split '/' rest)
  | ['.'] => (['.'], [])
  | cs => ([], Text.split '/' cs)

def Component.ofPiece (piece : List Char) : Component :=
  if piece = ['.', '.'] then up else name (String.ofList piece)

def components (path : String) : List Component :=
  let (start, body) := pieces path
  let first :=
    match start with
    | ['/'] => [Component.root]
    | ['.'] => [Component.here]
    | _ => []
  first ++ (body.filter (!isVoid ·)).map .ofPiece

def Component.text : Component → String
  | root => "/"
  | here => "."
  | up => ".."
  | name s => s

def ofComponents (cs : List Component) : String :=
  match cs with
  | .root :: cs => "/" ++ "/".intercalate (cs.map (·.text))
  | cs => "/".intercalate (cs.map (·.text))

def isAbsolute (path : String) : Bool := path.toList.head? == some '/'

def same (a b : String) : Bool := components a == components b

/-- A path as seen from the directory `base`. An absolute one stays as it is. -/
def join (base path : String) : String :=
  if isAbsolute path ∨ base.isEmpty then path
  else if base.toList.getLast? = some '/' then base ++ path
  else base ++ "/" ++ path

def stripVoid (body : List (List Char)) : List (List Char) :=
  (body.reverse.dropWhile isVoid).reverse

def parent? (path : String) : Option String :=
  let (start, body) := pieces path
  match stripVoid body with
  | [] => if start = ['.'] then some "" else none
  | body => some (String.ofList (start ++ Text.join '/' (stripVoid body.dropLast)))

def fileName? (path : String) : Option String :=
  match (components path).getLast? with
  | some (.name s) => some s
  | _ => none

/-- What follows the last dot of the file name. A dot in front of the name does not count. -/
def extension? (path : String) : Option String := do
  let name ← fileName? path
  match Text.split '.' name.toList with
  | [] | [_] => none
  | [[], _] => none
  | many => many.getLast?.map String.ofList

def relativeTo (base path : List Component) : List Component :=
  match base, path with
  | b :: base, p :: path =>
    if b = p then relativeTo base path
    else List.replicate (base.length + 1) .up ++ p :: path
  | base, path => List.replicate base.length .up ++ path

/-- A path as it is shown: seen from the working directory where that is shorter. -/
def shown (base path : String) : String :=
  let there := components path
  let way := relativeTo (components base) there
  if isAbsolute path ∧ way.length < there.length then ofComponents way else path

end LiteralLint.Path
