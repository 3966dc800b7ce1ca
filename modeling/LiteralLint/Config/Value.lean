import LiteralLint.Number.Binary64

/-! # Untyped settings

What a configuration file or an environment variable says before it is known which setting is meant.
The entries of a table are sorted by key, and no key occurs twice. -/

set_option autoImplicit false

namespace LiteralLint.Config

/-- `signed` and `unsigned` hold 64-bit integers, `wide` those that need more bits. -/
inductive Value where
  | unit
  | bool (value : Bool)
  | text (value : String)
  | character (value : Char)
  | signed (value : Int)
  | unsigned (value : Nat)
  | wide (value : Int)
  | real (value : Binary64)
  | list (items : List Value)
  | table (entries : List (String × Value))
deriving Repr, Inhabited

abbrev Table := List (String × Value)

def Table.put (key : String) (value : Value) : Table → Table
  | [] => [(key, value)]
  | (k, v) :: entries =>
    if key < k then (key, value) :: (k, v) :: entries
    else if key = k then (key, value) :: entries
    else (k, v) :: put key value entries

/-- The later of two entries with one key is kept. -/
def Table.ofList (entries : List (String × Value)) : Table :=
  entries.foldl (fun t (key, value) => t.put key value) []

mutual

/-- Tables are joined entry by entry; everything else is replaced as a whole. -/
def Value.merge (older : Value) : Value → Value
  | .table entries =>
    match older with
    | .table base => .table (Table.merge base entries)
    | _ => .table entries
  | newer => newer

def Table.merge (older : Table) : List (String × Value) → Table
  | [] => older
  | (key, value) :: newer =>
    let value :=
      match List.lookup key older with
      | some old => Value.merge old value
      | none => value
    Table.merge (Table.put key value older) newer

end

def Value.at? : Value → List String → Option Value
  | v, [] => some v
  | .table entries, key :: path =>
    match List.lookup key entries with
    | some v => v.at? path
    | none => none
  | .list items, index :: path =>
    match index.toNat? with
    | some i =>
      match items[i]? with
      | some v => v.at? path
      | none => none
    | none => none
  | _, _ :: _ => none

end LiteralLint.Config
