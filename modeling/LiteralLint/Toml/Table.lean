import LiteralLint.Config.Value

/-! # Tables of TOML

How assignments and headers build up a table. A table is explicit once it has a header, implied if
it is only on the way to one, and dotted if the keys of assignments lead through it. No table has
two headers, and a table is never both dotted and anything else. -/

set_option autoImplicit false

namespace LiteralLint.Toml

open Config (Value Table)

inductive Kind where
  | explicit
  | implied
  | dotted
deriving DecidableEq, Repr

/-- `tables` is a list of tables, the newest one first. -/
inductive Node where
  | value (v : Value)
  | table (kind : Kind) (entries : List (String × Node))
  | tables (items : List (List (String × Node)))
deriving Repr, Inhabited

structure Branch where
  kind : Kind
  entries : List (String × Node)
deriving Repr

inductive Statement where
  | assign (path : List String) (value : Value)
  | header (path : List String)
  | arrayHeader (path : List String)
deriving Repr

namespace Branch

def root : Branch := ⟨.explicit, []⟩

def set (b : Branch) (key : String) (node : Node) : Branch :=
  if (List.lookup key b.entries).isSome then
    { b with entries := b.entries.map fun (k, n) => if k = key then (k, node) else (k, n) }
  else { b with entries := b.entries ++ [(key, node)] }

/-- Changes the table at the end of a path; in a list of tables the way leads through the newest.
Tables that are missing on the way are made. -/
def change (dotted : Bool) (f : Branch → Option Branch) : List String → Branch → Option Branch
  | [], b => f b
  | key :: path, b =>
    let kind := if dotted then Kind.dotted else .implied
    match (List.lookup key b.entries).getD (.table kind []) with
    | .value _ => none
    | .tables [] => none
    | .tables (newest :: earlier) => do
      let changed ← change dotted f path ⟨.explicit, newest⟩
      return b.set key (.tables (changed.entries :: earlier))
    | .table kind entries => do
      guard (¬(dotted ∧ kind = .explicit))
      let changed ← change dotted f path ⟨kind, entries⟩
      return b.set key (.table changed.kind changed.entries)

def assign (path : List String) (value : Value) : Branch → Option Branch :=
  change true (fun b => do
    let key ← path.getLast?
    guard ((b.kind = .dotted) ↔ path.length > 1)
    guard (List.lookup key b.entries).isNone
    return b.set key (.value value)) path.dropLast

def openTable (path : List String) : Branch → Option Branch :=
  change false (fun b => do
    let key ← path.getLast?
    match List.lookup key b.entries with
    | none => return b.set key (.table .explicit [])
    | some (.table .implied entries) => return b.set key (.table .explicit entries)
    | some _ => none) path.dropLast

def openItem (path : List String) : Branch → Option Branch :=
  change false (fun b => do
    let key ← path.getLast?
    match List.lookup key b.entries with
    | none => return b.set key (.tables [[]])
    | some (.tables items) => return b.set key (.tables ([] :: items))
    | some _ => none) path.dropLast

def run (current : List String) (b : Branch) : List Statement → Option Branch
  | [] => some b
  | .assign path value :: rest => do run current (← change false (assign path value) current b) rest
  | .header path :: rest => do run path (← openTable path b) rest
  | .arrayHeader path :: rest => do run path (← openItem path b) rest

end Branch

mutual

def Node.toValue : Node → Value
  | .value v => v
  | .table _ entries => .table (Table.ofList (toValues entries))
  | .tables items => .list (toTables items).reverse

def toValues : List (String × Node) → List (String × Value)
  | [] => []
  | (key, node) :: rest => (key, node.toValue) :: toValues rest

def toTables : List (List (String × Node)) → List Value
  | [] => []
  | entries :: rest => .table (Table.ofList (toValues entries)) :: toTables rest

end

def tableOf? (statements : List Statement) : Option Table := do
  let b ← Branch.root.run [] statements
  return Table.ofList (toValues b.entries)

end LiteralLint.Toml
