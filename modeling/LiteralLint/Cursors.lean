import LiteralLint.Cursor

/-! # Several cursors over one text

Cursors are numbered in the order in which they are made. Number zero is there from the start and
stands at the beginning of the text. -/

set_option autoImplicit false

namespace LiteralLint

structure Cursors where
  text : String
  cursors : List Cursor
deriving DecidableEq, Repr

namespace Cursors

/-- What can be done with a cursor, which is named by its number. -/
inductive Operation where
  | next (number : Nat)
  | rest (number : Nat)
  | count (number : Nat)
  | clone (number : Nat)
  | rescan
deriving DecidableEq, Repr

inductive Answer where
  | literal (found : Option Literal)
  | literals (found : List Literal)
  | count (left : Nat)
  | made (number : Nat)
deriving DecidableEq, Repr

def start (text : String) : Cursors := ⟨text, [.ofText text]⟩

def put (cs : Cursors) (number : Nat) (c : Cursor) : Cursors :=
  { cs with cursors := cs.cursors.set number c }

def add (cs : Cursors) (c : Cursor) : Cursors := { cs with cursors := cs.cursors ++ [c] }

/-- One operation; `none` where no cursor has the number. -/
def perform (cs : Cursors) : Operation → Option (Answer × Cursors)
  | .next number =>
    cs.cursors[number]?.map fun c =>
      match c.next? with
      | some (l, next) => (.literal (some l), cs.put number next)
      | none => (.literal none, cs)
  | .rest number =>
    cs.cursors[number]?.map fun c => (.literals c.literals, cs.put number c.exhausted)
  | .count number => cs.cursors[number]?.map fun c => (.count c.count, cs)
  | .clone number => cs.cursors[number]?.map fun c => (.made cs.cursors.length, cs.add c)
  | .rescan => some (.made cs.cursors.length, cs.add (.ofText cs.text))

def run (cs : Cursors) : List Operation → Option (List Answer × Cursors)
  | [] => some ([], cs)
  | op :: ops => do
    let (answer, cs) ← cs.perform op
    let (answers, cs) ← cs.run ops
    return (answer :: answers, cs)

end Cursors

end LiteralLint
