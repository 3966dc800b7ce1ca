import LiteralLint.Position

/-! # Line index

The offsets at which the lines of a text begin, so that a character offset is turned into a
position without walking the text again. Only a line feed ends a line. -/

set_option autoImplicit false

namespace LiteralLint

/-- The first index from `lo` on at which `p` fails, if `p` holds of an initial part of the entries
between `lo` and `hi` and of no other. -/
def bisect (entries : Array Nat) (p : Nat → Bool) (lo hi : Nat) : Nat :=
  if _h : lo < hi then
    let mid := (lo + hi) / 2
    match entries[mid]? with
    | some entry => if p entry then bisect entries p (mid + 1) hi else bisect entries p lo mid
    | none => bisect entries p lo mid
  else lo
termination_by hi - lo

structure OffsetOutOfBounds where
  offset : Nat
  length : Nat
deriving DecidableEq, Repr

def OffsetOutOfBounds.message (e : OffsetOutOfBounds) : String :=
  s!"offset {e.offset} is out of bounds for text of {e.length} characters"

structure LineIndex where
  starts : Array Nat
  length : Nat
deriving DecidableEq, Repr

namespace LineIndex

def empty : LineIndex := ⟨#[0], 0⟩

def push (index : LineIndex) (c : Char) : LineIndex :=
  let length := index.length + 1
  ⟨if c = '\n' then index.starts.push length else index.starts, length⟩

def ofChars (cs : List Char) : LineIndex := cs.foldl push empty

def ofText (text : String) : LineIndex := ofChars text.toList

def isEmpty (index : LineIndex) : Bool := index.length == 0

/-- The line that holds an offset is the last one that begins at or before it. -/
def position (index : LineIndex) (offset : Nat) : Except OffsetOutOfBounds Position :=
  if offset > index.length then
    .error ⟨offset, index.length⟩
  else
    let line := bisect index.starts (· ≤ offset) 0 index.starts.size - 1
    .ok ⟨line, offset - index.starts.getD line 0⟩

/-- The range between two offsets; the first one is looked up first. -/
def range (index : LineIndex) (start stop : Nat) : Except OffsetOutOfBounds Range := do
  let first ← index.position start
  let last ← index.position stop
  return ⟨first, last⟩

end LineIndex

end LiteralLint
