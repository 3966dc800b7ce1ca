import LiteralLint.Literal

/-! # Cursors over the literals of a text

A cursor is a place in a text from which the search goes on. It counts its place in characters and
in UTF-8 bytes at once. Cursors are values: reading on from one leaves every other as it was. -/

set_option autoImplicit false

namespace LiteralLint

def byteLength (cs : List Char) : Nat := cs.foldl (fun n c => n + c.utf8Size) 0

structure Cursor where
  charOffset : Nat
  byteOffset : Nat
  rest : List Char
deriving DecidableEq, Repr

namespace Cursor

def ofChars (cs : List Char) : Cursor := ⟨0, 0, cs⟩

def ofText (text : String) : Cursor := ofChars text.toList

/-- The leftmost literal of `cs`, the first of which stands at the two offsets, with the cursor
behind it. -/
def search (charOffset byteOffset : Nat) : List Char → Option (Literal × Cursor)
  | [] => none
  | c :: cs =>
    match Occurrence.read? (c :: cs) with
    | some o =>
      let stop := charOffset + o.span.length
      some (⟨String.ofList o.value, charOffset, stop⟩,
        ⟨stop, byteOffset + byteLength o.span, o.rest⟩)
    | none => search (charOffset + 1) (byteOffset + c.utf8Size) cs

theorem search_rest_length_lt {cs : List Char} {i j : Nat} {l : Literal} {next : Cursor}
    (h : search i j cs = some (l, next)) : next.rest.length < cs.length := by
  induction cs generalizing i j with
  | nil => simp [search] at h
  | cons c cs ih =>
    unfold search at h
    split at h
    · rename_i o hRead
      simp only [Option.some.injEq, Prod.mk.injEq] at h
      rw [← h.2]
      exact Occurrence.rest_length_lt hRead
    · exact Nat.lt_succ_of_lt (ih h)

def next? (c : Cursor) : Option (Literal × Cursor) := search c.charOffset c.byteOffset c.rest

theorem next?_rest_length_lt {c next : Cursor} {l : Literal} (h : c.next? = some (l, next)) :
    next.rest.length < c.rest.length :=
  search_rest_length_lt h

def literals (c : Cursor) : List Literal :=
  match _h : c.next? with
  | none => []
  | some (l, next) => l :: next.literals
termination_by c.rest.length
decreasing_by exact next?_rest_length_lt _h

def exhausted (c : Cursor) : Cursor :=
  match _h : c.next? with
  | none => c
  | some (_, next) => next.exhausted
termination_by c.rest.length
decreasing_by exact next?_rest_length_lt _h

def count (c : Cursor) : Nat := c.literals.length

end Cursor

/-- The literals of a text from left to right; no two of them overlap. -/
def literals (text : String) : List Literal := (Cursor.ofText text).literals

end LiteralLint
