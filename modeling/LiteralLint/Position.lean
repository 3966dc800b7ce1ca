/-! # Positions and ranges

A position is a pair of a line and a character within that line, both counted from zero and ordered
line first. -/

set_option autoImplicit false

namespace LiteralLint

structure Position where
  line : Nat
  character : Nat
deriving DecidableEq, Repr, Inhabited

namespace Position

def lt (a b : Position) : Prop :=
  a.line < b.line ∨ a.line = b.line ∧ a.character < b.character

instance : LT Position := ⟨lt⟩

instance : LE Position := ⟨fun a b => a < b ∨ a = b⟩

theorem lt_def {a b : Position} :
    a < b ↔ a.line < b.line ∨ a.line = b.line ∧ a.character < b.character :=
  Iff.rfl

instance (a b : Position) : Decidable (a < b) :=
  decidable_of_iff _ lt_def.symm

instance (a b : Position) : Decidable (a ≤ b) :=
  inferInstanceAs (Decidable (a < b ∨ a = b))

end Position

/-- The span from `start` up to and without `stop`. -/
structure Range where
  start : Position
  stop : Position
deriving DecidableEq, Repr, Inhabited

def Range.isSingleLine (r : Range) : Bool := r.start.line == r.stop.line

end LiteralLint
