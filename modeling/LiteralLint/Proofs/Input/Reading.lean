import LiteralLint.Input

/-! # Reading a file

What reading a file comes to, by what stands at its path and the limit on its size. Only the file
itself is looked at. -/

set_option autoImplicit false

namespace LiteralLint

def Node.size : Node → Nat
  | .file content => content.size
  | .directory => FileTree.directorySize

theorem fromUTF8?_eq_some_iff {content : ByteArray} {text : String} :
    String.fromUTF8? content = some text ↔ text.toUTF8 = content := by
  unfold String.fromUTF8?
  split
  · constructor
    · rintro ⟨⟩
      rfl
    · rintro rfl
      rfl
  · rename_i hInvalid
    constructor
    · intro h
      cases h
    · intro h
      exact absurd (h ▸ text.isValidUTF8) hInvalid

namespace FileTree

variable {tree : FileTree} {base : Location} {path : String} {cause : AccessFault} {node : Node}
  {content : ByteArray}

theorem size_of_find_error (h : tree.find base path = .error cause) :
    tree.size base path = .error cause := by
  rw [size, h]
  rfl

theorem size_of_find_ok (h : tree.find base path = .ok node) :
    tree.size base path = .ok node.size := by
  rw [size, h]
  cases node <;> rfl

theorem readText_of_find_directory (h : tree.find base path = .ok .directory) :
    tree.readText base path = .error .isADirectory := by
  rw [readText, h]
  rfl

theorem readText_of_find_file (h : tree.find base path = .ok (.file content)) :
    tree.readText base path = (String.fromUTF8? content).elim (.error .invalidText) .ok := by
  rw [readText, h]
  simp only [bind, Except.bind]
  cases String.fromUTF8? content <;> rfl

end FileTree

def Admits (limit : Option Nat) (size : Nat) : Prop := ∀ bound, limit = some bound → size ≤ bound

theorem checkInputSize_of_admits {limit : Option Nat} {size : Nat} (h : Admits limit size) :
    checkInputSize size limit = .ok () := by
  cases limit with
  | none => rfl
  | some bound => exact if_neg (Nat.not_lt.mpr (h bound rfl))

theorem checkInputSize_of_lt {bound size : Nat} (h : bound < size) :
    checkInputSize size (some bound) = .error ⟨size, bound⟩ := if_pos h

theorem admits_or_lt (limit : Option Nat) (size : Nat) :
    Admits limit size ∨ ∃ bound, limit = some bound ∧ bound < size := by
  cases limit with
  | none => exact Or.inl fun bound h => by cases h
  | some bound =>
    rcases Nat.lt_or_ge bound size with hLess | hGe
    · exact Or.inr ⟨bound, rfl, hLess⟩
    · refine Or.inl fun b hb => ?_
      cases hb
      exact hGe

namespace Surroundings

variable {s : Surroundings} {limit : Option Nat} {path : String}

theorem readInput_of_find_error {cause : AccessFault}
    (h : s.tree.find s.directory path = .error cause) :
    s.readInput path limit = .error ⟨path, .unreadable cause⟩ := by
  rw [readInput, FileTree.size_of_find_error h]

theorem readInput_of_lt {node : Node} {bound : Nat} (h : s.tree.find s.directory path = .ok node)
    (hSize : bound < node.size) :
    s.readInput path (some bound) = .error ⟨path, .tooLarge ⟨node.size, bound⟩⟩ := by
  simp only [readInput, FileTree.size_of_find_ok h, checkInputSize_of_lt hSize]

theorem readInput_of_admits {node : Node} (h : s.tree.find s.directory path = .ok node)
    (hSize : Admits limit node.size) :
    s.readInput path limit =
      (s.tree.readText s.directory path).mapError fun cause => ⟨path, .unreadable cause⟩ := by
  simp only [readInput, FileTree.size_of_find_ok h, checkInputSize_of_admits hSize, readText]
  cases s.tree.readText s.directory path <;> rfl

theorem readInput_of_text {text : String}
    (h : s.tree.find s.directory path = .ok (.file text.toUTF8))
    (hSize : Admits limit text.utf8ByteSize) : s.readInput path limit = .ok text := by
  rw [readInput_of_admits h hSize, FileTree.readText_of_find_file h, fromUTF8?_eq_some_iff.mpr rfl]
  rfl

end Surroundings

end LiteralLint
