import LiteralLint.FileTree

/-! # One piece of a path

A piece of a path is void, leads up, or names an entry, if the name is not too long. What following
a path and making a way do is said for each kind of piece. -/

set_option autoImplicit false

namespace LiteralLint.FileTree

variable {tree : FileTree} {here : Location} {piece : List Char} {pieces : List (List Char)}
  {path : String} {node : Node}

structure IsName (piece : List Char) : Prop where
  counts : Path.isVoid piece = false
  not_up : piece ≠ ['.', '.']
  short : (String.ofList piece).utf8ByteSize ≤ greatestNameLength

structure IsLong (piece : List Char) : Prop where
  counts : Path.isVoid piece = false
  not_up : piece ≠ ['.', '.']
  long : greatestNameLength < (String.ofList piece).utf8ByteSize

inductive PieceKind (piece : List Char) : Prop where
  | void (is_void : Path.isVoid piece = true)
  | up (is_up : piece = ['.', '.'])
  | long (is_long : IsLong piece)
  | name (is_name : IsName piece)

theorem pieceKind (piece : List Char) : PieceKind piece := by
  cases hVoid : Path.isVoid piece with
  | true => exact .void hVoid
  | false =>
    by_cases hUp : piece = ['.', '.']
    · exact .up hUp
    · rcases Nat.lt_or_ge greatestNameLength (String.ofList piece).utf8ByteSize with hLong | hShort
      · exact .long ⟨hVoid, hUp, hLong⟩
      · exact .name ⟨hVoid, hUp, hShort⟩

theorem follow_absent (h : tree.node? here = none) (piece : List Char)
    (pieces : List (List Char)) : tree.follow here (piece :: pieces) = .error .notFound := by
  rw [follow, h]

theorem follow_file {content : ByteArray} (h : tree.node? here = some (.file content))
    (piece : List Char) (pieces : List (List Char)) :
    tree.follow here (piece :: pieces) = .error .notADirectory := by
  rw [follow, h]

theorem makeWay_of_not_directory (h : tree.node? here ≠ some .directory)
    (pieces : List (List Char)) : tree.makeWay here pieces = (tree, none) := by
  cases pieces <;> rw [makeWay] <;> split
  · exact absurd ‹_› h
  · rfl
  · exact absurd ‹_› h
  · rfl

section

variable (hHere : tree.node? here = some .directory)
include hHere

theorem follow_directory (piece : List Char) (pieces : List (List Char)) :
    tree.follow here (piece :: pieces) =
      if Path.isVoid piece then tree.follow here pieces
      else if piece = ['.', '.'] then tree.follow here.dropLast pieces
      else if (String.ofList piece).utf8ByteSize > greatestNameLength then .error .nameTooLong
      else if (tree.node? (here ++ [String.ofList piece])).isSome then
        tree.follow (here ++ [String.ofList piece]) pieces
      else .error .notFound := by
  rw [follow, hHere]

theorem makeWay_directory (piece : List Char) (pieces : List (List Char)) :
    tree.makeWay here (piece :: pieces) =
      if Path.isVoid piece then tree.makeWay here pieces
      else if piece = ['.', '.'] then tree.makeWay here.dropLast pieces
      else if (String.ofList piece).utf8ByteSize > greatestNameLength then (tree, none)
      else if (tree.node? (here ++ [String.ofList piece])).isSome then
        tree.makeWay (here ++ [String.ofList piece]) pieces
      else
        (tree.insert (here ++ [String.ofList piece]) .directory).makeWay
          (here ++ [String.ofList piece]) pieces := by
  rw [makeWay, hHere]

theorem follow_void (hVoid : Path.isVoid piece = true) :
    tree.follow here (piece :: pieces) = tree.follow here pieces := by
  rw [follow_directory hHere, if_pos hVoid]

theorem follow_up :
    tree.follow here (['.', '.'] :: pieces) = tree.follow here.dropLast pieces := by
  rw [follow_directory hHere, if_neg (by decide), if_pos rfl]

theorem follow_long (h : IsLong piece) :
    tree.follow here (piece :: pieces) = .error .nameTooLong := by
  rw [follow_directory hHere, if_neg (by simp [h.counts]), if_neg h.not_up, if_pos h.long]

theorem follow_name (h : IsName piece)
    (hThere : tree.node? (here ++ [String.ofList piece]) = some node) :
    tree.follow here (piece :: pieces) =
      tree.follow (here ++ [String.ofList piece]) pieces := by
  rw [follow_directory hHere, if_neg (by simp [h.counts]), if_neg h.not_up,
    if_neg (Nat.not_lt_of_le h.short), if_pos (by rw [hThere, Option.isSome_some])]

theorem follow_missing (h : IsName piece)
    (hThere : tree.node? (here ++ [String.ofList piece]) = none) :
    tree.follow here (piece :: pieces) = .error .notFound := by
  rw [follow_directory hHere, if_neg (by simp [h.counts]), if_neg h.not_up,
    if_neg (Nat.not_lt_of_le h.short), if_neg (by simp [hThere])]

theorem makeWay_void (hVoid : Path.isVoid piece = true) :
    tree.makeWay here (piece :: pieces) = tree.makeWay here pieces := by
  rw [makeWay_directory hHere, if_pos hVoid]

theorem makeWay_up :
    tree.makeWay here (['.', '.'] :: pieces) = tree.makeWay here.dropLast pieces := by
  rw [makeWay_directory hHere, if_neg (by decide), if_pos rfl]

theorem makeWay_long (h : IsLong piece) : tree.makeWay here (piece :: pieces) = (tree, none) := by
  rw [makeWay_directory hHere, if_neg (by simp [h.counts]), if_neg h.not_up, if_pos h.long]

theorem makeWay_name (h : IsName piece)
    (hThere : tree.node? (here ++ [String.ofList piece]) = some node) :
    tree.makeWay here (piece :: pieces) =
      tree.makeWay (here ++ [String.ofList piece]) pieces := by
  rw [makeWay_directory hHere, if_neg (by simp [h.counts]), if_neg h.not_up,
    if_neg (Nat.not_lt_of_le h.short), if_pos (by rw [hThere, Option.isSome_some])]

theorem makeWay_missing (h : IsName piece)
    (hThere : tree.node? (here ++ [String.ofList piece]) = none) :
    tree.makeWay here (piece :: pieces) =
      (tree.insert (here ++ [String.ofList piece]) .directory).makeWay
        (here ++ [String.ofList piece]) pieces := by
  rw [makeWay_directory hHere, if_neg (by simp [h.counts]), if_neg h.not_up,
    if_neg (Nat.not_lt_of_le h.short), if_neg (by simp [hThere])]

end

/-- What the system takes for a path, whatever it leads to. -/
structure Fits (path : String) : Prop where
  no_nul : '\x00' ∉ path.toList
  short : path.utf8ByteSize ≤ greatestPathLength

theorem locate_of_fits (h : Fits path) (hSome : path ≠ "") (tree : FileTree) (base : Location) :
    tree.locate base path =
      tree.follow (if Path.isAbsolute path then [] else base) (Text.split '/' path.toList) := by
  rw [locate, if_neg (by rwa [String.isEmpty_iff]), if_neg h.no_nul,
    if_neg (Nat.not_lt_of_le h.short)]

theorem fits_or_locate_eq_error (path : String) :
    Fits path ∧ path ≠ "" ∨
      ∃ fault, ∀ (tree : FileTree) (base : Location), tree.locate base path = .error fault := by
  by_cases hEmpty : path.isEmpty = true
  · exact Or.inr ⟨_, fun tree base => if_pos hEmpty⟩
  · by_cases hNul : '\x00' ∈ path.toList
    · exact Or.inr ⟨_, fun tree base => (if_neg hEmpty).trans (if_pos hNul)⟩
    · rcases Nat.lt_or_ge greatestPathLength path.utf8ByteSize with hLong | hShort
      · exact Or.inr ⟨_, fun tree base =>
          (if_neg hEmpty).trans ((if_neg hNul).trans (if_pos hLong))⟩
      · exact Or.inl ⟨⟨hNul, hShort⟩, by rwa [String.isEmpty_iff] at hEmpty⟩

end LiteralLint.FileTree
