/-! # Splitting at a separator

There is one piece more than there are separators, so that joining the pieces gives the text back.
-/

set_option autoImplicit false

namespace LiteralLint.Text

def split (separator : Char) : List Char → List (List Char)
  | [] => [[]]
  | c :: cs =>
    if c = separator then [] :: split separator cs
    else
      match split separator cs with
      | piece :: pieces => (c :: piece) :: pieces
      | [] => [[c]]

theorem split_ne_nil (separator : Char) (cs : List Char) : split separator cs ≠ [] := by
  cases cs with
  | nil => simp [split]
  | cons c cs =>
    unfold split
    split
    · simp
    · split <;> simp

def join (separator : Char) : List (List Char) → List Char
  | [] => []
  | [piece] => piece
  | piece :: pieces => piece ++ separator :: join separator pieces

theorem join_cons {pieces : List (List Char)} (separator : Char) (piece : List Char)
    (h : pieces ≠ []) :
    join separator (piece :: pieces) = piece ++ separator :: join separator pieces := by
  cases pieces with
  | nil => exact absurd rfl h
  | cons => rfl

theorem join_append {pieces more : List (List Char)} (separator : Char) (h : pieces ≠ [])
    (hMore : more ≠ []) :
    join separator (pieces ++ more) =
      join separator pieces ++ separator :: join separator more := by
  induction pieces with
  | nil => exact absurd rfl h
  | cons piece pieces ih =>
    cases pieces with
    | nil => exact join_cons separator piece hMore
    | cons next pieces =>
      have hRest := List.cons_ne_nil next pieces
      rw [List.cons_append, join_cons separator piece (List.append_ne_nil_of_left_ne_nil hRest _),
        ih hRest, join_cons separator piece hRest, List.append_assoc, List.cons_append]

theorem join_prefix {pieces more : List (List Char)} (separator : Char) (h : pieces <+: more) :
    join separator pieces <+: join separator more := by
  obtain ⟨rest, rfl⟩ := h
  by_cases hPieces : pieces = []
  · rw [hPieces]
    exact List.nil_prefix
  · cases rest with
    | nil => simp
    | cons piece rest =>
      rw [join_append separator hPieces (List.cons_ne_nil piece rest)]
      exact List.prefix_append _ _

theorem join_cons_cons (separator c : Char) (piece : List Char) (pieces : List (List Char)) :
    join separator ((c :: piece) :: pieces) = c :: join separator (piece :: pieces) := by
  cases pieces <;> rfl

theorem join_split (separator : Char) (cs : List Char) :
    join separator (split separator cs) = cs := by
  induction cs with
  | nil => rfl
  | cons c cs ih =>
    unfold split
    split
    · rename_i h
      rw [join_cons separator [] (split_ne_nil separator cs), ih, h]
      rfl
    · cases hs : split separator cs with
      | nil => exact absurd hs (split_ne_nil separator cs)
      | cons piece pieces =>
        rw [hs] at ih
        simp only [join_cons_cons, ih]

/-- A separator cuts a text in two parts that are split on their own. -/
theorem split_append_cons (separator : Char) (cs ds : List Char) :
    split separator (cs ++ separator :: ds) = split separator cs ++ split separator ds := by
  induction cs with
  | nil => simp [split]
  | cons c cs ih =>
    obtain ⟨first, pieces, hSplit⟩ := List.exists_cons_of_ne_nil (split_ne_nil separator cs)
    rw [hSplit] at ih
    simp only [List.cons_append, split, ih, hSplit]
    split <;> rfl

theorem split_of_not_mem {separator : Char} {piece : List Char} (h : separator ∉ piece) :
    split separator piece = [piece] := by
  induction piece with
  | nil => rfl
  | cons c piece ih =>
    have hHead : c ≠ separator := fun hEq => h (hEq ▸ List.mem_cons_self)
    have hTail := ih fun hMem => h (List.mem_cons_of_mem c hMem)
    rw [split, if_neg hHead, hTail]

theorem split_append {separator : Char} {piece : List Char} (cs : List Char)
    (h : separator ∉ piece) :
    split separator (piece ++ separator :: cs) = piece :: split separator cs := by
  rw [split_append_cons, split_of_not_mem h, List.singleton_append]

theorem exists_split_append {separator : Char} {front : List Char} (h : separator ∉ front)
    (cs : List Char) :
    ∃ first rest, split separator cs = first :: rest ∧
      split separator (front ++ cs) = (front ++ first) :: rest := by
  induction front with
  | nil =>
    obtain ⟨first, rest, hSplit⟩ := List.exists_cons_of_ne_nil (split_ne_nil separator cs)
    exact ⟨first, rest, hSplit, hSplit⟩
  | cons c front ih =>
    have hHead : c ≠ separator := fun hEq => h (hEq ▸ List.mem_cons_self)
    obtain ⟨first, rest, hSplit, hFront⟩ := ih fun hMem => h (List.mem_cons_of_mem c hMem)
    refine ⟨first, rest, hSplit, ?_⟩
    rw [List.cons_append, split, if_neg hHead, hFront]
    rfl

theorem length_split (separator : Char) (cs : List Char) :
    (split separator cs).length = cs.count separator + 1 := by
  induction cs with
  | nil => rfl
  | cons c cs ih =>
    obtain ⟨first, pieces, hSplit⟩ := List.exists_cons_of_ne_nil (split_ne_nil separator cs)
    by_cases hHead : c = separator
    · rw [split, if_pos hHead, List.length_cons, ih, hHead, List.count_cons_self]
    · rw [hSplit] at ih
      rw [split, if_neg hHead, hSplit, List.count_cons_of_ne hHead, ← ih]
      rfl

theorem not_mem_of_mem_split {separator : Char} {piece cs : List Char}
    (h : piece ∈ split separator cs) : separator ∉ piece := by
  induction cs generalizing piece with
  | nil =>
    rw [List.mem_singleton.mp h]
    exact List.not_mem_nil
  | cons c cs ih =>
    unfold split at h
    split at h
    · rcases List.mem_cons.mp h with rfl | hMem
      · exact List.not_mem_nil
      · exact ih hMem
    · rename_i hHead
      cases hs : split separator cs with
      | nil => exact absurd hs (split_ne_nil separator cs)
      | cons first pieces =>
        rw [hs] at h ih
        rcases List.mem_cons.mp h with rfl | hMem
        · intro hMem
          rcases List.mem_cons.mp hMem with hEq | hMem
          · exact hHead hEq.symm
          · exact ih List.mem_cons_self hMem
        · exact ih (List.mem_cons_of_mem first hMem)

theorem split_join {separator : Char} {pieces : List (List Char)} (hPieces : pieces ≠ [])
    (h : ∀ piece ∈ pieces, separator ∉ piece) :
    split separator (join separator pieces) = pieces := by
  induction pieces with
  | nil => exact absurd rfl hPieces
  | cons piece pieces ih =>
    obtain ⟨hHead, hTail⟩ := List.forall_mem_cons.mp h
    cases pieces with
    | nil => exact split_of_not_mem hHead
    | cons next pieces =>
      rw [join_cons separator piece (List.cons_ne_nil next pieces), split_append _ hHead,
        ih (List.cons_ne_nil next pieces) hTail]

end LiteralLint.Text
