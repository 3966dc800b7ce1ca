import LiteralLint.Proofs.Path.Parent

/-! # Paths that end with a name

A path that names a file consists of the name and of what stands in front of it. The parent of the
path leads to the same directory as what stands in front, although it is written otherwise; where
nothing stands in front, the parent is the empty path. -/

set_option autoImplicit false

namespace LiteralLint.Path

def steps (path : String) : List (List Char) :=
  (Text.split '/' path.toList).filter (!isVoid ·)

def Component.step? : Component → Option (List Char)
  | root | here => none
  | up => some ['.', '.']
  | name s => some s.toList

theorem Component.step?_ofPiece (piece : List Char) : (ofPiece piece).step? = some piece := by
  rw [ofPiece]
  split
  · rename_i hUp
    rw [hUp]
    rfl
  · rw [step?, String.toList_ofList]

theorem exists_cut (path : String) : ∃ start body, pieces path = (start, body) ∧ Cut start body :=
  ⟨_, _, rfl, cut_pieces path⟩

theorem filter_pieces {path : String} {start : List Char} {body : List (List Char)}
    (h : pieces path = (start, body)) : body.filter (!isVoid ·) = steps path := by
  unfold pieces at h
  unfold steps
  split at h <;> cases h
  · rename_i rest hRest
    rw [hRest, Text.split, if_pos rfl]
    rfl
  · rename_i rest hRest
    have hSplit : Text.split '/' ('.' :: '/' :: rest) = ['.'] :: Text.split '/' rest :=
      Text.split_append rest (by decide : '/' ∉ ['.'])
    rw [hRest, hSplit]
    rfl
  · rename_i hDot
    rw [hDot]
    rfl
  · rfl

theorem steps_eq_filterMap (path : String) :
    steps path = (components path).filterMap Component.step? := by
  obtain ⟨start, body, hPieces, hCut⟩ := exists_cut path
  have hStart : (components (String.ofList start)).filterMap Component.step? = [] := by
    cases hCut <;> rfl
  have hSome : Component.step? ∘ Component.ofPiece = some := funext Component.step?_ofPiece
  rw [components_of_pieces hPieces, List.filterMap_append, hStart, List.nil_append,
    filter_pieces hPieces, List.filterMap_map, hSome, List.filterMap_some]

theorem Cut.no_slash {start piece : List Char} {body : List (List Char)} (h : Cut start body)
    (hPiece : piece ∈ body) : '/' ∉ piece := by
  cases h with
  | absolute _ no_slash => exact no_slash piece hPiece
  | dot => cases hPiece
  | dotted _ no_slash =>
    rcases List.mem_cons.mp hPiece with rfl | hPiece
    · exact List.not_mem_nil
    · exact no_slash piece hPiece
  | empty =>
    obtain rfl := List.mem_singleton.mp hPiece
    exact List.not_mem_nil
  | relative _ _ no_slash => exact no_slash piece hPiece

theorem Cut.front {start last : List Char} {front : List (List Char)}
    (h : Cut start (front ++ [last])) :
    ∃ before, start ++ Text.join '/' (front ++ [last]) = before ++ last ∧
      (before = [] ∨ before.getLast? = some '/') ∧
      before = start ++ (if front = [] then [] else Text.join '/' front ++ ['/']) := by
  by_cases hFront : front = []
  · subst hFront
    refine ⟨start, rfl, ?_, by simp⟩
    generalize hBody : [] ++ [last] = body at h
    cases h with
    | absolute => exact .inr rfl
    | dot => cases hBody
    | dotted not_empty =>
      exact absurd (List.cons.inj hBody).2.symm not_empty
    | empty => exact .inl rfl
    | relative => exact .inl rfl
  · refine ⟨start ++ (Text.join '/' front ++ ['/']), ?_, .inr ?_, by rw [if_neg hFront]⟩
    · rw [Text.join_append '/' hFront (List.cons_ne_nil last [])]
      simp [Text.join]
    · simp

/-- A path is a name behind a text that leads to its directory. -/
structure Names (path directory name : String) : Prop where
  written : path = directory ++ name
  ends : directory = "" ∨ directory.toList.getLast? = some '/'
  no_slash : '/' ∉ name.toList
  counts : isVoid name.toList = false
  not_up : name ≠ ".."

theorem eq_nil_of_ends {separator : Char} {front back : List Char} (h : separator ∉ back)
    (hEnds : front ++ back = [] ∨ (front ++ back).getLast? = some separator) : back = [] := by
  rcases hEnds with hNil | hLast
  · exact (List.append_eq_nil_iff.mp hNil).2
  · by_contra hSome
    rw [List.getLast?_append_of_ne_nil front hSome] at hLast
    exact h (List.mem_of_getLast? hLast)

theorem append_unique {separator : Char} {front back front' back' : List Char}
    (h : front ++ back = front' ++ back') (hBack : separator ∉ back) (hBack' : separator ∉ back')
    (hFront : front = [] ∨ front.getLast? = some separator)
    (hFront' : front' = [] ∨ front'.getLast? = some separator) : front = front' ∧ back = back' := by
  rcases List.append_eq_append_iff.mp h with ⟨part, rfl, rfl⟩ | ⟨part, rfl, rfl⟩
  · have hPart : part = [] :=
      eq_nil_of_ends (fun hMem => hBack (List.mem_append_left _ hMem)) hFront'
    rw [hPart]
    exact ⟨(List.append_nil front).symm, rfl⟩
  · have hPart : part = [] :=
      eq_nil_of_ends (fun hMem => hBack' (List.mem_append_left _ hMem)) hFront
    rw [hPart]
    exact ⟨List.append_nil front', rfl⟩

namespace Names

variable {path directory name parent : String} (h : Names path directory name)
include h

theorem name_ne_nil : name.toList ≠ [] := by
  intro hNil
  have hCounts := h.counts
  rw [hNil] at hCounts
  cases hCounts

theorem toList_eq : path.toList = directory.toList ++ name.toList := by
  rw [h.written, String.toList_append]

theorem not_isAbsolute : isAbsolute name = false := by
  rw [isAbsolute, beq_eq_false_iff_ne]
  exact fun hHead => h.no_slash (List.mem_of_head? hHead)

theorem isAbsolute_eq : isAbsolute path = isAbsolute directory := by
  rw [isAbsolute, isAbsolute, h.toList_eq]
  cases directory.toList with
  | nil => exact h.not_isAbsolute
  | cons c cs => rfl

theorem slash_mem_iff : '/' ∈ path.toList ↔ directory ≠ "" := by
  rw [h.toList_eq, List.mem_append, or_iff_left h.no_slash]
  rcases h.ends with rfl | hSlash
  · exact iff_of_false List.not_mem_nil (fun hSome => hSome rfl)
  · refine iff_of_true (List.mem_of_getLast? hSlash) ?_
    rintro rfl
    cases hSlash

theorem split_eq : ∃ front, Text.split '/' path.toList = front ++ [name.toList] ∧
    front.filter (!isVoid ·) = steps directory := by
  rw [h.toList_eq, steps]
  rcases h.ends with rfl | hSlash
  · exact ⟨[], Text.split_of_not_mem h.no_slash, rfl⟩
  · obtain ⟨front, hFront⟩ := List.getLast?_eq_some_iff.mp hSlash
    refine ⟨Text.split '/' front, ?_, ?_⟩
    · rw [hFront, List.append_assoc, List.singleton_append, Text.split_append_cons,
        Text.split_of_not_mem h.no_slash]
    · rw [hFront, Text.split_append_cons, List.filter_append]
      exact (List.append_nil _).symm

theorem steps_eq : steps path = steps directory ++ [name.toList] := by
  obtain ⟨front, hSplit, hFront⟩ := h.split_eq
  rw [steps, hSplit, List.filter_append, hFront]
  simp [h.counts]

theorem pieces_eq : ∃ start front, pieces path = (start, front ++ [name.toList]) ∧
    Cut start (front ++ [name.toList]) ∧
    directory.toList = start ++ (if front = [] then [] else Text.join '/' front ++ ['/']) := by
  obtain ⟨start, body, hPieces, hCut⟩ := exists_cut path
  have hWhole := (toList_eq_of_pieces hPieces).symm.trans h.toList_eq
  have hSteps := (filter_pieces hPieces).trans h.steps_eq
  rcases List.eq_nil_or_concat' body with rfl | ⟨front, last, rfl⟩
  · cases List.append_ne_nil_of_right_ne_nil _ (List.cons_ne_nil _ _) hSteps.symm
  · obtain ⟨before, hLast, hEnds, hBefore⟩ := hCut.front
    rw [hLast] at hWhole
    obtain ⟨rfl, rfl⟩ := append_unique hWhole (hCut.no_slash (by simp)) h.no_slash hEnds
      (h.ends.imp_left fun hNone => by rw [hNone]; rfl)
    exact ⟨start, front, hPieces, hCut, hBefore⟩

theorem getLast?_components : (components path).getLast? = some (.name name) := by
  have hName : Component.ofPiece name.toList = .name name := by
    rw [Component.ofPiece, String.ofList_toList, if_neg]
    exact fun hUp => h.not_up (String.toList_injective hUp)
  obtain ⟨start, front, hPieces, -, -⟩ := h.pieces_eq
  rw [components_of_pieces hPieces, filter_pieces hPieces, h.steps_eq, List.map_append,
    ← List.append_assoc, List.map_singleton, List.getLast?_concat, hName]

theorem fileName?_eq : fileName? path = some name := by
  rw [fileName?, h.getLast?_components]

/-- The parent lacks what does not count at the end of the directory, and a slash at least, unless
the directory is the root. -/
theorem exists_parent : ∃ parent, parent? path = some parent ∧
    (parent = directory ∨ ∃ rest, directory = parent ++ (rest ++ "/")) := by
  obtain ⟨start, front, hPieces, -, hDirectory⟩ := h.pieces_eq
  have hStrip : stripVoid (front ++ [name.toList]) = front ++ [name.toList] :=
    List.rdropWhile_concat_neg _ _ _ (Bool.eq_false_iff.mp h.counts)
  refine ⟨String.ofList (start ++ Text.join '/' (stripVoid front)), ?_, ?_⟩
  · simp only [parent?, hPieces, hStrip]
    split
    · rename_i hNil
      cases List.append_ne_nil_of_right_ne_nil _ (List.cons_ne_nil _ _) hNil
    · rw [List.dropLast_concat]
  · by_cases hFront : front = []
    · refine .inl (String.toList_injective ?_)
      rw [hDirectory, hFront, if_pos rfl, String.toList_ofList]
      rfl
    · obtain ⟨rest, hRest⟩ := Text.join_prefix '/' (stripVoid_prefix_self front)
      refine .inr ⟨String.ofList rest, String.toList_injective ?_⟩
      rw [hDirectory, if_neg hFront, ← hRest]
      simp

section

variable (hParent : parent? path = some parent)
include hParent

theorem parent_eq_or : parent = directory ∨ ∃ rest, directory = parent ++ (rest ++ "/") := by
  obtain ⟨other, hOther, hDirectory⟩ := h.exists_parent
  exact Option.some.inj (hParent.symm.trans hOther) ▸ hDirectory

theorem exists_append_eq : ∃ rest, directory = parent ++ rest := by
  rcases h.parent_eq_or hParent with rfl | ⟨rest, hRest⟩
  · exact ⟨"", String.append_empty.symm⟩
  · exact ⟨_, hRest⟩

theorem components_eq : components path = components parent ++ [.name name] := by
  rw [(components_parent hParent).2, List.dropLast_append_getLast? _ h.getLast?_components]

theorem steps_parent : steps parent = steps directory := by
  have hSteps := h.steps_eq
  rw [steps_eq_filterMap path, h.components_eq hParent, List.filterMap_append,
    ← steps_eq_filterMap parent] at hSteps
  exact List.append_cancel_right hSteps

theorem eq_empty_of_parent (hEmpty : parent = "") : directory = "" := by
  obtain ⟨start, front, hPieces, hCut, hDirectory⟩ := h.pieces_eq
  have hComponents := h.components_eq hParent
  rw [components_of_pieces hPieces, hEmpty] at hComponents
  generalize hBody : front ++ [name.toList] = body at hCut hComponents
  cases hCut with
  | absolute => cases (List.cons.inj hComponents).1
  | dot => cases (List.cons.inj hComponents).1
  | dotted => cases (List.cons.inj hComponents).1
  | empty => cases hComponents
  | @relative first body not_empty not_dot =>
    have hFirst : isVoid first = false := by simp [isVoid, not_empty, not_dot]
    rw [List.filter_cons_of_pos (by simp [hFirst])] at hComponents
    have hRest := (List.cons.inj hComponents).2
    cases front with
    | nil => exact String.toList_eq_nil_iff.mp hDirectory
    | cons piece front =>
      rw [← (List.cons.inj hBody).2] at hRest
      simp [h.counts] at hRest

theorem isAbsolute_parent : isAbsolute parent = isAbsolute directory := by
  by_cases hEmpty : parent = ""
  · rw [hEmpty, h.eq_empty_of_parent hParent hEmpty]
  · obtain ⟨c, cs, hChars⟩ := List.exists_cons_of_ne_nil
      fun hNil => hEmpty (String.toList_eq_nil_iff.mp hNil)
    obtain ⟨rest, hRest⟩ := h.exists_append_eq hParent
    rw [isAbsolute, isAbsolute, hRest, String.toList_append, hChars]
    rfl

theorem size_join_le : (join parent name).utf8ByteSize ≤ path.utf8ByteSize := by
  have hSlash : "/".utf8ByteSize = 1 := rfl
  have hRoom : parent = directory ∨ parent.utf8ByteSize + 1 ≤ directory.utf8ByteSize := by
    refine (h.parent_eq_or hParent).imp_right fun ⟨rest, hRest⟩ => ?_
    rw [hRest, String.utf8ByteSize_append, String.utf8ByteSize_append, hSlash]
    omega
  rw [join, h.not_isAbsolute, h.written, String.utf8ByteSize_append]
  split
  · exact Nat.le_add_left _ _
  · rename_i hSome
    split
    · rw [String.utf8ByteSize_append]
      rcases hRoom with rfl | hRoom <;> omega
    · rename_i hLast
      rw [String.utf8ByteSize_append, String.utf8ByteSize_append, hSlash]
      rcases hRoom with rfl | hRoom
      · rcases h.ends with rfl | hEnds
        · exact absurd (.inr rfl) hSome
        · exact absurd hEnds hLast
      · omega

end

end Names

end LiteralLint.Path
