import LiteralLint.Proofs.FileTree.Following
import LiteralLint.Proofs.Path.Parent
import LiteralLint.Proofs.Style.Unstyled
import LiteralLint.Proofs.Traversal

/-! # Paths made of unstyled paths

Joining, cutting and showing paths brings no character into them but slashes and dots. -/

set_option autoImplicit false

namespace LiteralLint

section

variable {separator c : Char} {parts : List (List Char)} {part cs : List Char}

theorem Text.mem_join (h : c ∈ join separator parts) :
    c = separator ∨ ∃ part ∈ parts, c ∈ part := by
  induction parts with
  | nil => cases h
  | cons part parts ih =>
    cases parts with
    | nil => exact .inr ⟨part, List.mem_cons_self, h⟩
    | cons next parts =>
      rw [join_cons separator part (List.cons_ne_nil next parts), List.mem_append,
        List.mem_cons] at h
      rcases h with h | h | h
      · exact .inr ⟨part, List.mem_cons_self, h⟩
      · exact .inl h
      · obtain h | ⟨found, hFound, hc⟩ := ih h
        · exact .inl h
        · exact .inr ⟨found, List.mem_cons_of_mem part hFound, hc⟩

theorem Text.mem_join_of_mem (hPart : part ∈ parts) (h : c ∈ part) : c ∈ join separator parts := by
  induction parts with
  | nil => cases hPart
  | cons first parts ih =>
    cases parts with
    | nil => exact List.mem_singleton.mp hPart ▸ h
    | cons next parts =>
      rw [join_cons separator first (List.cons_ne_nil next parts), List.mem_append, List.mem_cons]
      rcases List.mem_cons.mp hPart with rfl | hPart
      · exact .inl h
      · exact .inr (.inr (ih hPart))

theorem Text.mem_of_mem_split (hPart : part ∈ split separator cs) (h : c ∈ part) : c ∈ cs :=
  join_split separator cs ▸ mem_join_of_mem hPart h

end

namespace Path

variable {base path parent : String}

theorem escape_not_mem_pieces (h : Unstyled path) :
    '\x1b' ∉ (pieces path).1 ∧ ∀ piece ∈ (pieces path).2, '\x1b' ∉ piece := by
  have hChars : path.toList = (pieces path).1 ++ Text.join '/' (pieces path).2 :=
    toList_eq_of_pieces rfl
  rw [Unstyled, hChars, List.mem_append, not_or] at h
  exact ⟨h.1, fun piece hPiece hMem => h.2 (Text.mem_join_of_mem hPiece hMem)⟩

theorem unstyled_text_of_mem_components (h : Unstyled path) {component : Component}
    (hMem : component ∈ components path) : Unstyled component.text := by
  obtain ⟨-, hBody⟩ := escape_not_mem_pieces h
  rw [components] at hMem
  rcases List.mem_append.mp hMem with hMem | hMem
  · cases component with
    | name s => split at hMem <;> simp at hMem
    | root | here | up => decide
  · obtain ⟨piece, hPiece, rfl⟩ := List.mem_map.mp hMem
    rw [Component.ofPiece]
    split
    · decide
    · exact unstyled_ofList.mpr (hBody piece (List.mem_of_mem_filter hPiece))

theorem unstyled_ofComponents {cs : List Component} (h : ∀ c ∈ cs, Unstyled c.text) :
    Unstyled (ofComponents cs) := by
  have hBody (cs : List Component) (h : ∀ c ∈ cs, Unstyled c.text) :
      Unstyled ("/".intercalate (cs.map (·.text))) :=
    unstyled_intercalate (by decide) (List.forall_mem_map.mpr h)
  unfold ofComponents
  split
  · exact unstyled_append.mpr ⟨by decide, hBody _ (List.forall_mem_cons.mp h).2⟩
  · exact hBody cs h

theorem mem_relativeTo {start there : List Component} {component : Component}
    (h : component ∈ relativeTo start there) : component = .up ∨ component ∈ there := by
  fun_induction relativeTo start there with
  | case1 _ _ _ ih => exact (ih h).imp_right (List.mem_cons_of_mem _)
  | case2 => exact (List.mem_append.mp h).imp_left List.eq_of_mem_replicate
  | case3 => exact (List.mem_append.mp h).imp_left List.eq_of_mem_replicate

theorem unstyled_shown (h : Unstyled path) : Unstyled (shown base path) := by
  rw [shown]
  split
  · refine unstyled_ofComponents fun component hMem => ?_
    obtain rfl | hMem := mem_relativeTo hMem
    · decide
    · exact unstyled_text_of_mem_components h hMem
  · exact h

theorem unstyled_join (hBase : Unstyled base) (h : Unstyled path) : Unstyled (join base path) := by
  have hSlash : Unstyled "/" := by decide
  rw [join]
  split
  · exact h
  · split <;> simp [hBase, h, hSlash]

theorem unstyled_parent (h : Unstyled path) (hParent : parent? path = some parent) :
    Unstyled parent := by
  obtain ⟨hStart, hBody⟩ := escape_not_mem_pieces h
  rw [parent?] at hParent
  dsimp only at hParent
  split at hParent
  · split at hParent
    · cases hParent
      decide
    · cases hParent
  · cases hParent
    rw [unstyled_ofList, List.mem_append, not_or]
    refine ⟨hStart, fun hMem => ?_⟩
    obtain hSlash | ⟨piece, hPiece, hMem⟩ := Text.mem_join hMem
    · cases hSlash
    · refine hBody piece ?_ hMem
      have hDropped := (stripVoid_prefix_self _).subset hPiece
      exact (stripVoid_prefix_self _).subset (List.dropLast_subset _ hDropped)

end Path

namespace FileTree

variable {tree : FileTree} {base here there : Location} {path : String}
  {pieces : List (List Char)}

theorem unstyled_pathOf (h : ∀ name ∈ base, Unstyled name) : Unstyled (pathOf base) :=
  unstyled_append.mpr ⟨by decide, unstyled_intercalate (by decide) h⟩

theorem unstyled_follow (hHere : ∀ name ∈ here, Unstyled name)
    (hPieces : ∀ piece ∈ pieces, '\x1b' ∉ piece) (h : tree.follow here pieces = .ok there) :
    ∀ name ∈ there, Unstyled name := by
  induction pieces generalizing here with
  | nil =>
    cases h
    exact hHere
  | cons piece pieces ih =>
    obtain ⟨hPiece, hRest⟩ := List.forall_mem_cons.mp hPieces
    cases hNode : tree.node? here with
    | none => cases (follow_absent hNode piece pieces).symm.trans h
    | some node =>
      cases node with
      | file content => cases (follow_file hNode piece pieces).symm.trans h
      | directory =>
        cases pieceKind piece with
        | void hVoid =>
          rw [follow_void hNode hVoid] at h
          exact ih hHere hRest h
        | up hUp =>
          subst hUp
          rw [follow_up hNode] at h
          exact ih (fun name hName => hHere name (List.dropLast_subset _ hName)) hRest h
        | long hLong => cases (follow_long hNode hLong).symm.trans h
        | name hName =>
          cases hThere : tree.node? (here ++ [String.ofList piece]) with
          | none => cases (follow_missing hNode hName hThere).symm.trans h
          | some next =>
            rw [follow_name hNode hName hThere] at h
            refine ih ?_ hRest h
            simpa [or_imp, forall_and] using ⟨hHere, hPiece⟩

theorem unstyled_enter (hBase : ∀ name ∈ base, Unstyled name) (hPath : Unstyled path)
    (h : tree.enter base path = .ok there) : ∀ name ∈ there, Unstyled name := by
  obtain ⟨location, hLocate, hNode⟩ := bind_eq_ok h
  split at hNode
  · cases hNode
    rcases fits_or_locate_eq_error path with ⟨hFits, hSome⟩ | ⟨fault, hFault⟩
    · rw [locate_of_fits hFits hSome] at hLocate
      refine unstyled_follow ?_ ?_ hLocate
      · split
        · exact List.forall_mem_nil _
        · exact hBase
      · exact fun piece hPiece hMem => hPath (Text.mem_of_mem_split hPiece hMem)
    · cases (hFault tree base).symm.trans hLocate
  · cases hNode
  · cases hNode

end FileTree

end LiteralLint
