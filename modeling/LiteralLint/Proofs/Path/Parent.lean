import LiteralLint.Path
import Mathlib.Data.List.DropRight

/-! # The components of a parent

Leaving out the last component of a path leaves out the last entry of its list of components,
however the path is written. -/

set_option autoImplicit false

namespace LiteralLint.Path

theorem filter_stripVoid (body : List (List Char)) :
    (stripVoid body).filter (!isVoid ·) = body.filter (!isVoid ·) := by
  have hVoid : (body.reverse.takeWhile isVoid).filter (!isVoid ·) = [] := by
    rw [List.filter_eq_nil_iff]
    intro piece hPiece
    simp [List.mem_takeWhile_imp hPiece]
  have hWhole := congrArg (List.filter (!isVoid ·))
    (@List.takeWhile_append_dropWhile _ isVoid body.reverse)
  rw [List.filter_append, hVoid, List.nil_append, List.filter_reverse] at hWhole
  rw [stripVoid, List.filter_reverse, hWhole, List.reverse_reverse]

theorem stripVoid_prefix_self (body : List (List Char)) : stripVoid body <+: body :=
  List.rdropWhile_prefix isVoid body

theorem isVoid_getLast_stripVoid {body : List (List Char)} (h : stripVoid body ≠ []) :
    isVoid ((stripVoid body).getLast h) = false :=
  Bool.eq_false_iff.mpr (List.rdropWhile_last_not isVoid body h)

/-- The two parts that a path can be cut into. -/
inductive Cut : List Char → List (List Char) → Prop where
  | absolute {body : List (List Char)} (not_empty : body ≠ [])
      (no_slash : ∀ piece ∈ body, '/' ∉ piece) : Cut ['/'] body
  | dot : Cut ['.'] []
  | dotted {body : List (List Char)} (not_empty : body ≠ [])
      (no_slash : ∀ piece ∈ body, '/' ∉ piece) : Cut ['.'] ([] :: body)
  | empty : Cut [] [[]]
  | relative {first : List Char} {body : List (List Char)} (not_empty : first ≠ [])
      (not_dot : first ≠ ['.']) (no_slash : ∀ piece ∈ first :: body, '/' ∉ piece) :
      Cut [] (first :: body)

theorem cut_pieces (path : String) : Cut (pieces path).1 (pieces path).2 := by
  have hSlash : ∀ cs : List Char, ∀ piece ∈ Text.split '/' cs, '/' ∉ piece :=
    fun _ _ hPiece => Text.not_mem_of_mem_split hPiece
  unfold pieces
  split
  · exact .absolute (Text.split_ne_nil _ _) (hSlash _)
  · exact .dotted (Text.split_ne_nil _ _) (hSlash _)
  · exact .dot
  · rename_i hRoot hDot hAlone
    cases hChars : path.toList with
    | nil => exact .empty
    | cons c cs =>
      have hNotSlash : c ≠ '/' := fun hEq => hRoot cs (hEq ▸ hChars)
      have hSplit := hSlash (c :: cs)
      cases hTail : Text.split '/' cs with
      | nil => exact absurd hTail (Text.split_ne_nil _ _)
      | cons first body =>
        rw [Text.split, if_neg hNotSlash, hTail] at hSplit ⊢
        refine .relative (List.cons_ne_nil c first) ?_ hSplit
        rintro hEq
        obtain ⟨rfl, rfl⟩ := List.cons.inj hEq
        have hJoin := Text.join_split '/' cs
        rw [hTail] at hJoin
        cases body with
        | nil =>
          subst hJoin
          exact hAlone hChars
        | cons next body =>
          rw [Text.join_cons _ _ (List.cons_ne_nil next body)] at hJoin
          exact hDot _ (hJoin ▸ hChars)

theorem pieces_eq_of_cut {start : List Char} {body : List (List Char)} (h : Cut start body) :
    pieces (String.ofList (start ++ Text.join '/' body)) = (start, body) := by
  cases h with
  | absolute not_empty no_slash =>
    simp only [pieces, String.toList_ofList, List.singleton_append,
      Text.split_join not_empty no_slash]
  | dot => rfl
  | dotted not_empty no_slash =>
    simp only [pieces, String.toList_ofList, List.singleton_append,
      Text.join_cons _ _ not_empty, List.nil_append, Text.split_join not_empty no_slash]
  | empty => rfl
  | @relative first body not_empty not_dot no_slash =>
    have hSplit := Text.split_join (List.cons_ne_nil first body) no_slash
    unfold pieces
    rw [String.toList_ofList, List.nil_append]
    split
    · rename_i rest hRest
      rw [hRest, Text.split, if_pos rfl] at hSplit
      exact absurd (List.cons.inj hSplit).1.symm not_empty
    · rename_i rest hRest
      rw [hRest] at hSplit
      have hFirst : first = ['.'] := by
        have hCut := @Text.split_append '/' ['.'] rest (by decide)
        exact (List.cons.inj (hSplit.symm.trans hCut)).1
      exact absurd hFirst not_dot
    · rename_i hRest
      rw [hRest] at hSplit
      exact absurd (List.cons.inj hSplit).1.symm not_dot
    · rw [hSplit]

theorem Cut.of_prefix {start : List Char} {body part : List (List Char)} (h : Cut start body)
    (hPart : part <+: body) (hNotEmpty : part ≠ [])
    (hLast : isVoid (part.getLast hNotEmpty) = false) : Cut start part := by
  cases h with
  | absolute not_empty no_slash =>
    exact .absolute hNotEmpty fun piece hPiece => no_slash piece (hPart.subset hPiece)
  | dot => exact absurd (List.prefix_nil.mp hPart) hNotEmpty
  | dotted not_empty no_slash =>
    cases part with
    | nil => exact absurd rfl hNotEmpty
    | cons first part =>
      obtain ⟨rfl, hRest⟩ := List.cons_prefix_cons.mp hPart
      cases part with
      | nil => cases hLast
      | cons second part =>
        exact .dotted (List.cons_ne_nil second part)
          fun piece hPiece => no_slash piece (hRest.subset hPiece)
  | empty =>
    rcases List.prefix_cons_iff.mp hPart with hEq | ⟨rest, rfl, hRest⟩
    · exact absurd hEq hNotEmpty
    · rw [List.prefix_nil.mp hRest]
      exact .empty
  | relative not_empty not_dot no_slash =>
    cases part with
    | nil => exact absurd rfl hNotEmpty
    | cons first part =>
      obtain ⟨rfl, -⟩ := List.cons_prefix_cons.mp hPart
      exact .relative not_empty not_dot fun piece hPiece => no_slash piece (hPart.subset hPiece)

theorem filter_isVoid_eq {body : List (List Char)} (h : stripVoid body ≠ []) :
    body.filter (!isVoid ·) = (stripVoid (stripVoid body).dropLast).filter (!isVoid ·) ++
      [(stripVoid body).getLast h] := by
  have hLast : [(stripVoid body).getLast h].filter (!isVoid ·) = [(stripVoid body).getLast h] := by
    simp [isVoid_getLast_stripVoid h]
  rw [filter_stripVoid, ← hLast, ← List.filter_append, List.dropLast_append_getLast h,
    filter_stripVoid]

theorem components_of_pieces {path : String} {start : List Char} {body : List (List Char)}
    (h : pieces path = (start, body)) :
    components path = components (String.ofList start) ++
      (body.filter (!isVoid ·)).map .ofPiece := by
  have hCut := cut_pieces path
  rw [h] at hCut
  simp only [components, h]
  cases hCut <;> rfl

theorem components_parent {path parent : String} (h : parent? path = some parent) :
    components path ≠ [] ∧ components parent = (components path).dropLast := by
  have hCut := cut_pieces path
  cases hPieces : pieces path with
  | mk start body =>
  rw [hPieces] at hCut
  have hPath := components_of_pieces hPieces
  simp only [parent?, hPieces] at h
  split at h
  · rename_i hBody
    rw [← filter_stripVoid, hBody] at hPath
    split at h
    · rename_i hStart
      cases h
      rw [hPath, hStart]
      exact ⟨by decide, by decide⟩
    · cases h
  · rename_i hNotEmpty
    cases h
    rw [filter_isVoid_eq hNotEmpty, List.map_append, ← List.append_assoc] at hPath
    refine ⟨by simp [hPath], ?_⟩
    rw [hPath, List.map_singleton, List.dropLast_concat]
    by_cases hPart : stripVoid (stripVoid body).dropLast = []
    · rw [hPart]
      simp [Text.join]
    · refine components_of_pieces (pieces_eq_of_cut (hCut.of_prefix ?_ hPart ?_))
      · exact (stripVoid_prefix_self _).trans
          ((List.dropLast_prefix _).trans (stripVoid_prefix_self _))
      · exact isVoid_getLast_stripVoid hPart

theorem toList_eq_of_pieces {path : String} {start : List Char} {body : List (List Char)}
    (h : pieces path = (start, body)) : path.toList = start ++ Text.join '/' body := by
  unfold pieces at h
  split at h <;> cases h
  · rename_i rest hRest
    rw [hRest, Text.join_split, List.singleton_append]
  · rename_i rest hRest
    rw [hRest, Text.join_cons _ _ (Text.split_ne_nil _ _), Text.join_split]
    rfl
  · assumption
  · rw [Text.join_split, List.nil_append]

theorem length_filter_isVoid_le (body : List (List Char)) :
    (body.filter (!isVoid ·)).length ≤ (Text.join '/' body).length := by
  induction body with
  | nil => exact Nat.le_refl 0
  | cons piece body ih =>
    have hPiece : ([piece].filter (!isVoid ·)).length ≤ piece.length := by
      cases piece with
      | nil => exact Nat.le_refl 0
      | cons c piece => exact (List.length_filter_le _ _).trans (Nat.le_add_left 1 _)
    rw [← List.singleton_append, List.filter_append, List.length_append]
    cases body with
    | nil => exact Nat.add_le_add hPiece ih
    | cons next body =>
      rw [List.singleton_append, Text.join_cons _ _ (List.cons_ne_nil next body),
        List.length_append, List.length_cons]
      omega

theorem length_components_le (path : String) : (components path).length ≤ path.length := by
  cases hPieces : pieces path with
  | mk start body =>
  have hCut := cut_pieces path
  rw [hPieces] at hCut
  have hStart : (components (String.ofList start)).length ≤ start.length := by
    cases hCut <;> decide
  have hBody := length_filter_isVoid_le body
  rw [components_of_pieces hPieces, ← String.length_toList, toList_eq_of_pieces hPieces,
    List.length_append, List.length_append, List.length_map]
  exact Nat.add_le_add hStart hBody

end LiteralLint.Path
