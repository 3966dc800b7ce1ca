import LiteralLint.Output
import LiteralLint.Text.Split
import Mathlib.Data.List.Basic

/-! # Lines

A line feed ends a line, so that a text is made of its lines in one way only. A text that is printed
as a line takes one line more than it has line feeds. -/

set_option autoImplicit false

namespace LiteralLint

theorem mem_toList_intercalate_iff {c : Char} {separator : String} {texts : List String}
    (h : c ∉ separator.toList) :
    c ∈ (separator.intercalate texts).toList ↔ ∃ text ∈ texts, c ∈ text.toList := by
  induction texts with
  | nil => simp
  | cons text texts ih =>
    cases texts with
    | nil => simp
    | cons next texts =>
      rw [String.intercalate_cons_cons, String.toList_append, String.toList_append, List.mem_append,
        List.mem_append, or_iff_left h, ih]
      simp only [List.mem_cons, exists_eq_or_imp]

namespace Output

variable {text front : String} {ls ms texts : List String}

/-- A text consists of these lines, each with a line feed behind it. -/
structure HasLines (text : String) (ls : List String) : Prop where
  text_eq : text = lines ls
  no_feed : ∀ l ∈ ls, '\n' ∉ l.toList

theorem lines_append (ls ms : List String) : lines (ls ++ ms) = lines ls ++ lines ms := by
  rw [lines, List.map_append, String.join_append]
  rfl

theorem split_lines (h : ∀ l ∈ ls, '\n' ∉ l.toList) :
    Text.split '\n' (lines ls).toList = ls.map String.toList ++ [[]] := by
  induction ls with
  | nil => rfl
  | cons l ls ih =>
    obtain ⟨hLine, hLines⟩ := List.forall_mem_cons.mp h
    have hText : (lines (l :: ls)).toList = l.toList ++ '\n' :: (lines ls).toList := by
      simp [lines, line]
    rw [hText, Text.split_append _ hLine, ih hLines, List.map_cons, List.cons_append]

theorem HasLines.unique (h : HasLines text ls) (hOther : HasLines text ms) : ls = ms := by
  have hSplit := split_lines h.no_feed
  rw [← h.text_eq, hOther.text_eq, split_lines hOther.no_feed] at hSplit
  have hLists : Function.Injective (List.map String.toList) :=
    List.map_injective_iff.mpr fun _ _ => String.toList_injective
  exact (hLists (List.append_cancel_right hSplit)).symm

theorem HasLines.append {other : String} (h : HasLines text ls) (hOther : HasLines other ms) :
    HasLines (text ++ other) (ls ++ ms) where
  text_eq := by rw [lines_append, ← h.text_eq, ← hOther.text_eq]
  no_feed := List.forall_mem_append.mpr ⟨h.no_feed, hOther.no_feed⟩

/-- The lines that a text takes where it is printed as a line. -/
def linesOf (text : String) : List String := (Text.split '\n' text.toList).map String.ofList

theorem lines_map_ofList {pieces : List (List Char)} (h : pieces ≠ []) :
    lines (pieces.map String.ofList) = line (String.ofList (Text.join '\n' pieces)) := by
  induction pieces with
  | nil => exact absurd rfl h
  | cons piece pieces ih =>
    cases pieces with
    | nil => simp [lines, Text.join]
    | cons next pieces =>
      rw [Text.join_cons _ _ (List.cons_ne_nil next pieces), List.map_cons, ← List.singleton_append,
        lines_append, ih (List.cons_ne_nil next pieces)]
      simp [lines, line, String.ofList_append, String.append_assoc]

theorem hasLines_linesOf (text : String) : HasLines (line text) (linesOf text) where
  text_eq := by
    rw [linesOf, lines_map_ofList (Text.split_ne_nil _ _), Text.join_split, String.ofList_toList]
  no_feed := by
    rw [linesOf, List.forall_mem_map]
    intro piece hPiece
    rw [String.toList_ofList]
    exact Text.not_mem_of_mem_split hPiece

theorem hasLines_lines (texts : List String) : HasLines (lines texts) (texts.flatMap linesOf) := by
  induction texts with
  | nil => exact ⟨rfl, List.forall_mem_nil _⟩
  | cons text texts ih =>
    have hText : lines (text :: texts) = line text ++ lines texts := by simp [lines]
    rw [hText, List.flatMap_cons]
    exact (hasLines_linesOf text).append ih

theorem linesOf_of_not_mem (h : '\n' ∉ text.toList) : linesOf text = [text] := by
  rw [linesOf, Text.split_of_not_mem h, List.map_singleton, String.ofList_toList]

theorem length_linesOf (text : String) :
    (linesOf text).length = text.toList.count '\n' + 1 := by
  rw [linesOf, List.length_map]
  exact Text.length_split '\n' text.toList

theorem length_le_length_flatMap (texts : List String) :
    texts.length ≤ (texts.flatMap linesOf).length := by
  induction texts with
  | nil => exact Nat.le_refl 0
  | cons text texts ih =>
    rw [List.flatMap_cons, List.length_append, length_linesOf, List.length_cons]
    omega

theorem length_flatMap_eq_iff :
    (texts.flatMap linesOf).length = texts.length ↔ ∀ text ∈ texts, '\n' ∉ text.toList := by
  induction texts with
  | nil => simp
  | cons text texts ih =>
    have hRest := length_le_length_flatMap texts
    rw [List.forall_mem_cons, ← ih, ← List.count_eq_zero, List.flatMap_cons, List.length_append,
      length_linesOf, List.length_cons]
    omega

theorem linesOf_append (h : '\n' ∉ front.toList) (text : String) :
    ∃ first rest, linesOf text = first :: rest ∧
      linesOf (front ++ text) = (front ++ first) :: rest := by
  obtain ⟨first, rest, hText, hBoth⟩ := Text.exists_split_append h text.toList
  refine ⟨String.ofList first, rest.map String.ofList, by rw [linesOf, hText]; rfl, ?_⟩
  rw [linesOf, String.toList_append, hBoth, List.map_cons, String.ofList_append,
    String.ofList_toList]

end Output

end LiteralLint
