import LiteralLint.Diagnostic
import LiteralLint.Proofs.LineIndex.Exactness
import LiteralLint.Proofs.Literal.Search
import LiteralLint.Proofs.Traversal
import Mathlib.Data.List.Forall2

/-! # Diagnostics are exact

The check of a text never fails, because every literal found in it lies within it. The diagnostics
are those of the refused literals, one for each and in their order. -/

set_option autoImplicit false

namespace LiteralLint

namespace Literal

/-- The range between the two offsets, counted from the text. -/
def rangeIn (l : Literal) (cs : List Char) : Range :=
  ⟨Position.behind (cs.take l.start), Position.behind (cs.take l.stop)⟩

variable {l m : Literal} {cs : List Char}

theorem WrittenIn.rangeIn_start_lt_stop (h : l.WrittenIn cs) :
    (l.rangeIn cs).start < (l.rangeIn cs).stop :=
  Position.behind_take_lt h.start_lt_stop h.stop_le_length

theorem WrittenIn.isSingleLine_rangeIn_iff (h : l.WrittenIn cs) :
    (l.rangeIn cs).isSingleLine = true ↔ '\n' ∉ l.spanIn cs := by
  rw [Range.isSingleLine, beq_iff_eq]
  exact Position.line_behind_take_eq_iff (Nat.le_of_lt h.start_lt_stop)

theorem rangeIn_stop_le_start (h : l.stop ≤ m.start) :
    (l.rangeIn cs).stop ≤ (m.rangeIn cs).start :=
  Position.behind_take_le h

theorem WrittenIn.range_eq (h : l.WrittenIn cs) :
    (LineIndex.ofChars cs).range l.start l.stop = .ok (l.rangeIn cs) :=
  (LineIndex.ofChars_describes cs).range_eq h.start_le_length h.stop_le_length

end Literal

namespace Diagnostic

def ofLiteral (index : LineIndex) (allow : AllowList) (l : Literal) :
    Except OffsetOutOfBounds Diagnostic := do
  let range ← index.range l.start l.stop
  return invalidFormat l.value range allow

theorem ofLiterals_eq_mapM (index : LineIndex) (found : List Literal) (allow : AllowList) :
    ofLiterals index found allow =
      (found.filter fun l => l.value ∉ allow.values).mapM (ofLiteral index allow) := by
  have hRefused : (found.filter fun l => !allow.contains l.value) =
      found.filter fun l => l.value ∉ allow.values := by
    refine List.filter_congr fun l _ => ?_
    simp [AllowList.contains]
  rw [← hRefused]
  rfl

end Diagnostic

/-- The literals of a text that an allow-list does not admit. -/
def refused (text : String) (allow : AllowList) : List Literal :=
  (literals text).filter fun l => l.value ∉ allow.values

theorem written_of_mem_literals {text : String} {l : Literal} (h : l ∈ literals text) :
    l.WrittenIn text.toList :=
  (enumeration_literals text).written l h

theorem written_of_mem_refused {text : String} {allow : AllowList} {l : Literal}
    (h : l ∈ refused text allow) : l.WrittenIn text.toList :=
  written_of_mem_literals (List.mem_of_mem_filter h)

theorem refused_disjoint (text : String) (allow : AllowList) :
    (refused text allow).Pairwise fun l m => l.stop ≤ m.start :=
  (enumeration_literals text).disjoint.filter _

theorem checkText_eq_map_refused (text : String) (allow : AllowList) :
    checkText text allow = .ok ((refused text allow).map fun l =>
      Diagnostic.invalidFormat l.value (l.rangeIn text.toList) allow) := by
  rw [checkText, Diagnostic.ofLiterals_eq_mapM]
  refine mapM_eq_ok fun l hl => ?_
  rw [Diagnostic.ofLiteral, LineIndex.ofText, (written_of_mem_refused hl).range_eq]
  rfl

/-- The diagnostics in full: which literals get one, and what it says. -/
theorem checkText_exact (text : String) (allow : AllowList) :
    checkText text allow =
      .ok (((literals text).filter fun l => l.value ∉ allow.values).map fun l =>
        { severity := .warning
          range :=
            { start := Position.behind (text.toList.take l.start)
              stop := Position.behind (text.toList.take l.stop) }
          message := "Invalid format '" ++ l.value ++ "'. Allowed formats: " ++
            (if allow.values = [] then "(none)" else ", ".intercalate allow.values) ++ "."
          source := "format-lint"
          code := "invalid-format" }) := by
  have hDescribe : allow.describe =
      if allow.values = [] then "(none)" else ", ".intercalate allow.values := by
    simp [AllowList.describe, AllowList.isEmpty]
  rw [checkText_eq_map_refused, ← hDescribe]
  rfl

/-- The check succeeds, every range is proper, and the ranges follow one another. -/
theorem checkText_ranges (text : String) (allow : AllowList) :
    (∀ l ∈ literals text, l.start ≤ text.length ∧ l.stop ≤ text.length) ∧
    ∃ ds, checkText text allow = .ok ds ∧
      (∀ d ∈ ds, d.range.start < d.range.stop ∧ d.range.start.line ≤ d.range.stop.line) ∧
      List.Forall₂
        (fun l d => (LineIndex.ofText text).range l.start l.stop = .ok d.range ∧
          (d.range.isSingleLine = true ↔ '\n' ∉ l.spanIn text.toList))
        ((literals text).filter fun l => l.value ∉ allow.values) ds ∧
      ds.Pairwise fun d e => d.range.stop ≤ e.range.start := by
  refine ⟨fun l hl => ?_, _, checkText_eq_map_refused text allow, fun d hd => ?_, ?_, ?_⟩
  · have hWritten := written_of_mem_literals hl
    have hStart := hWritten.start_lt_stop
    have hStop := hWritten.stop_le_length
    rw [String.length_toList] at hStop
    omega
  · obtain ⟨l, hl, rfl⟩ := List.mem_map.mp hd
    have hRange := (written_of_mem_refused hl).rangeIn_start_lt_stop
    exact ⟨hRange, Position.line_le_of_le (Or.inl hRange)⟩
  · change List.Forall₂ _ (refused text allow) _
    rw [List.forall₂_map_right_iff, List.forall₂_same]
    intro l hl
    have hWritten := written_of_mem_refused hl
    exact ⟨hWritten.range_eq, hWritten.isSingleLine_rangeIn_iff⟩
  · rw [List.pairwise_map]
    exact (refused_disjoint text allow).imp Literal.rangeIn_stop_le_start

end LiteralLint
