import LiteralLint.Proofs.Diagnostic.Exactness
import LiteralLint.Proofs.Literal.LineEnding

/-! # Positions and line endings

A carriage return in front of a line feed stands behind everything else on its line, so that no
position moves. -/

set_option autoImplicit false

namespace LiteralLint

theorem Position.behind_withReturns (cs : List Char) :
    behind (Text.withReturns cs) = behind cs := by
  induction cs using List.reverseRecOn with
  | nil => rfl
  | append_singleton cs c ih =>
    rw [Text.withReturns_append, behind_concat, ← ih]
    by_cases hFeed : c = '\n'
    · subst hFeed
      have hReturn : Text.withReturns ['\n'] = ['\r'] ++ ['\n'] := rfl
      rw [hReturn, ← List.append_assoc, behind_concat, behind_concat]
      rfl
    · rw [Text.withReturns_cons hFeed, Text.withReturns_nil, behind_concat]

theorem Literal.rangeIn_withReturns (l : Literal) (cs : List Char) :
    (l.withReturns cs).rangeIn (Text.withReturns cs) = l.rangeIn cs := by
  simp only [rangeIn, Literal.withReturns, Text.take_placeWithReturns,
    Position.behind_withReturns]

/-- With a carriage return in front of every line feed a text has as many literals at the same
positions, and each value gains those of its own line feeds. Where no value has any, the diagnostics
are the same. -/
theorem withReturns_exact (text : String) :
    let returned := String.ofList (Text.withReturns text.toList)
    List.Forall₂
      (fun l k => k.value = String.ofList (Text.withReturns l.value.toList) ∧
        ∃ range, (LineIndex.ofText text).range l.start l.stop = .ok range ∧
          (LineIndex.ofText returned).range k.start k.stop = .ok range)
      (literals text) (literals returned) ∧
    ∀ allow, (∀ l ∈ literals text, '\n' ∉ l.value.toList) →
      checkText returned allow = checkText text allow := by
  intro returned
  have hChars : returned.toList = Text.withReturns text.toList := String.toList_ofList
  refine ⟨?_, fun allow hPlain => ?_⟩
  · rw [literals_withReturns, List.forall₂_map_right_iff, List.forall₂_same]
    intro l hl
    have hWritten := written_of_mem_literals hl
    refine ⟨rfl, _, hWritten.range_eq, ?_⟩
    rw [LineIndex.ofText, hChars, hWritten.withReturns.range_eq, l.rangeIn_withReturns]
  · have hValue : ∀ l ∈ literals text, (l.withReturns text.toList).value = l.value := by
      intro l hl
      rw [Literal.withReturns, Text.withReturns_of_not_mem (hPlain l hl), String.ofList_toList]
    have hRefused : refused returned allow =
        (refused text allow).map (Literal.withReturns text.toList) := by
      rw [refused, literals_withReturns, List.filter_map, refused]
      refine congrArg _ (List.filter_congr fun l hl => ?_)
      rw [Function.comp_apply, hValue l hl]
    rw [checkText_eq_map_refused, checkText_eq_map_refused, hRefused, List.map_map, hChars]
    refine congrArg _ (List.map_congr_left fun l hl => ?_)
    rw [Function.comp_apply, l.rangeIn_withReturns, hValue l (List.mem_of_mem_filter hl)]

end LiteralLint
