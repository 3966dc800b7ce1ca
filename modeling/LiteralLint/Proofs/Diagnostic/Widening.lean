import LiteralLint.Proofs.AllowList.Construction
import LiteralLint.Proofs.Diagnostic.Exactness

/-! # Allow-lists that admit more

Whoever admits more values loses the diagnostics of the values that came in and keeps all others.
The order in which values are given, and how often, shows in the messages alone. -/

set_option autoImplicit false

namespace LiteralLint

variable {text : String} {narrow wide : AllowList}

theorem refused_of_subset (h : ∀ v ∈ narrow.values, v ∈ wide.values) :
    refused text wide = (refused text narrow).filter fun l => l.value ∉ wide.values := by
  rw [refused, refused, List.filter_filter]
  refine List.filter_congr fun l _ => ?_
  by_cases hWide : l.value ∈ wide.values
  · simp [hWide]
  · simp [hWide, mt (h l.value) hWide]

theorem refused_congr (h : ∀ v, v ∈ narrow.values ↔ v ∈ wide.values) :
    refused text narrow = refused text wide := by
  rw [refused, refused]
  simp only [h]

/-- An allow-list with more values takes away the diagnostics of those values and leaves the ranges
of all others as they are. Two lists of the same values, in whatever order and number, give the same
diagnostics but for the messages. -/
theorem checkText_widened (text : String) :
    (∀ narrow wide : AllowList, (∀ v ∈ narrow.values, v ∈ wide.values) →
      ∃ (found : List (Literal × Diagnostic)) (ds : List Diagnostic),
        checkText text narrow = .ok (found.map Prod.snd) ∧ checkText text wide = .ok ds ∧
        found.map Prod.fst = (literals text).filter (fun l => l.value ∉ narrow.values) ∧
        (∀ p ∈ found, (LineIndex.ofText text).range p.1.start p.1.stop = .ok p.2.range) ∧
        ds.map Diagnostic.range =
          (found.filter fun p => p.1.value ∉ wide.values).map (fun p => p.2.range) ∧
        (ds.map Diagnostic.range).Sublist (found.map fun p => p.2.range)) ∧
    ∀ vs ws : List String, (∀ v, v ∈ vs ↔ v ∈ ws) →
      ∃ ds es, checkText text (.ofList vs) = .ok ds ∧ checkText text (.ofList ws) = .ok es ∧
        ds.map Diagnostic.range = es.map Diagnostic.range ∧
        List.Forall₂ (fun d e => e = { d with message := e.message }) ds es := by
  constructor
  · intro narrow wide hSubset
    have hRanges : ((refused text wide).map fun l =>
          Diagnostic.invalidFormat l.value (l.rangeIn text.toList) wide).map Diagnostic.range =
        (((refused text narrow).map fun l =>
          (l, Diagnostic.invalidFormat l.value (l.rangeIn text.toList) narrow)).filter
            fun p => p.1.value ∉ wide.values).map (fun p => p.2.range) := by
      rw [refused_of_subset hSubset, List.filter_map, List.map_map, List.map_map]
      rfl
    refine ⟨_, _, ?_, checkText_eq_map_refused text wide, ?_, ?_, hRanges, ?_⟩
    · rw [List.map_map]
      exact checkText_eq_map_refused text narrow
    · rw [List.map_map]
      exact List.map_id _
    · intro p hp
      obtain ⟨l, hl, rfl⟩ := List.mem_map.mp hp
      exact (written_of_mem_refused hl).range_eq
    · rw [hRanges]
      exact List.filter_sublist.map _
  · intro vs ws hSame
    have hRefused : refused text (.ofList vs) = refused text (.ofList ws) :=
      refused_congr fun v => by rw [AllowList.mem_values_ofList, AllowList.mem_values_ofList, hSame]
    have hFirst := checkText_eq_map_refused text (.ofList vs)
    rw [hRefused] at hFirst
    refine ⟨_, _, hFirst, checkText_eq_map_refused text (.ofList ws), ?_, ?_⟩
    · rw [List.map_map, List.map_map]
      rfl
    · rw [List.forall₂_map_left_iff, List.forall₂_map_right_iff, List.forall₂_same]
      intro l _
      rfl

end LiteralLint
