import LiteralLint.Proofs.Diagnostic.Exactness
import LiteralLint.Proofs.LineIndex.Order

/-! # Diagnostics of literals from elsewhere

Literals need not come from the text that an index was built from. A refused one beyond the end of
that text is an error, the first such literal is the one that is named, and nothing is known then of
the others. Where an admitted literal stands does not matter. -/

set_option autoImplicit false

namespace LiteralLint

def Literal.FitsIn (l : Literal) (length : Nat) : Prop := l.start ≤ length ∧ l.stop ≤ length

namespace Diagnostic

variable {index : LineIndex} {found other : List Literal} {allow : AllowList} {l : Literal}

theorem ofLiteral_eq_ok_iff {d : Diagnostic} :
    ofLiteral index allow l = .ok d ↔
      ∃ p q, index.position l.start = .ok p ∧ index.position l.stop = .ok q ∧
        d = invalidFormat l.value ⟨p, q⟩ allow := by
  constructor
  · intro h
    obtain ⟨r, hRange, h⟩ := bind_eq_ok h
    cases h
    obtain ⟨hStart, hStop⟩ := LineIndex.range_eq_ok_iff.mp hRange
    exact ⟨r.start, r.stop, hStart, hStop, rfl⟩
  · rintro ⟨p, q, hStart, hStop, rfl⟩
    exact bind_of_ok (LineIndex.range_eq_ok_iff.mpr ⟨hStart, hStop⟩)

theorem ofLiteral_eq_error_iff {e : OffsetOutOfBounds} :
    ofLiteral index allow l = .error e ↔ ¬ l.FitsIn index.length ∧
      e = ⟨if index.length < l.start then l.start else l.stop, index.length⟩ := by
  rw [ofLiteral, bind_eq_error_iff, LineIndex.range_eq_error_iff]
  refine or_iff_left ?_
  rintro ⟨r, -, ⟨⟩⟩

theorem exists_ofLiteral_eq_ok_iff :
    (∃ d, ofLiteral index allow l = .ok d) ↔ l.FitsIn index.length := by
  cases hResult : ofLiteral index allow l with
  | error e =>
    refine iff_of_false ?_ (ofLiteral_eq_error_iff.mp hResult).1
    rintro ⟨d, ⟨⟩⟩
  | ok d =>
    refine iff_of_true ⟨d, rfl⟩ (Classical.byContradiction fun hBeyond => ?_)
    have hError : ofLiteral index allow l = .error _ := ofLiteral_eq_error_iff.mpr ⟨hBeyond, rfl⟩
    rw [hResult] at hError
    cases hError

theorem exists_ofLiterals_eq_ok_iff :
    (∃ ds, ofLiterals index found allow = .ok ds) ↔
      ∀ l ∈ found, l.value ∉ allow.values → l.FitsIn index.length := by
  rw [ofLiterals_eq_mapM, exists_mapM_eq_ok_iff]
  simp only [exists_ofLiteral_eq_ok_iff, List.mem_filter, decide_eq_true_eq, and_imp]

theorem exists_ofLiterals_eq_error_iff :
    (∃ e, ofLiterals index found allow = .error e) ↔
      ∃ l ∈ found, l.value ∉ allow.values ∧ ¬ l.FitsIn index.length := by
  have hOk : (∃ e, ofLiterals index found allow = .error e) ↔
      ¬ ∃ ds, ofLiterals index found allow = .ok ds := by
    cases ofLiterals index found allow <;> simp
  rw [hOk, exists_ofLiterals_eq_ok_iff]
  push Not
  rfl

/-- The error is that of the first refused literal that does not fit: what stands in front of it is
admitted or fits, and what comes behind is not looked at. -/
theorem ofLiterals_eq_error_iff {e : OffsetOutOfBounds} :
    ofLiterals index found allow = .error e ↔
      ∃ before l after, found = before ++ l :: after ∧
        (∀ m ∈ before, m.value ∉ allow.values → m.FitsIn index.length) ∧
        l.value ∉ allow.values ∧ ¬ l.FitsIn index.length ∧
        e = ⟨if index.length < l.start then l.start else l.stop, index.length⟩ := by
  rw [ofLiterals_eq_mapM, mapM_eq_error_iff]
  simp only [ofLiteral_eq_error_iff, exists_ofLiteral_eq_ok_iff]
  constructor
  · rintro ⟨before, l, after, hSplit, hBefore, hBeyond, hError⟩
    obtain ⟨front, rest, rfl, rfl, hRest⟩ := List.filter_eq_append_iff.mp hSplit
    obtain ⟨admitted, back, rfl, hAdmitted, hRefused, -⟩ := List.filter_eq_cons_iff.mp hRest
    refine ⟨front ++ admitted, l, back, (List.append_assoc _ _ _).symm, ?_,
      of_decide_eq_true hRefused, hBeyond, hError⟩
    intro m hm hValue
    rcases List.mem_append.mp hm with hFront | hMid
    · exact hBefore m (List.mem_filter.mpr ⟨hFront, decide_eq_true hValue⟩)
    · exact absurd (decide_eq_true hValue) (hAdmitted m hMid)
  · rintro ⟨before, l, after, rfl, hBefore, hRefused, hBeyond, hError⟩
    refine ⟨before.filter fun m => m.value ∉ allow.values, l,
      after.filter fun m => m.value ∉ allow.values, ?_, ?_, hBeyond, hError⟩
    · rw [List.filter_append, List.filter_cons, if_pos (decide_eq_true hRefused)]
    · intro m hm
      obtain ⟨hMem, hValue⟩ := List.mem_filter.mp hm
      exact hBefore m hMem (of_decide_eq_true hValue)

theorem ofLiterals_eq_ok_iff {ds : List Diagnostic} :
    ofLiterals index found allow = .ok ds ↔
      List.Forall₂
        (fun l d => ∃ p q, index.position l.start = .ok p ∧ index.position l.stop = .ok q ∧
          d = invalidFormat l.value ⟨p, q⟩ allow)
        (found.filter fun l => l.value ∉ allow.values) ds := by
  rw [ofLiterals_eq_mapM, mapM_eq_ok_iff]
  simp only [ofLiteral_eq_ok_iff]

theorem ofLiterals_congr
    (h : List.Forall₂ (fun l m => m.value = l.value ∧ (l.value ∉ allow.values → m = l))
      found other) :
    ofLiterals index other allow = ofLiterals index found allow := by
  have hRefused : (other.filter fun l => l.value ∉ allow.values) =
      found.filter fun l => l.value ∉ allow.values := by
    induction h with
    | nil => rfl
    | cons hHead _ ih =>
      obtain ⟨hValue, hSame⟩ := hHead
      rw [List.filter_cons, List.filter_cons, ih, hValue]
      split
      · rename_i hRefused
        rw [hSame (of_decide_eq_true hRefused)]
      · rfl
  rw [ofLiterals_eq_mapM, ofLiterals_eq_mapM, hRefused]

/-- Literals that need not fit the text of an index. It is an error if a refused one has an end
behind the text, and the error names the first such literal and its start before its stop. Otherwise
there is one diagnostic for each refused literal, in their order, with both ends looked up. The ends
of admitted literals have no part in it. -/
theorem ofLiterals_exact (index : LineIndex) (found : List Literal) (allow : AllowList) :
    let Refused (l : Literal) : Prop := l.value ∉ allow.values
    let Beyond (l : Literal) : Prop := l.start > index.length ∨ l.stop > index.length
    ((∃ e, ofLiterals index found allow = .error e) ↔ ∃ l ∈ found, Refused l ∧ Beyond l) ∧
    (∀ e, ofLiterals index found allow = .error e ↔
      ∃ before l after, found = before ++ l :: after ∧ (∀ m ∈ before, Refused m → ¬ Beyond m) ∧
        Refused l ∧ Beyond l ∧
        e = ⟨if l.start > index.length then l.start else l.stop, index.length⟩) ∧
    (∀ ds, ofLiterals index found allow = .ok ds ↔
      List.Forall₂
        (fun l d => ∃ p q, index.position l.start = .ok p ∧ index.position l.stop = .ok q ∧
          d = invalidFormat l.value ⟨p, q⟩ allow)
        (found.filter fun l => l.value ∉ allow.values) ds) ∧
    ∀ other, List.Forall₂ (fun l m => m.value = l.value ∧ (Refused l → m = l)) found other →
      ofLiterals index other allow = ofLiterals index found allow := by
  intro Refused Beyond
  have hBeyond : ∀ l, Beyond l ↔ ¬ l.FitsIn index.length := by
    intro l
    simp only [Beyond, Literal.FitsIn]
    omega
  refine ⟨?_, fun e => ?_, fun ds => ofLiterals_eq_ok_iff, fun other => ofLiterals_congr⟩
  · simp only [hBeyond]
    exact exists_ofLiterals_eq_error_iff
  · simp only [hBeyond, not_not]
    exact ofLiterals_eq_error_iff

end Diagnostic

end LiteralLint
