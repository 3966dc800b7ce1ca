import LiteralLint.Proofs.Diagnostic.Exactness
import LiteralLint.Proofs.Literal.Replacement

/-! # Mending a literal

A refused literal whose value gives way to an allowed one loses its diagnostic, and the others say
the same. -/

set_option autoImplicit false

namespace LiteralLint

variable {text value : String} {before after : List Literal} {l m : Literal} {allow : AllowList}

theorem Literal.rangeIn_replaceIn (hm : m.WrittenIn text.toList) (hl : l.WrittenIn text.toList)
    (h : l.stop ≤ m.start) (value : String) :
    l.rangeIn (m.replaceIn text value).toList = l.rangeIn text.toList := by
  have hStop : l.stop ≤ m.valueStart := Nat.le_trans h (Nat.le_of_lt hm.start_lt_valueStart)
  have hStart : l.start ≤ m.valueStart := Nat.le_trans (Nat.le_of_lt hl.start_lt_stop) hStop
  rw [rangeIn, rangeIn, take_replaceIn hm value hStart, take_replaceIn hm value hStop]

theorem refused_of_literals (h : literals text = before ++ m :: after)
    (hRefused : m.value ∉ allow.values) :
    refused text allow = before.filter (fun l => l.value ∉ allow.values) ++
      m :: after.filter fun l => l.value ∉ allow.values := by
  rw [refused, h, List.filter_append, List.filter_cons, if_pos (decide_eq_true hRefused)]

theorem refused_replaceIn (h : literals text = before ++ m :: after)
    (hValue : ∀ c ∈ value.toList, c ≠ '\'' ∧ c ≠ '"') (hAllowed : value ∈ allow.values) :
    refused (m.replaceIn text value) allow = before.filter (fun l => l.value ∉ allow.values) ++
      (after.filter fun l => l.value ∉ allow.values).map (Literal.moveBehind m.value value) := by
  have hKept : (m.withValue value).value ∈ allow.values := hAllowed
  have hDropped : ¬ decide ((m.withValue value).value ∉ allow.values) = true := by
    simpa using hKept
  rw [refused, literals_replaceIn h hValue, List.filter_append, List.filter_cons, if_neg hDropped,
    List.filter_map]
  rfl

/-- When the value of a found literal is replaced by another one without quotes, nothing else is
found or lost: the value and the end of that literal change, and everything behind it moves as far
as the end does. If the new value is allowed and the old one is not, there is one diagnostic less;
those in front of it stay as they are, and those behind it say the same at another range. -/
theorem replaceIn_exact (h : literals text = before ++ m :: after)
    (hValue : ∀ c ∈ value.toList, c ≠ '\'' ∧ c ≠ '"') :
    literals (m.replaceIn text value) =
      before ++ m.withValue value :: after.map (Literal.moveBehind m.value value) ∧
    (m.value.length < m.stop ∧ ∀ l ∈ after, m.stop ≤ l.start) ∧
    ∀ allow : AllowList, value ∈ allow.values → m.value ∉ allow.values →
      ∃ ds es fs, checkText text allow =
          .ok (ds ++ .invalidFormat m.value (m.rangeIn text.toList) allow :: es) ∧
        checkText (m.replaceIn text value) allow = .ok (ds ++ fs) ∧
        fs.map (·.message) = es.map (·.message) := by
  have hAll := enumeration_literals text
  rw [h] at hAll
  obtain ⟨-, hOrder, hClear⟩ := List.pairwise_append.mp hAll.disjoint
  have hm := hAll.written m (by simp)
  refine ⟨literals_replaceIn h hValue, ⟨?_, (List.pairwise_cons.mp hOrder).1⟩, ?_⟩
  · obtain ⟨s, front, back, -, rfl⟩ := hm.exists_literalAt
    have hLength := s.length_chars
    simp only [Spelling.literalAt, String.length_ofList]
    omega
  · intro allow hAllowed hRefused
    have hSame : (before.filter fun l => l.value ∉ allow.values).map (fun l =>
          Diagnostic.invalidFormat l.value (l.rangeIn (m.replaceIn text value).toList) allow) =
        (before.filter fun l => l.value ∉ allow.values).map fun l =>
          Diagnostic.invalidFormat l.value (l.rangeIn text.toList) allow := by
      refine List.map_congr_left fun l hl => ?_
      have hMem := List.mem_of_mem_filter hl
      rw [Literal.rangeIn_replaceIn hm (hAll.written l (List.mem_append_left _ hMem))
        (hClear l hMem m List.mem_cons_self)]
    have hFirst := checkText_eq_map_refused text allow
    have hSecond := checkText_eq_map_refused (m.replaceIn text value) allow
    rw [refused_of_literals h hRefused, List.map_append, List.map_cons] at hFirst
    rw [refused_replaceIn h hValue hAllowed, List.map_append, hSame] at hSecond
    refine ⟨_, _, _, hFirst, hSecond, ?_⟩
    simp only [List.map_map]
    rfl

/-- The new value looks like a key, and what stands behind the literal like its value. -/
theorem replaceIn_exact_keyAsValue :
    literals "format:'a'x' format:'b'" = [⟨"a", 0, 10⟩, ⟨"b", 13, 23⟩] ∧
    literals "format:'format:'x' format:'b'" = [⟨"format:", 0, 16⟩, ⟨"b", 19, 29⟩] := by
  have hLiterals : literals "format:'a'x' format:'b'" =
      [] ++ ⟨"a", 0, 10⟩ :: [⟨"b", 13, 23⟩] := by
    have hFirst : (Cursor.ofText "format:'a'x' format:'b'").next? =
        some (⟨"a", 0, 10⟩, ⟨10, 10, "x' format:'b'".toList⟩) := by decide
    have hSecond : (Cursor.mk 10 10 "x' format:'b'".toList).next? =
        some (⟨"b", 13, 23⟩, ⟨23, 23, []⟩) := by decide
    rw [literals, Cursor.literals_of_next?_some hFirst, Cursor.literals_of_next?_some hSecond,
      Cursor.literals_of_next?_none rfl]
    rfl
  have hPlain : ∀ c ∈ "format:".toList, c ≠ '\'' ∧ c ≠ '"' := by simp
  obtain ⟨hReplaced, -, -⟩ := replaceIn_exact hLiterals hPlain
  exact ⟨hLiterals, hReplaced⟩

end LiteralLint
