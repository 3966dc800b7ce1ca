import LiteralLint.Literal

/-! # Spellings of a literal

The grammar of a written literal, part by part. The reader accepts exactly the texts that begin
with a spelling, a text begins with at most one, and none ends within another one. -/

set_option autoImplicit false

namespace LiteralLint

theorem isQuote_iff (c : Char) : isQuote c = true ↔ c = '\'' ∨ c = '"' := by
  simp [isQuote]

theorem isBlank_eq_false_of_isQuote {c : Char} (h : isQuote c = true) : isBlank c = false := by
  rcases (isQuote_iff c).mp h with rfl | rfl <;> decide

theorem countP_isQuote_of_isBlank {cs : List Char} (h : ∀ c ∈ cs, isBlank c = true) :
    cs.countP isQuote = 0 := by
  rw [List.countP_eq_zero]
  intro c hc hQuote
  exact Bool.false_ne_true ((isBlank_eq_false_of_isQuote hQuote).symm.trans (h c hc))

theorem takeWhile_run {p : Char → Bool} {run rest : List Char} {c : Char}
    (hRun : ∀ a ∈ run, p a = true) (hEnd : p c = false) :
    (run ++ c :: rest).takeWhile p = run := by
  rw [List.takeWhile_append_of_pos hRun, List.takeWhile_cons_of_neg (by simp [hEnd]),
    List.append_nil]

theorem dropWhile_run {p : Char → Bool} {run rest : List Char} {c : Char}
    (hRun : ∀ a ∈ run, p a = true) (hEnd : p c = false) :
    (run ++ c :: rest).dropWhile p = c :: rest := by
  rw [List.dropWhile_append_of_pos hRun, List.dropWhile_cons_of_neg (by simp [hEnd])]

theorem run_of_dropWhile {p : Char → Bool} {cs rest : List Char} {c : Char}
    (h : cs.dropWhile p = c :: rest) : (∀ a ∈ cs.takeWhile p, p a = true) ∧ p c = false := by
  constructor
  · exact List.all_eq_true.mp List.all_takeWhile
  · have hHead := List.head?_dropWhile_not p cs
    rw [h] at hHead
    simpa using hHead

/-- The parts of a literal behind its key: blanks, a colon, blanks, and between two quotes of
either kind the longest run of characters that are none. -/
structure Spelling where
  keyGap : List Char
  valueGap : List Char
  opening : Char
  value : List Char
  closing : Char
  keyGap_blank : ∀ c ∈ keyGap, isBlank c = true
  valueGap_blank : ∀ c ∈ valueGap, isBlank c = true
  opening_quote : opening = '\'' ∨ opening = '"'
  value_plain : ∀ c ∈ value, c ≠ '\'' ∧ c ≠ '"'
  closing_quote : closing = '\'' ∨ closing = '"'

namespace Spelling

def chars (s : Spelling) : List Char :=
  ['f', 'o', 'r', 'm', 'a', 't'] ++ s.keyGap ++ ':' :: s.valueGap ++ s.opening :: s.value
    ++ [s.closing]

theorem nine_le_length (s : Spelling) : 9 ≤ s.chars.length := by
  simp only [chars, List.length_append, List.length_cons, List.length_nil]
  omega

theorem read?_chars_append (s : Spelling) (rest : List Char) :
    Occurrence.read? (s.chars ++ rest) = some ⟨s.chars, s.value, rest⟩ := by
  have hColon : isBlank ':' = false := by decide
  have hOpening : isQuote s.opening = true := (isQuote_iff _).mpr s.opening_quote
  have hOpeningGap : isBlank s.opening = false := isBlank_eq_false_of_isQuote hOpening
  have hClosing : (!isQuote s.closing) = false := by
    simp [(isQuote_iff _).mpr s.closing_quote]
  have hValue : ∀ c ∈ s.value, (!isQuote c) = true := by
    intro c hc
    simpa [isQuote] using s.value_plain c hc
  have hText : s.chars ++ rest = 'f' :: 'o' :: 'r' :: 'm' :: 'a' :: 't' :: (s.keyGap ++ ':' ::
      (s.valueGap ++ s.opening :: (s.value ++ s.closing :: rest))) := by
    simp [chars]
  rw [hText, Occurrence.read?]
  simp only [dropWhile_run s.keyGap_blank hColon, takeWhile_run s.keyGap_blank hColon,
    dropWhile_run s.valueGap_blank hOpeningGap, takeWhile_run s.valueGap_blank hOpeningGap,
    dropWhile_run hValue hClosing, takeWhile_run hValue hClosing, hOpening]
  rfl

theorem exists_of_read? {cs : List Char} {o : Occurrence} (h : Occurrence.read? cs = some o) :
    ∃ s : Spelling, o.span = s.chars ∧ o.value = s.value := by
  unfold Occurrence.read? at h
  split at h <;> try contradiction
  rename_i afterKey
  split at h <;> try contradiction
  rename_i afterColon hColon
  split at h <;> try contradiction
  rename_i opening body hBody
  split at h <;> try contradiction
  rename_i closing rest hOpening hRest
  obtain rfl := Option.some.inj h
  obtain ⟨hKeyGap, -⟩ := run_of_dropWhile hColon
  obtain ⟨hValueGap, -⟩ := run_of_dropWhile hBody
  obtain ⟨hValue, hClosing⟩ := run_of_dropWhile hRest
  have hPlain : ∀ c ∈ body.takeWhile (!isQuote ·), c ≠ '\'' ∧ c ≠ '"' := by
    intro c hc
    simpa [isQuote] using hValue c hc
  exact ⟨⟨_, _, opening, _, closing, hKeyGap, hValueGap, (isQuote_iff _).mp hOpening, hPlain,
    (isQuote_iff _).mp (by simpa using hClosing)⟩, rfl, rfl⟩

theorem read?_eq_some_iff {cs : List Char} {o : Occurrence} :
    Occurrence.read? cs = some o ↔
      ∃ s : Spelling, ∃ rest, cs = s.chars ++ rest ∧ o = ⟨s.chars, s.value, rest⟩ := by
  constructor
  · intro h
    obtain ⟨s, hSpan, hValue⟩ := exists_of_read? h
    refine ⟨s, o.rest, ?_, ?_⟩
    · rw [← hSpan, Occurrence.span_append_rest h]
    · rw [← hSpan, ← hValue]
  · rintro ⟨s, rest, rfl, rfl⟩
    exact s.read?_chars_append rest

theorem read?_eq_none_iff {cs : List Char} :
    Occurrence.read? cs = none ↔ ∀ s : Spelling, ¬ s.chars <+: cs := by
  constructor
  · rintro h s ⟨rest, rfl⟩
    rw [read?_chars_append] at h
    cases h
  · intro h
    cases hRead : Occurrence.read? cs with
    | none => rfl
    | some o =>
      obtain ⟨s, rest, hText, _⟩ := read?_eq_some_iff.mp hRead
      exact absurd ⟨rest, hText.symm⟩ (h s)

theorem eq_of_prefix {s t : Spelling} {cs : List Char} (hs : s.chars <+: cs) (ht : t.chars <+: cs) :
    s.chars = t.chars ∧ s.value = t.value := by
  obtain ⟨a, rfl⟩ := hs
  obtain ⟨b, hText⟩ := ht
  have h := t.read?_chars_append b
  rw [hText, read?_chars_append, Option.some.injEq, Occurrence.mk.injEq] at h
  exact ⟨h.1, h.2.1⟩

def body (s : Spelling) : List Char :=
  ['f', 'o', 'r', 'm', 'a', 't'] ++ s.keyGap ++ ':' :: s.valueGap ++ s.opening :: s.value

theorem chars_eq (s : Spelling) : s.chars = s.body ++ [s.closing] := rfl

theorem countP_isQuote_body (s : Spelling) : s.body.countP isQuote = 1 := by
  have hKey : ['f', 'o', 'r', 'm', 'a', 't'].countP isQuote = 0 := by decide
  have hOpening : isQuote s.opening = true := (isQuote_iff _).mpr s.opening_quote
  have hValue : s.value.countP isQuote = 0 := by
    rw [List.countP_eq_zero]
    intro c hc
    simpa [isQuote] using s.value_plain c hc
  rw [body, List.countP_append, List.countP_append, List.countP_append, hKey,
    List.countP_cons_of_neg (by decide), List.countP_cons_of_pos hOpening, hValue,
    countP_isQuote_of_isBlank s.keyGap_blank, countP_isQuote_of_isBlank s.valueGap_blank]

theorem countP_isQuote_chars (s : Spelling) : s.chars.countP isQuote = 2 := by
  have hClosing : isQuote s.closing = true := (isQuote_iff _).mpr s.closing_quote
  simp [chars_eq, countP_isQuote_body, hClosing]

/-- The second quote of a spelling is its last character, so that no spelling lies within another
one and ends before it does. -/
theorem length_le_of_drop_prefix {s t : Spelling} {cs : List Char} {n : Nat} (hs : s.chars <+: cs)
    (ht : t.chars <+: cs.drop n) : s.chars.length ≤ n + t.chars.length := by
  refine Nat.not_lt.mp fun hLess => ?_
  obtain ⟨rest, rfl⟩ := hs
  have hBody : s.chars.length = s.body.length + 1 := by
    rw [chars_eq, List.length_append, List.length_singleton]
  have hTail : (s.chars ++ rest).drop n = s.body.drop n ++ s.closing :: rest := by
    rw [chars_eq, List.append_assoc, List.drop_append_of_le_length (by omega)]
    rfl
  have hWithin : t.chars <+: s.body.drop n := by
    refine List.prefix_of_prefix_length_le (hTail ▸ ht) (List.prefix_append _ _) ?_
    rw [List.length_drop]
    omega
  have hCount : t.chars.countP isQuote ≤ s.body.countP isQuote :=
    (hWithin.sublist.trans (List.drop_sublist n _)).countP_le
  rw [countP_isQuote_chars, countP_isQuote_body] at hCount
  exact absurd hCount (by decide)

end Spelling

end LiteralLint
