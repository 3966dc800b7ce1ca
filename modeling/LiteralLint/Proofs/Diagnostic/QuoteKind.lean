import LiteralLint.Proofs.Diagnostic.Exactness

/-! # The kinds of quotes

Any quote of a text can be exchanged for one of the other kind, be it the first or the last one of a
literal or a stray one. What is a spelling before is one afterwards, of the same length and with the
same value, so that both texts have the same literals and the same diagnostics. -/

set_option autoImplicit false

namespace LiteralLint

/-- The same character, or two quotes of whatever kind. -/
def Alike (c d : Char) : Prop := c = d ∨ isQuote c = true ∧ isQuote d = true

instance (c d : Char) : Decidable (Alike c d) := inferInstanceAs (Decidable (_ ∨ _))

section

variable {c d : Char} {cs ds word rest : List Char} {l : Literal} {n : Nat}

theorem Alike.symm (h : Alike c d) : Alike d c := h.imp Eq.symm And.symm

theorem Alike.eq_of_plain (h : Alike c d) (hPlain : isQuote c = false) : d = c := by
  rcases h with rfl | ⟨hQuote, -⟩
  · rfl
  · exact absurd (hPlain.symm.trans hQuote) Bool.false_ne_true

theorem Alike.isQuote (h : Alike c d) (hQuote : isQuote c = true) : isQuote d = true := by
  rcases h with rfl | ⟨-, hOther⟩
  · exact hQuote
  · exact hOther

theorem Alike.feed_beq (h : Alike c d) : (c == '\n') = (d == '\n') := by
  rcases h with rfl | ⟨hQuote, hOther⟩
  · rfl
  · rcases (isQuote_iff c).mp hQuote with rfl | rfl <;>
      rcases (isQuote_iff d).mp hOther with rfl | rfl <;> rfl

theorem alike_symm (h : List.Forall₂ Alike cs ds) : List.Forall₂ Alike ds cs :=
  (h.imp fun _ _ hChar => Alike.symm hChar).flip

theorem exists_of_alike_plain (h : List.Forall₂ Alike (word ++ rest) ds)
    (hWord : ∀ c ∈ word, isQuote c = false) :
    ∃ more, ds = word ++ more ∧ List.Forall₂ Alike rest more := by
  induction word generalizing ds with
  | nil => exact ⟨ds, rfl, h⟩
  | cons c word ih =>
    obtain ⟨hHead, hTail⟩ := List.forall_mem_cons.mp hWord
    obtain ⟨d, others, hChar, hOthers, rfl⟩ := List.forall₂_cons_left_iff.mp h
    obtain ⟨more, rfl, hMore⟩ := ih hOthers hTail
    exact ⟨more, by rw [hChar.eq_of_plain hHead, List.cons_append], hMore⟩

theorem Spelling.exists_of_alike {s : Spelling} (h : s.chars <+: cs)
    (hAlike : List.Forall₂ Alike cs ds) :
    ∃ t : Spelling, t.chars <+: ds ∧ t.value = s.value ∧ t.chars.length = s.chars.length := by
  obtain ⟨rest, rfl⟩ := h
  have hText : s.chars ++ rest =
      (['f', 'o', 'r', 'm', 'a', 't'] ++ s.keyGap ++ ':' :: s.valueGap) ++
        s.opening :: (s.value ++ s.closing :: rest) := by
    simp [chars]
  have hPlain : ∀ c ∈ ['f', 'o', 'r', 'm', 'a', 't'] ++ s.keyGap ++ ':' :: s.valueGap,
      isQuote c = false := by
    have hBlank {gap : List Char} (hGap : ∀ c ∈ gap, isBlank c = true) :
        ∀ c ∈ gap, isQuote c = false := fun c hc =>
      Bool.eq_false_iff.mpr fun hQuote =>
        Bool.false_ne_true ((isBlank_eq_false_of_isQuote hQuote).symm.trans (hGap c hc))
    simp only [List.forall_mem_append, List.forall_mem_cons, List.not_mem_nil, false_implies,
      implies_true, and_true]
    exact ⟨⟨by decide, hBlank s.keyGap_blank⟩, by decide, hBlank s.valueGap_blank⟩
  have hValue : ∀ c ∈ s.value, isQuote c = false := fun c hc => by
    simpa [isQuote] using s.value_plain c hc
  rw [hText] at hAlike
  obtain ⟨_, rfl, hOpened⟩ := exists_of_alike_plain hAlike hPlain
  obtain ⟨opening, _, hOpening, hBody, rfl⟩ := List.forall₂_cons_left_iff.mp hOpened
  obtain ⟨_, rfl, hClosed⟩ := exists_of_alike_plain hBody hValue
  obtain ⟨closing, more, hClosing, -, rfl⟩ := List.forall₂_cons_left_iff.mp hClosed
  have hFirst := (isQuote_iff opening).mp (hOpening.isQuote ((isQuote_iff _).mpr s.opening_quote))
  have hLast := (isQuote_iff closing).mp (hClosing.isQuote ((isQuote_iff _).mpr s.closing_quote))
  refine ⟨{ s with opening, closing, opening_quote := hFirst, closing_quote := hLast }, ⟨more, ?_⟩,
    rfl, ?_⟩ <;> simp [chars]

theorem Literal.WrittenIn.of_alike (h : l.WrittenIn cs) (hAlike : List.Forall₂ Alike cs ds) :
    l.WrittenIn ds := by
  obtain ⟨s, hPrefix, hValue, hStop⟩ := h
  obtain ⟨t, hOther, hSame, hLength⟩ :=
    Spelling.exists_of_alike hPrefix (List.forall₂_drop l.start hAlike)
  exact ⟨t, hOther, by rw [hSame, hValue], by rw [hLength, hStop]⟩

end

section

variable {text other : String}

theorem literals_of_alike (h : List.Forall₂ Alike text.toList other.toList) :
    literals other = literals text := by
  have hSame : Enumeration other.toList 0 ((literals text).map id) :=
    (enumeration_literals text).transport (fun _ _ hLess _ => hLess) (fun _ => rfl) (fun _ => rfl)
      (fun _ hl => hl.of_alike h) (fun k hk => ⟨k, hk.of_alike (alike_symm h), rfl⟩) (Nat.zero_le _)
  exact (enumeration_literals other).unique (List.map_id (literals text) ▸ hSame)

theorem LineIndex.ofText_of_alike (h : List.Forall₂ Alike text.toList other.toList) :
    ofText other = ofText text := by
  refine ofChars_congr ?_
  rw [← List.forall₂_eq_eq_eq, List.forall₂_map_left_iff, List.forall₂_map_right_iff]
  exact (alike_symm h).imp fun _ _ hChar => hChar.feed_beq

/-- Texts that differ in nothing but the kinds of some of their quotes have the same literals at the
same offsets, and the same diagnostics under every allow-list. -/
theorem alike_exact (h : List.Forall₂ Alike text.toList other.toList) :
    literals other = literals text ∧ ∀ allow, checkText other allow = checkText text allow := by
  have hLiterals := literals_of_alike h
  refine ⟨hLiterals, fun allow => ?_⟩
  rw [checkText, checkText, hLiterals, LineIndex.ofText_of_alike h]

/-- One stray quote, the first quote of the one literal and the last of the other are exchanged. -/
theorem alike_exact_mixed :
    List.Forall₂ Alike "'format:'a\"format:'b'".toList "\"format:\"a\"format:'b\"".toList ∧
    literals "'format:'a\"format:'b'" = [⟨"a", 1, 11⟩, ⟨"b", 11, 21⟩] ∧
    literals "\"format:\"a\"format:'b\"" = [⟨"a", 1, 11⟩, ⟨"b", 11, 21⟩] := by
  have hAlike : List.Forall₂ Alike "'format:'a\"format:'b'".toList
      "\"format:\"a\"format:'b\"".toList := by
    simp [Alike, isQuote]
  have hLiterals : literals "'format:'a\"format:'b'" = [⟨"a", 1, 11⟩, ⟨"b", 11, 21⟩] := by
    have hFirst : (Cursor.ofText "'format:'a\"format:'b'").next? =
        some (⟨"a", 1, 11⟩, ⟨11, 11, "format:'b'".toList⟩) := by decide
    have hSecond : (Cursor.mk 11 11 "format:'b'".toList).next? =
        some (⟨"b", 11, 21⟩, ⟨21, 21, []⟩) := by decide
    rw [literals, Cursor.literals_of_next?_some hFirst, Cursor.literals_of_next?_some hSecond,
      Cursor.literals_of_next?_none rfl]
  exact ⟨hAlike, hLiterals, hLiterals ▸ (alike_exact hAlike).1⟩

end

end LiteralLint
