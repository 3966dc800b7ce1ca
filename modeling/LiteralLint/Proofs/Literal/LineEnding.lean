import LiteralLint.Proofs.Literal.Search

/-! # Line endings

A carriage return in front of every line feed is a blank more where blanks may stand, and a
character more in a value that goes over a line. Keys, colons and quotes are left alone, so that the
literals of both texts correspond. -/

set_option autoImplicit false

namespace LiteralLint

namespace Text

def withReturns (cs : List Char) : List Char :=
  cs.flatMap fun c => if c = '\n' then ['\r', '\n'] else [c]

/-- Where the place behind `n` characters lies once the returns are there. -/
def placeWithReturns (cs : List Char) (n : Nat) : Nat := (withReturns (cs.take n)).length

variable {cs us vs word : List Char} {c : Char} {m n : Nat}

@[simp] theorem withReturns_nil : withReturns [] = [] := rfl

@[simp] theorem withReturns_feed (cs : List Char) :
    withReturns ('\n' :: cs) = '\r' :: '\n' :: withReturns cs := rfl

theorem withReturns_cons (h : c ≠ '\n') (cs : List Char) :
    withReturns (c :: cs) = c :: withReturns cs := by
  simp [withReturns, h]

@[simp] theorem withReturns_append (cs ds : List Char) :
    withReturns (cs ++ ds) = withReturns cs ++ withReturns ds :=
  List.flatMap_append

theorem withReturns_of_not_mem (h : '\n' ∉ cs) : withReturns cs = cs := by
  induction cs with
  | nil => rfl
  | cons c cs ih =>
    rw [List.mem_cons, not_or] at h
    rw [withReturns_cons (Ne.symm h.1), ih h.2]

theorem eq_or_mem_of_mem_withReturns (h : c ∈ withReturns cs) : c = '\r' ∨ c ∈ cs := by
  obtain ⟨d, hd, hc⟩ := List.mem_flatMap.mp h
  split at hc
  · rename_i hFeed
    subst hFeed
    rcases List.mem_cons.mp hc with rfl | hc
    · exact Or.inl rfl
    · exact Or.inr (List.mem_singleton.mp hc ▸ hd)
  · exact Or.inr (List.mem_singleton.mp hc ▸ hd)

theorem mem_withReturns (h : c ∈ cs) : c ∈ withReturns cs := by
  refine List.mem_flatMap.mpr ⟨c, h, ?_⟩
  split
  · simp_all
  · simp

theorem eq_nil_of_withReturns (h : withReturns cs = []) : cs = [] := by
  rw [List.eq_nil_iff_forall_not_mem]
  intro c hc
  simpa [h] using mem_withReturns hc

theorem exists_of_withReturns (h : withReturns cs = us ++ c :: vs) (hc : c ≠ '\n' ∧ c ≠ '\r') :
    ∃ as bs, cs = as ++ c :: bs ∧ withReturns as = us ∧ withReturns bs = vs := by
  induction cs generalizing us with
  | nil => simp at h
  | cons d cs ih =>
    by_cases hd : d = '\n'
    · subst hd
      rw [withReturns_feed] at h
      cases us with
      | nil => exact absurd (List.cons.inj h).1.symm hc.2
      | cons a us =>
        obtain ⟨rfl, hTail⟩ := List.cons.inj h
        cases us with
        | nil => exact absurd (List.cons.inj hTail).1.symm hc.1
        | cons b us =>
          obtain ⟨rfl, hRest⟩ := List.cons.inj hTail
          obtain ⟨as, bs, rfl, rfl, rfl⟩ := ih hRest
          exact ⟨'\n' :: as, bs, rfl, rfl, rfl⟩
    · rw [withReturns_cons hd] at h
      cases us with
      | nil =>
        obtain ⟨rfl, rfl⟩ := List.cons.inj h
        exact ⟨[], cs, rfl, rfl, rfl⟩
      | cons a us =>
        obtain ⟨rfl, hTail⟩ := List.cons.inj h
        obtain ⟨as, bs, rfl, rfl, rfl⟩ := ih hTail
        exact ⟨d :: as, bs, rfl, withReturns_cons hd as, rfl⟩

theorem exists_of_withReturns_word (h : withReturns cs = word ++ vs)
    (hWord : ∀ c ∈ word, c ≠ '\n' ∧ c ≠ '\r') : ∃ bs, cs = word ++ bs ∧ withReturns bs = vs := by
  induction word generalizing cs with
  | nil => exact ⟨cs, rfl, h⟩
  | cons c word ih =>
    rw [List.forall_mem_cons] at hWord
    have hFirst : withReturns cs = [] ++ c :: (word ++ vs) := h
    obtain ⟨as, bs, rfl, hNil, hRest⟩ := exists_of_withReturns hFirst hWord.1
    obtain rfl := eq_nil_of_withReturns hNil
    obtain ⟨ds, rfl, rfl⟩ := ih hRest hWord.2
    exact ⟨ds, rfl, rfl⟩

theorem placeWithReturns_lt (hLess : m < n) (hn : n ≤ cs.length) :
    placeWithReturns cs m < placeWithReturns cs n := by
  have hTake : cs.take n = cs.take m ++ (cs.drop m).take (n - m) := by
    rw [← List.take_add, Nat.add_sub_cancel' (Nat.le_of_lt hLess)]
  have hRest : withReturns ((cs.drop m).take (n - m)) ≠ [] := by
    intro hNil
    have hLength := congrArg List.length (eq_nil_of_withReturns hNil)
    rw [List.length_take, List.length_drop, List.length_nil] at hLength
    omega
  rw [placeWithReturns, placeWithReturns, hTake, withReturns_append, List.length_append]
  exact Nat.lt_add_of_pos_right (List.length_pos_iff.mpr hRest)

theorem withReturns_eq_append (cs : List Char) (n : Nat) :
    withReturns cs = withReturns (cs.take n) ++ withReturns (cs.drop n) := by
  rw [← withReturns_append, List.take_append_drop]

theorem take_placeWithReturns (cs : List Char) (n : Nat) :
    (withReturns cs).take (placeWithReturns cs n) = withReturns (cs.take n) := by
  rw [withReturns_eq_append cs n, placeWithReturns, List.take_left]

end Text

namespace Spelling

theorem isBlank_withReturns {gap : List Char} (h : ∀ c ∈ gap, isBlank c = true) :
    ∀ c ∈ Text.withReturns gap, isBlank c = true := by
  intro c hc
  rcases Text.eq_or_mem_of_mem_withReturns hc with rfl | hMem
  · decide
  · exact h c hMem

theorem quote_ne {c : Char} (h : c = '\'' ∨ c = '"') : c ≠ '\n' ∧ c ≠ '\r' := by
  rcases h with rfl | rfl <;> decide

def withReturns (s : Spelling) : Spelling where
  keyGap := Text.withReturns s.keyGap
  valueGap := Text.withReturns s.valueGap
  opening := s.opening
  value := Text.withReturns s.value
  closing := s.closing
  keyGap_blank := isBlank_withReturns s.keyGap_blank
  valueGap_blank := isBlank_withReturns s.valueGap_blank
  opening_quote := s.opening_quote
  value_plain := by
    intro c hc
    rcases Text.eq_or_mem_of_mem_withReturns hc with rfl | hMem
    · decide
    · exact s.value_plain c hMem
  closing_quote := s.closing_quote

theorem chars_withReturns (s : Spelling) : s.withReturns.chars = Text.withReturns s.chars := by
  have hOpening := (quote_ne s.opening_quote).1
  have hClosing := (quote_ne s.closing_quote).1
  simp [chars, withReturns, Text.withReturns_cons, hOpening, hClosing]

theorem exists_of_withReturns {t : Spelling} {cs rest : List Char}
    (h : Text.withReturns cs = t.chars ++ rest) :
    ∃ (s : Spelling) (more : List Char), cs = s.chars ++ more ∧ t = s.withReturns := by
  have hText : Text.withReturns cs = ['f', 'o', 'r', 'm', 'a', 't'] ++ (t.keyGap ++ ':' ::
      (t.valueGap ++ t.opening :: (t.value ++ t.closing :: rest))) := by
    simp [h, chars]
  obtain ⟨afterKey, rfl, hKey⟩ := Text.exists_of_withReturns_word hText (by simp)
  obtain ⟨keyGap, afterColon, rfl, hKeyGap, hColon⟩ :=
    Text.exists_of_withReturns hKey (by decide)
  obtain ⟨valueGap, body, rfl, hValueGap, hBody⟩ :=
    Text.exists_of_withReturns hColon (quote_ne t.opening_quote)
  obtain ⟨value, more, rfl, hValue, -⟩ :=
    Text.exists_of_withReturns hBody (quote_ne t.closing_quote)
  have hKeyBlank : ∀ c ∈ keyGap, isBlank c = true :=
    fun c hc => t.keyGap_blank c (hKeyGap ▸ Text.mem_withReturns hc)
  have hValueBlank : ∀ c ∈ valueGap, isBlank c = true :=
    fun c hc => t.valueGap_blank c (hValueGap ▸ Text.mem_withReturns hc)
  have hPlain : ∀ c ∈ value, c ≠ '\'' ∧ c ≠ '"' :=
    fun c hc => t.value_plain c (hValue ▸ Text.mem_withReturns hc)
  refine ⟨⟨keyGap, valueGap, t.opening, value, t.closing, hKeyBlank, hValueBlank, t.opening_quote,
    hPlain, t.closing_quote⟩, more, by simp [chars], ?_⟩
  cases t
  subst hKeyGap hValueGap hValue
  rfl

end Spelling

namespace Literal

def withReturns (cs : List Char) (l : Literal) : Literal where
  value := String.ofList (Text.withReturns l.value.toList)
  start := Text.placeWithReturns cs l.start
  stop := Text.placeWithReturns cs l.stop

theorem withReturns_literalAt (s : Spelling) (before after : List Char) :
    (s.literalAt before.length).withReturns (before ++ s.chars ++ after) =
      s.withReturns.literalAt (Text.withReturns before).length := by
  simp only [Literal.withReturns, Spelling.literalAt, Text.placeWithReturns, List.append_assoc,
    List.take_left, List.take_length_add_append, Text.withReturns_append, List.length_append,
    String.toList_ofList, s.chars_withReturns]
  rfl

theorem withReturns_spelled (s : Spelling) (before after : List Char) :
    Text.withReturns (before ++ s.chars ++ after) =
      Text.withReturns before ++ s.withReturns.chars ++ Text.withReturns after := by
  rw [Text.withReturns_append, Text.withReturns_append, s.chars_withReturns]

variable {l : Literal} {cs : List Char}

theorem WrittenIn.withReturns (h : l.WrittenIn cs) :
    (l.withReturns cs).WrittenIn (Text.withReturns cs) := by
  obtain ⟨s, before, after, rfl, rfl⟩ := h.exists_literalAt
  rw [withReturns_literalAt, withReturns_spelled]
  exact s.withReturns.written_literalAt _ _

theorem WrittenIn.exists_withReturns (h : l.WrittenIn (Text.withReturns cs)) :
    ∃ k : Literal, k.WrittenIn cs ∧ l = k.withReturns cs := by
  obtain ⟨t, front, back, hText, rfl⟩ := h.exists_literalAt
  have hKey : Text.withReturns cs = front ++ 'f' :: (t.chars.tail ++ back) := by
    rw [hText, List.append_assoc]
    rfl
  obtain ⟨before, rest, rfl, rfl, hRest⟩ := Text.exists_of_withReturns hKey (by decide)
  have hSpelled : Text.withReturns ('f' :: rest) = t.chars ++ back := by
    rw [Text.withReturns_cons (by decide), hRest]
    rfl
  obtain ⟨s, after, hChars, rfl⟩ := Spelling.exists_of_withReturns hSpelled
  refine ⟨s.literalAt before.length, ?_, ?_⟩
  · rw [hChars, ← List.append_assoc]
    exact s.written_literalAt before after
  · rw [hChars, ← List.append_assoc, withReturns_literalAt]

end Literal

theorem literals_withReturns (text : String) :
    literals (String.ofList (Text.withReturns text.toList)) =
      (literals text).map (Literal.withReturns text.toList) := by
  have hAll := enumeration_literals (String.ofList (Text.withReturns text.toList))
  rw [String.toList_ofList] at hAll
  exact hAll.unique <| (enumeration_literals text).transport
    (fun _ _ => Text.placeWithReturns_lt) (fun _ => rfl) (fun _ => rfl)
    (fun _ hl => hl.withReturns) (fun _ hk => hk.exists_withReturns) (Nat.zero_le _)

end LiteralLint
