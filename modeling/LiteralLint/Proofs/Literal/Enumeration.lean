import LiteralLint.Proofs.Literal.Spelling

/-! # Enumerations

What the literals of a text are, said without a search: from an offset on, the literal that starts
first is taken, and the next one is looked for behind its closing quote. A text has one
enumeration from each offset. -/

set_option autoImplicit false

namespace LiteralLint

theorem take_drop_append_drop {cs : List Char} {m n : Nat} (h : m ≤ n) :
    (cs.drop m).take (n - m) ++ cs.drop n = cs.drop m := by
  have hRest : cs.drop n = (cs.drop m).drop (n - m) := by
    rw [List.drop_drop, Nat.add_sub_cancel' h]
  rw [hRest, List.take_append_drop]

def Literal.spanIn (l : Literal) (cs : List Char) : List Char :=
  (cs.drop l.start).take (l.stop - l.start)

/-- The text spells out the literal's value between its two offsets. -/
def Literal.WrittenIn (l : Literal) (cs : List Char) : Prop :=
  ∃ s : Spelling, s.chars <+: cs.drop l.start ∧ l.value = String.ofList s.value ∧
    l.stop = l.start + s.chars.length

theorem Literal.written_of_read? {cs : List Char} {n : Nat} {o : Occurrence}
    (h : Occurrence.read? (cs.drop n) = some o) :
    (⟨String.ofList o.value, n, n + o.span.length⟩ : Literal).WrittenIn cs := by
  obtain ⟨s, rest, hText, rfl⟩ := Spelling.read?_eq_some_iff.mp h
  exact ⟨s, ⟨rest, hText.symm⟩, rfl, rfl⟩

namespace Literal.WrittenIn

variable {cs : List Char} {l m : Literal}

theorem start_add_nine_le_stop (h : l.WrittenIn cs) : l.start + 9 ≤ l.stop := by
  obtain ⟨s, _, _, hStop⟩ := h
  have hLength := s.nine_le_length
  omega

theorem start_lt_stop (h : l.WrittenIn cs) : l.start < l.stop := by
  have hLength := h.start_add_nine_le_stop
  omega

theorem stop_le_length (h : l.WrittenIn cs) : l.stop ≤ cs.length := by
  obtain ⟨s, hPrefix, _, hStop⟩ := h
  have hRoom := hPrefix.length_le
  have hLength := s.nine_le_length
  rw [List.length_drop] at hRoom
  omega

theorem start_le_length (h : l.WrittenIn cs) : l.start ≤ cs.length :=
  Nat.le_of_lt (Nat.lt_of_lt_of_le h.start_lt_stop h.stop_le_length)

theorem start_ne_of_read?_none (h : l.WrittenIn cs) {n : Nat}
    (hRead : Occurrence.read? (cs.drop n) = none) : l.start ≠ n := by
  rintro rfl
  obtain ⟨s, hPrefix, _, _⟩ := h
  exact Spelling.read?_eq_none_iff.mp hRead s hPrefix

theorem exists_spanIn_eq (h : l.WrittenIn cs) :
    ∃ s : Spelling, l.spanIn cs = s.chars ∧ l.value = String.ofList s.value := by
  obtain ⟨s, ⟨rest, hText⟩, hValue, hStop⟩ := h
  refine ⟨s, ?_, hValue⟩
  rw [Literal.spanIn, hStop, Nat.add_sub_cancel_left, ← hText, List.take_left]

theorem spanIn_append_drop (h : l.WrittenIn cs) :
    l.spanIn cs ++ cs.drop l.stop = cs.drop l.start :=
  take_drop_append_drop (Nat.le_of_lt h.start_lt_stop)

theorem eq_of_start_eq (hl : l.WrittenIn cs) (hm : m.WrittenIn cs) (hStart : l.start = m.start) :
    l = m := by
  obtain ⟨s, hs, hlValue, hlStop⟩ := hl
  obtain ⟨t, ht, hmValue, hmStop⟩ := hm
  rw [← hStart] at ht
  obtain ⟨hChars, hValue⟩ := Spelling.eq_of_prefix hs ht
  rw [hChars] at hlStop
  rw [hValue, ← hmValue] at hlValue
  cases l
  cases m
  cases hStart
  cases hlValue
  cases hlStop.trans hmStop.symm
  rfl

end Literal.WrittenIn

def Spelling.literalAt (s : Spelling) (n : Nat) : Literal :=
  ⟨String.ofList s.value, n, n + s.chars.length⟩

theorem Spelling.written_literalAt (s : Spelling) (cs ds : List Char) :
    (s.literalAt cs.length).WrittenIn (cs ++ s.chars ++ ds) := by
  refine ⟨s, ?_, rfl, rfl⟩
  rw [literalAt, List.append_assoc, List.drop_left]
  exact List.prefix_append _ _

theorem Literal.WrittenIn.exists_literalAt {l : Literal} {cs : List Char} (h : l.WrittenIn cs) :
    ∃ (s : Spelling) (before after : List Char), cs = before ++ s.chars ++ after ∧
      l = s.literalAt before.length := by
  have hStart := h.start_le_length
  obtain ⟨s, ⟨after, hText⟩, hValue, hStop⟩ := h
  refine ⟨s, cs.take l.start, after, ?_, ?_⟩
  · rw [List.append_assoc, hText, List.take_append_drop]
  · rw [List.length_take, Nat.min_eq_left hStart, Spelling.literalAt, ← hValue, ← hStop]

/-- No literal that starts at `offset` or behind it starts before this one. -/
structure Literal.FirstFrom (l : Literal) (offset : Nat) (cs : List Char) : Prop where
  written : l.WrittenIn cs
  offset_le : offset ≤ l.start
  least : ∀ m : Literal, m.WrittenIn cs → offset ≤ m.start → l.start ≤ m.start

namespace Literal.FirstFrom

variable {cs : List Char} {l m : Literal} {offset : Nat}

theorem of_written (h : l.WrittenIn cs) : l.FirstFrom l.start cs :=
  ⟨h, Nat.le_refl _, fun _ _ hStart => hStart⟩

theorem of_succ (h : l.FirstFrom (offset + 1) cs)
    (hNone : ∀ m : Literal, m.WrittenIn cs → m.start ≠ offset) : l.FirstFrom offset cs where
  written := h.written
  offset_le := Nat.le_of_succ_le h.offset_le
  least m hm hStart := h.least m hm (Nat.lt_of_le_of_ne hStart (hNone m hm).symm)

theorem unique (hl : l.FirstFrom offset cs) (hm : m.FirstFrom offset cs) : l = m :=
  hl.written.eq_of_start_eq hm.written (Nat.le_antisymm (hl.least m hm.written hm.offset_le)
    (hm.least l hl.written hl.offset_le))

end Literal.FirstFrom

inductive Enumeration (cs : List Char) : Nat → List Literal → Prop where
  | done {offset : Nat} (none_left : ∀ l : Literal, l.WrittenIn cs → l.start < offset) :
      Enumeration cs offset []
  | next {offset : Nat} {l : Literal} {ls : List Literal} (first : l.FirstFrom offset cs)
      (rest : Enumeration cs l.stop ls) : Enumeration cs offset (l :: ls)

namespace Enumeration

variable {cs : List Char} {offset : Nat} {ls ms : List Literal}

theorem unique (hl : Enumeration cs offset ls) (hm : Enumeration cs offset ms) : ls = ms := by
  induction hl generalizing ms with
  | done none_left =>
    cases hm with
    | done => rfl
    | next first _ =>
      exact absurd first.offset_le (Nat.not_le.mpr (none_left _ first.written))
  | next first _ ih =>
    cases hm with
    | done none_left =>
      exact absurd first.offset_le (Nat.not_le.mpr (none_left _ first.written))
    | next first' rest' =>
      obtain rfl := first.unique first'
      rw [ih rest']

theorem written (h : Enumeration cs offset ls) : ∀ l ∈ ls, l.WrittenIn cs := by
  induction h with
  | done => simp
  | next first _ ih =>
    intro l hl
    rcases List.mem_cons.mp hl with rfl | hl
    · exact first.written
    · exact ih l hl

theorem mem_or_inside (h : Enumeration cs offset ls) {l : Literal} (hl : l.WrittenIn cs)
    (hOffset : offset ≤ l.start) : l ∈ ls ∨ ∃ m ∈ ls, m.start < l.start ∧ l.start < m.stop := by
  induction h with
  | done none_left => exact absurd hOffset (Nat.not_le.mpr (none_left l hl))
  | @next offset m ms first _ ih =>
    by_cases hStop : m.stop ≤ l.start
    · rcases ih hStop with hMem | ⟨k, hk, hInside⟩
      · exact Or.inl (List.mem_cons_of_mem _ hMem)
      · exact Or.inr ⟨k, List.mem_cons_of_mem _ hk, hInside⟩
    · rcases Nat.lt_or_eq_of_le (first.least l hl hOffset) with hLess | hEq
      · exact Or.inr ⟨m, List.mem_cons_self, hLess, Nat.not_le.mp hStop⟩
      · obtain rfl := first.written.eq_of_start_eq hl hEq
        exact Or.inl List.mem_cons_self

theorem offset_le_start (h : Enumeration cs offset ls) : ∀ l ∈ ls, offset ≤ l.start := by
  induction h with
  | done => simp
  | @next offset m ms first _ ih =>
    intro l hl
    rcases List.mem_cons.mp hl with rfl | hl
    · exact first.offset_le
    · have hBehind := ih l hl
      have hOffset := first.offset_le
      have hStop := first.written.start_lt_stop
      omega

theorem disjoint (h : Enumeration cs offset ls) : ls.Pairwise fun l m => l.stop ≤ m.start := by
  induction h with
  | done => exact List.Pairwise.nil
  | next _ rest ih => exact List.Pairwise.cons rest.offset_le_start ih

theorem two_mul_length_le_countP (h : Enumeration cs offset ls) :
    2 * ls.length ≤ (cs.drop offset).countP isQuote := by
  induction h with
  | done => exact Nat.zero_le _
  | @next offset l ls first _ ih =>
    obtain ⟨s, hSpan, -⟩ := first.written.exists_spanIn_eq
    have hQuotes : (cs.drop l.start).countP isQuote = 2 + (cs.drop l.stop).countP isQuote := by
      rw [← first.written.spanIn_append_drop, List.countP_append, hSpan, s.countP_isQuote_chars]
    have hBefore : (cs.drop l.start).countP isQuote ≤ (cs.drop offset).countP isQuote :=
      (List.drop_sublist_drop_left cs first.offset_le).countP_le
    rw [List.length_cons]
    omega

/-- Two texts whose literals correspond to each other, each start and each stop by one map of places
that keeps their order, have enumerations that correspond. -/
theorem transport {ds : List Char} {place : Nat → Nat} {image : Literal → Literal}
    (hPlace : ∀ m n, m < n → n ≤ cs.length → place m < place n)
    (hStart : ∀ l, (image l).start = place l.start) (hStop : ∀ l, (image l).stop = place l.stop)
    (hWritten : ∀ l : Literal, l.WrittenIn cs → (image l).WrittenIn ds)
    (hSource : ∀ k : Literal, k.WrittenIn ds → ∃ l : Literal, l.WrittenIn cs ∧ k = image l)
    (h : Enumeration cs offset ls) (hOffset : offset ≤ cs.length) :
    Enumeration ds (place offset) (ls.map image) := by
  have hLe {m n : Nat} (hLess : m ≤ n) (hn : n ≤ cs.length) : place m ≤ place n := by
    rcases Nat.lt_or_eq_of_le hLess with hLess | rfl
    · exact Nat.le_of_lt (hPlace m n hLess hn)
    · exact Nat.le_refl _
  induction h with
  | done none_left =>
    refine .done fun k hk => ?_
    obtain ⟨l, hl, rfl⟩ := hSource k hk
    rw [hStart]
    exact hPlace _ _ (none_left l hl) hOffset
  | @next offset l ls first _ ih =>
    have hRest := ih first.written.stop_le_length
    rw [← hStop] at hRest
    refine .next ⟨hWritten l first.written, ?_, fun k hk hBehind => ?_⟩ hRest
    · rw [hStart]
      exact hLe first.offset_le first.written.start_le_length
    · obtain ⟨m, hm, rfl⟩ := hSource k hk
      rw [hStart] at hBehind ⊢
      rw [hStart]
      refine hLe (first.least m hm (Nat.not_lt.mp fun hLess => ?_)) hm.start_le_length
      exact absurd (hPlace _ _ hLess hOffset) (Nat.not_lt.mpr hBehind)

end Enumeration

end LiteralLint
