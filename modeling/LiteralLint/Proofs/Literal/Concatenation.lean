import LiteralLint.Proofs.Literal.Search

/-! # Literals of joined texts

Whether a literal is written at a place is decided by the characters between its two offsets, so
that it stays when text is put in front of it or behind it. What is put behind a text can close a
literal that the text leaves open, but such a literal starts behind all those found before. -/

set_option autoImplicit false

namespace LiteralLint

namespace Literal

def shift (n : Nat) (l : Literal) : Literal :=
  { l with start := l.start + n, stop := l.stop + n }

@[simp] theorem shift_value (n : Nat) (l : Literal) : (l.shift n).value = l.value := rfl

@[simp] theorem shift_start (n : Nat) (l : Literal) : (l.shift n).start = l.start + n := rfl

@[simp] theorem shift_stop (n : Nat) (l : Literal) : (l.shift n).stop = l.stop + n := rfl

theorem exists_eq_shift {n : Nat} {l : Literal} (hStart : n ≤ l.start) (hStop : n ≤ l.stop) :
    ∃ m : Literal, l = m.shift n := by
  refine ⟨⟨l.value, l.start - n, l.stop - n⟩, ?_⟩
  rw [shift, Nat.sub_add_cancel hStart, Nat.sub_add_cancel hStop]

/-- The literal starts in front of a place and ends behind it. -/
def Straddles (l : Literal) (place : Nat) : Prop := l.start < place ∧ place < l.stop

instance (l : Literal) (place : Nat) : Decidable (l.Straddles place) :=
  inferInstanceAs (Decidable (_ ∧ _))

namespace WrittenIn

variable {cs ds : List Char} {l m : Literal}

theorem stop_le_stop (hl : l.WrittenIn cs) (hm : m.WrittenIn cs) (h : l.start ≤ m.start) :
    l.stop ≤ m.stop := by
  obtain ⟨s, hs, _, hlStop⟩ := hl
  obtain ⟨t, ht, _, hmStop⟩ := hm
  rw [← Nat.add_sub_cancel' h, ← List.drop_drop] at ht
  have hLength := Spelling.length_le_of_drop_prefix hs ht
  omega

theorem append (h : l.WrittenIn cs) (ds : List Char) : l.WrittenIn (cs ++ ds) := by
  have hStart := h.start_le_length
  obtain ⟨s, hPrefix, hValue, hStop⟩ := h
  refine ⟨s, ?_, hValue, hStop⟩
  rw [List.drop_append_of_le_length hStart]
  exact hPrefix.trans (List.prefix_append _ _)

theorem of_append (h : l.WrittenIn (cs ++ ds)) (hWithin : l.stop ≤ cs.length) :
    l.WrittenIn cs := by
  have hStart := Nat.le_of_lt (Nat.lt_of_lt_of_le h.start_lt_stop hWithin)
  obtain ⟨s, hPrefix, hValue, hStop⟩ := h
  refine ⟨s, ?_, hValue, hStop⟩
  rw [List.drop_append_of_le_length hStart] at hPrefix
  refine List.prefix_of_prefix_length_le hPrefix (List.prefix_append _ _) ?_
  rw [List.length_drop]
  omega

theorem shift_iff : (l.shift cs.length).WrittenIn (cs ++ ds) ↔ l.WrittenIn ds := by
  have hRest : (cs ++ ds).drop (l.start + cs.length) = ds.drop l.start := by
    rw [Nat.add_comm, ← List.drop_drop, List.drop_left]
  have hStop (s : Spelling) : l.stop + cs.length = l.start + cs.length + s.chars.length ↔
      l.stop = l.start + s.chars.length := by omega
  simp only [WrittenIn, shift_value, shift_start, shift_stop, hRest, hStop]

theorem exists_shift (h : l.WrittenIn (cs ++ ds)) (hBehind : cs.length ≤ l.start) :
    ∃ m : Literal, m.WrittenIn ds ∧ l = m.shift cs.length := by
  have hOrder := h.start_lt_stop
  obtain ⟨m, rfl⟩ := exists_eq_shift hBehind (by omega)
  exact ⟨m, shift_iff.mp h, rfl⟩

end WrittenIn

namespace FirstFrom

variable {cs : List Char} {l : Literal} {offset : Nat}

theorem append (h : l.FirstFrom offset cs) (ds : List Char) : l.FirstFrom offset (cs ++ ds) where
  written := h.written.append ds
  offset_le := h.offset_le
  least m hm hStart := by
    refine Nat.not_lt.mp fun hLess => ?_
    have hStop := hm.stop_le_stop (h.written.append ds) (Nat.le_of_lt hLess)
    have hWithin := hm.of_append (Nat.le_trans hStop h.written.stop_le_length)
    exact Nat.not_lt.mpr (h.least m hWithin hStart) hLess

theorem shift {ds : List Char} (h : l.FirstFrom offset ds) (cs : List Char) :
    (l.shift cs.length).FirstFrom (offset + cs.length) (cs ++ ds) where
  written := WrittenIn.shift_iff.mpr h.written
  offset_le := Nat.add_le_add_right h.offset_le _
  least m hm hStart := by
    obtain ⟨k, hk, rfl⟩ := hm.exists_shift (Nat.le_trans (Nat.le_add_left _ _) hStart)
    exact Nat.add_le_add_right (h.least k hk (Nat.le_of_add_le_add_right hStart)) _

end FirstFrom

end Literal

namespace Enumeration

variable {cs ds : List Char} {offset place : Nat} {ls ms : List Literal}

theorem append (h : Enumeration cs offset ls) (ds : List Char) :
    ∃ ms, Enumeration (cs ++ ds) offset (ls ++ ms) ∧ ∀ m ∈ ms, cs.length < m.stop := by
  induction h with
  | @done offset none_left =>
    have hAll := Cursor.enumeration_behind (cs ++ ds) offset
    refine ⟨_, hAll, fun m hm => Nat.not_le.mp fun hStop => ?_⟩
    have hWithin := (hAll.written m hm).of_append hStop
    exact absurd (hAll.offset_le_start m hm) (Nat.not_le.mpr (none_left m hWithin))
  | next first _ ih =>
    obtain ⟨ms, hAll, hStop⟩ := ih
    exact ⟨ms, .next (first.append ds) hAll, hStop⟩

theorem shift (h : Enumeration ds offset ls) (cs : List Char) :
    Enumeration (cs ++ ds) (offset + cs.length) (ls.map (Literal.shift cs.length)) := by
  induction h with
  | @done offset none_left =>
    refine .done fun l hl => Nat.not_le.mp fun hStart => ?_
    obtain ⟨m, hm, rfl⟩ := hl.exists_shift (Nat.le_trans (Nat.le_add_left _ _) hStart)
    exact absurd (Nat.le_of_add_le_add_right hStart) (Nat.not_le.mpr (none_left m hm))
  | next first _ ih => exact .next (first.shift cs) ih

theorem of_append (h : Enumeration cs offset (ls ++ ms)) :
    ∃ place, Enumeration cs place ms ∧ (place = offset ∨ ∃ l ∈ ls, place = l.stop) := by
  induction ls generalizing offset with
  | nil => exact ⟨offset, h, Or.inl rfl⟩
  | cons l ls ih =>
    cases h with
    | next first rest =>
      obtain ⟨place, hLater, rfl | ⟨k, hk, rfl⟩⟩ := ih rest
      · exact ⟨_, hLater, Or.inr ⟨l, List.mem_cons_self, rfl⟩⟩
      · exact ⟨_, hLater, Or.inr ⟨k, List.mem_cons_of_mem _ hk, rfl⟩⟩

/-- Places may be left out in front of an enumeration where none of its literals starts. -/
theorem advance (h : Enumeration cs offset ls) (hOffset : offset ≤ place)
    (hStart : ∀ l ∈ ls, place ≤ l.start) : Enumeration cs place ls := by
  cases h with
  | done none_left => exact .done fun l hl => Nat.lt_of_lt_of_le (none_left l hl) hOffset
  | next first rest =>
    refine .next ⟨first.written, hStart _ List.mem_cons_self, fun m hm hPlace => ?_⟩ rest
    exact first.least m hm (Nat.le_trans hOffset hPlace)

theorem eq_append_shift {all : List Literal} (hFirst : Enumeration cs 0 ls)
    (hSecond : Enumeration ds 0 ms) (hAll : Enumeration (cs ++ ds) 0 all)
    (hClear : ∀ l ∈ all, ¬ l.Straddles cs.length) :
    all = ls ++ ms.map (Literal.shift cs.length) := by
  obtain ⟨rest, hJoined, hStop⟩ := hFirst.append ds
  obtain rfl := hAll.unique hJoined
  obtain ⟨place, hRest, hPlace⟩ := hJoined.of_append
  have hSeam : place ≤ cs.length := by
    rcases hPlace with rfl | ⟨l, hl, rfl⟩
    · exact Nat.zero_le _
    · exact (hFirst.written l hl).stop_le_length
  have hStart : ∀ l ∈ rest, cs.length ≤ l.start := by
    intro l hl
    refine Nat.not_lt.mp fun hLess => hClear l (List.mem_append_right _ hl) ?_
    exact ⟨hLess, hStop l hl⟩
  have hShifted : Enumeration (cs ++ ds) cs.length (ms.map (Literal.shift cs.length)) := by
    simpa using hSecond.shift cs
  rw [(hRest.advance hSeam hStart).unique hShifted]

end Enumeration

theorem literals_prefix_append (a b : String) :
    ∃ ms, literals (a ++ b) = literals a ++ ms ∧ ∀ m ∈ ms, a.length < m.stop := by
  obtain ⟨ms, hAll, hStop⟩ := (enumeration_literals a).append b.toList
  rw [← String.toList_append] at hAll
  rw [String.length_toList] at hStop
  exact ⟨ms, (enumeration_literals (a ++ b)).unique hAll, hStop⟩

theorem literals_append {a b : String}
    (h : ∀ l ∈ literals (a ++ b), ¬ l.Straddles a.length) :
    literals (a ++ b) = literals a ++ (literals b).map (Literal.shift a.length) := by
  have hAll := enumeration_literals (a ++ b)
  rw [String.toList_append] at hAll
  rw [← String.length_toList] at h ⊢
  exact (enumeration_literals a).eq_append_shift (enumeration_literals b) hAll h

/-- The literals of a joined text are those of its parts exactly if none reaches over the seam. -/
theorem literals_append_iff (a b : String) :
    literals (a ++ b) = literals a ++ (literals b).map (Literal.shift a.length) ↔
      ∀ l ∈ literals (a ++ b), ¬ (l.start < a.length ∧ a.length < l.stop) := by
  refine ⟨fun h l hl hSeam => ?_, literals_append⟩
  rw [h, List.mem_append, List.mem_map] at hl
  rcases hl with hFirst | ⟨m, _, rfl⟩
  · have hStop := ((enumeration_literals a).written l hFirst).stop_le_length
    rw [String.length_toList] at hStop
    exact absurd hSeam.2 (Nat.not_lt.mpr hStop)
  · exact absurd hSeam.1 (Nat.not_lt.mpr (Nat.le_add_left _ _))

end LiteralLint
