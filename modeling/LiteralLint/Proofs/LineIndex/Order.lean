import LiteralLint.Proofs.LineIndex.Exactness
import LiteralLint.Proofs.Traversal
import LiteralLint.Text.Split
import Mathlib.Data.Set.Function
import Mathlib.Order.Interval.Set.Defs

/-! # Offsets and positions

The places of a text can be counted through or be told by line and character. Both ways order them
alike, and every pair of a line and a character that is not beyond the line's end tells one place.
-/

set_option autoImplicit false

namespace LiteralLint

namespace Position

/-- The position is on a line of the text and not beyond its end, where the line feed stands. -/
structure LiesIn (p : Position) (cs : List Char) : Prop where
  line_le : p.line ≤ cs.count '\n'
  character_le : p.character ≤ ((Text.split '\n' cs).getD p.line []).length

variable {p : Position} {cs : List Char}

theorem liesIn_nil_iff : p.LiesIn [] ↔ p = ⟨0, 0⟩ := by
  constructor
  · rintro ⟨hLine, hCharacter⟩
    obtain ⟨line, character⟩ := p
    obtain rfl : line = 0 := Nat.le_zero.mp hLine
    obtain rfl : character = 0 := Nat.le_zero.mp hCharacter
    rfl
  · rintro rfl
    exact ⟨Nat.le_refl 0, Nat.le_refl 0⟩

theorem liesIn_feed_cons_iff :
    p.LiesIn ('\n' :: cs) ↔
      p = ⟨0, 0⟩ ∨ ∃ q : Position, q.LiesIn cs ∧ p = q.relocate (behind ['\n']) := by
  obtain ⟨line, character⟩ := p
  have hDown (q : Position) : q.relocate (behind ['\n']) = ⟨q.line + 1, q.character⟩ := by
    simp [relocate, behind]
  simp only [hDown]
  constructor
  · rintro ⟨hLine, hCharacter⟩
    cases line with
    | zero => left; simp_all [Text.split]
    | succ line => exact Or.inr ⟨⟨line, character⟩, ⟨by simpa using hLine, hCharacter⟩, rfl⟩
  · rintro (hOrigin | ⟨q, ⟨hLine, hCharacter⟩, hDown⟩)
    · cases hOrigin
      exact ⟨Nat.zero_le _, Nat.zero_le _⟩
    · cases hDown
      exact ⟨by simpa using hLine, hCharacter⟩

theorem liesIn_cons_iff_of_ne {c : Char} (hFeed : c ≠ '\n') :
    p.LiesIn (c :: cs) ↔
      p = ⟨0, 0⟩ ∨ ∃ q : Position, q.LiesIn cs ∧ p = q.relocate (behind [c]) := by
  obtain ⟨line, character⟩ := p
  obtain ⟨first, lines, hLines⟩ := List.exists_cons_of_ne_nil (Text.split_ne_nil '\n' cs)
  have hSplit : Text.split '\n' (c :: cs) = (c :: first) :: lines := by
    simp [Text.split, hFeed, hLines]
  have hCount : (c :: cs).count '\n' = cs.count '\n' := List.count_cons_of_ne hFeed
  have hRight (q : Position) : q.relocate (behind [c]) =
      ⟨q.line, q.character + if q.line = 0 then 1 else 0⟩ := by
    simp [relocate, behind, hFeed]
  simp only [hRight]
  constructor
  · rintro ⟨hLine, hCharacter⟩
    rw [hCount] at hLine
    rw [hSplit] at hCharacter
    cases line with
    | zero =>
      cases character with
      | zero => exact Or.inl rfl
      | succ character =>
        refine Or.inr ⟨⟨0, character⟩, ⟨Nat.zero_le _, ?_⟩, rfl⟩
        rw [hLines]
        exact Nat.le_of_succ_le_succ hCharacter
    | succ line =>
      refine Or.inr ⟨⟨line + 1, character⟩, ⟨hLine, ?_⟩, rfl⟩
      rw [hLines]
      exact hCharacter
  · rintro (hOrigin | ⟨⟨l, k⟩, ⟨hLine, hCharacter⟩, hRight⟩)
    · cases hOrigin
      exact ⟨Nat.zero_le _, Nat.zero_le _⟩
    · cases hRight
      rw [hLines] at hCharacter
      refine ⟨hCount ▸ hLine, ?_⟩
      rw [hSplit]
      cases l with
      | zero => exact Nat.succ_le_succ hCharacter
      | succ l => exact hCharacter

theorem liesIn_cons_iff (c : Char) :
    p.LiesIn (c :: cs) ↔
      p = ⟨0, 0⟩ ∨ ∃ q : Position, q.LiesIn cs ∧ p = q.relocate (behind [c]) := by
  by_cases hFeed : c = '\n'
  · subst hFeed
    exact liesIn_feed_cons_iff
  · exact liesIn_cons_iff_of_ne hFeed

theorem liesIn_iff : p.LiesIn cs ↔ ∃ n ≤ cs.length, behind (cs.take n) = p := by
  induction cs generalizing p with
  | nil =>
    rw [liesIn_nil_iff]
    simp [behind, eq_comm]
  | cons c cs ih =>
    have hCons (ds : List Char) : behind (c :: ds) = (behind ds).relocate (behind [c]) :=
      behind_append [c] ds
    rw [liesIn_cons_iff]
    constructor
    · rintro (rfl | ⟨q, hq, rfl⟩)
      · exact ⟨0, Nat.zero_le _, rfl⟩
      · obtain ⟨n, hn, rfl⟩ := ih.mp hq
        exact ⟨n + 1, Nat.succ_le_succ hn, hCons _⟩
    · rintro ⟨n, hn, rfl⟩
      cases n with
      | zero => exact Or.inl rfl
      | succ n => exact Or.inr ⟨_, ih.mpr ⟨n, Nat.le_of_succ_le_succ hn, rfl⟩, hCons _⟩

theorem behind_take_lt_iff {m n : Nat} (hn : n ≤ cs.length) :
    behind (cs.take m) < behind (cs.take n) ↔ m < n := by
  refine ⟨fun h => Nat.not_le.mp fun hLe => ?_, fun h => behind_take_lt h hn⟩
  exact not_lt_of_le ((behind_take_le_iff hn).mpr hLe) h

theorem behind_take_inj {m n : Nat} (hm : m ≤ cs.length) (hn : n ≤ cs.length)
    (h : behind (cs.take m) = behind (cs.take n)) : m = n := by
  apply Nat.le_antisymm
  · exact (behind_take_le_iff hm).mp (Or.inr h)
  · exact (behind_take_le_iff hn).mp (Or.inr h.symm)

end Position

namespace LineIndex

variable {index : LineIndex} {cs : List Char} {a b : Nat}

theorem Describes.mapsTo_position (h : index.Describes cs) :
    Set.MapsTo index.position (Set.Iic cs.length) (Except.ok '' {p | p.LiesIn cs}) := by
  intro offset hOffset
  exact ⟨_, Position.liesIn_iff.mpr ⟨offset, hOffset, rfl⟩, (h.position_eq hOffset).symm⟩

theorem Describes.injOn_position (h : index.Describes cs) :
    Set.InjOn index.position (Set.Iic cs.length) := by
  intro a ha b hb hSame
  rw [h.position_eq ha, h.position_eq hb] at hSame
  exact Position.behind_take_inj ha hb (Except.ok.inj hSame)

theorem Describes.surjOn_position (h : index.Describes cs) :
    Set.SurjOn index.position (Set.Iic cs.length) (Except.ok '' {p | p.LiesIn cs}) := by
  rintro _ ⟨p, hp, rfl⟩
  obtain ⟨offset, hOffset, rfl⟩ := Position.liesIn_iff.mp hp
  exact ⟨offset, hOffset, h.position_eq hOffset⟩

theorem range_eq_ok_iff {r : Range} :
    index.range a b = .ok r ↔ index.position a = .ok r.start ∧ index.position b = .ok r.stop := by
  constructor
  · intro h
    obtain ⟨p, hFirst, h⟩ := bind_eq_ok h
    obtain ⟨q, hLast, h⟩ := bind_eq_ok h
    cases h
    exact ⟨hFirst, hLast⟩
  · rintro ⟨hFirst, hLast⟩
    rw [range, hFirst, hLast]
    rfl

theorem exists_range_of_le (ha : a ≤ index.length) (hb : b ≤ index.length) :
    ∃ r, index.range a b = .ok r := by
  obtain ⟨p, hp⟩ := exists_position_of_le ha
  obtain ⟨q, hq⟩ := exists_position_of_le hb
  exact ⟨⟨p, q⟩, range_eq_ok_iff.mpr ⟨hp, hq⟩⟩

theorem range_of_beyond (hBeyond : ¬ (a ≤ index.length ∧ b ≤ index.length)) :
    index.range a b = .error ⟨if index.length < a then a else b, index.length⟩ := by
  by_cases ha : index.length < a
  · rw [range, position_of_lt ha, if_pos ha]
    rfl
  · obtain ⟨p, hp⟩ := exists_position_of_le (Nat.not_lt.mp ha)
    have hb : index.length < b := by omega
    rw [range, hp, position_of_lt hb, if_neg ha]
    rfl

theorem range_eq_error_iff {e : OffsetOutOfBounds} :
    index.range a b = .error e ↔ ¬ (a ≤ index.length ∧ b ≤ index.length) ∧
      e = ⟨if index.length < a then a else b, index.length⟩ := by
  by_cases hWithin : a ≤ index.length ∧ b ≤ index.length
  · obtain ⟨r, hr⟩ := exists_range_of_le hWithin.1 hWithin.2
    rw [hr]
    exact iff_of_false (by rintro ⟨⟩) fun h => h.1 hWithin
  · rw [range_of_beyond hWithin, Except.error.injEq]
    exact ⟨fun h => ⟨hWithin, h.symm⟩, fun h => h.2.symm⟩

theorem Describes.range_eq_error (h : index.Describes cs)
    (hBeyond : ¬ (a ≤ cs.length ∧ b ≤ cs.length)) :
    index.range a b = .error ⟨if cs.length < a then a else b, cs.length⟩ := by
  rw [← h.length_eq] at hBeyond ⊢
  exact range_of_beyond hBeyond

/-- Looking up is one-to-one from the offsets of a text onto the positions on its lines, and keeps
their order. So a range of two offsets is proper if they are in order, and then on one line if no
line feed stands between them. -/
theorem position_order (text : String) :
    Set.BijOn (ofText text).position (Set.Iic text.length)
      (Except.ok '' {p | p.LiesIn text.toList}) ∧
    (∀ a ≤ text.length, ∀ b ≤ text.length, ∃ p q, (ofText text).position a = .ok p ∧
      (ofText text).position b = .ok q ∧ (a < b ↔ p < q)) ∧
    (∀ a ≤ text.length, ∀ b ≤ text.length, ∃ r, (ofText text).range a b = .ok r ∧
      (r.start ≤ r.stop ↔ a ≤ b) ∧
      (a ≤ b → (r.isSingleLine = true ↔ '\n' ∉ (text.toList.drop a).take (b - a)))) ∧
    ∀ a b, ¬ (a ≤ text.length ∧ b ≤ text.length) →
      (ofText text).range a b = .error ⟨if a > text.length then a else b, text.length⟩ := by
  have h := ofText_describes text
  rw [← String.length_toList]
  refine ⟨⟨h.mapsTo_position, h.injOn_position, h.surjOn_position⟩, ?_, ?_, ?_⟩
  · intro a ha b hb
    exact ⟨_, _, h.position_eq ha, h.position_eq hb, (Position.behind_take_lt_iff hb).symm⟩
  · intro a ha b hb
    refine ⟨_, h.range_eq ha hb, Position.behind_take_le_iff ha, fun hLe => ?_⟩
    rw [Range.isSingleLine, beq_iff_eq]
    exact Position.line_behind_take_eq_iff hLe
  · intro a b hBeyond
    exact h.range_eq_error hBeyond

example : (ofText "ab\n\nc").range 5 2 = .ok ⟨⟨2, 1⟩, ⟨0, 2⟩⟩ := by cbv

end LineIndex

end LiteralLint
