import LiteralLint.LineIndex
import LiteralLint.Proofs.Position.Counting

/-! # The line index is exact

An index built from a text holds the offset at which each of its lines begins, and the positions it
gives are the ones counted from the text. -/

set_option autoImplicit false

namespace LiteralLint

theorem bisect_eq {entries : Array Nat} {p : Nat → Bool} {lo hi place : Nat} (hLo : lo ≤ place)
    (hHi : place ≤ hi) (hSize : hi ≤ entries.size)
    (hPlace : ∀ i entry, entries[i]? = some entry → (p entry = true ↔ i < place)) :
    bisect entries p lo hi = place := by
  fun_induction bisect entries p lo hi with
  | case1 lo hi hLess mid entry hEntry hHolds ih =>
    exact ih ((hPlace mid entry hEntry).mp hHolds) hHi hSize
  | case2 lo hi hLess mid entry hEntry hFails ih =>
    have hMid := Nat.not_lt.mp (mt (hPlace mid entry hEntry).mpr hFails)
    exact ih hLo hMid (by omega)
  | case3 lo hi hLess mid hEntry ih =>
    have hMid := Array.getElem?_eq_none_iff.mp hEntry
    omega
  | case4 lo hi hNotLess => omega

namespace LineIndex

theorem position_of_lt {index : LineIndex} {offset : Nat} (h : index.length < offset) :
    index.position offset = .error ⟨offset, index.length⟩ := by
  rw [position, if_pos h]

theorem exists_position_of_le {index : LineIndex} {offset : Nat} (h : offset ≤ index.length) :
    ∃ p, index.position offset = .ok p := by
  rw [position, if_neg (Nat.not_lt.mpr h)]
  exact ⟨_, rfl⟩

/-- The offset is the first one on the line, where lines are counted in the text itself. -/
structure Begins (cs : List Char) (line start : Nat) : Prop where
  start_le : start ≤ cs.length
  behind_eq : Position.behind (cs.take start) = ⟨line, 0⟩

theorem Begins.append {cs : List Char} {line start : Nat} (h : Begins cs line start)
    (ds : List Char) : Begins (cs ++ ds) line start where
  start_le := by
    rw [List.length_append]
    exact Nat.le_add_right_of_le h.start_le
  behind_eq := by
    rw [List.take_append_of_le_length h.start_le]
    exact h.behind_eq

theorem begins_behind_feed (cs : List Char) :
    Begins (cs ++ ['\n']) (cs.count '\n' + 1) (cs.length + 1) where
  start_le := by simp
  behind_eq := by
    rw [List.take_of_length_le (by simp), Position.behind_concat, if_pos rfl]
    rfl

/-- The invariant of building an index: one entry for each line, the first offset on it. -/
structure Describes (index : LineIndex) (cs : List Char) : Prop where
  length_eq : index.length = cs.length
  size_eq : index.starts.size = cs.count '\n' + 1
  begins : ∀ line start : Nat, index.starts[line]? = some start → Begins cs line start

theorem empty_describes : empty.Describes [] where
  length_eq := rfl
  size_eq := rfl
  begins line start h := by
    cases line with
    | zero =>
      cases h
      exact ⟨Nat.le_refl 0, rfl⟩
    | succ line => cases h

theorem Describes.push {index : LineIndex} {cs : List Char} (h : index.Describes cs) (c : Char) :
    (index.push c).Describes (cs ++ [c]) := by
  have hLength : (index.push c).length = (cs ++ [c]).length := by
    rw [List.length_append, ← h.length_eq]
    rfl
  by_cases hFeed : c = '\n'
  · have hStarts : (index.push c).starts = index.starts.push (cs.length + 1) := by
      simp only [LineIndex.push, if_pos hFeed, h.length_eq]
    subst hFeed
    refine ⟨hLength, by simp [hStarts, h.size_eq], fun line start hStart => ?_⟩
    rw [hStarts, Array.getElem?_push] at hStart
    split at hStart
    · rename_i hLine
      cases hStart
      rw [hLine, h.size_eq]
      exact begins_behind_feed cs
    · exact (h.begins line start hStart).append _
  · have hStarts : (index.push c).starts = index.starts := by
      simp only [LineIndex.push, if_neg hFeed]
    refine ⟨hLength, by simp [hStarts, hFeed, h.size_eq], fun line start hStart => ?_⟩
    exact (h.begins line start (hStarts ▸ hStart)).append _

theorem ofChars_describes (cs : List Char) : (ofChars cs).Describes cs := by
  induction cs using List.reverseRecOn with
  | nil => exact empty_describes
  | append_singleton cs c ih =>
    rw [ofChars, List.foldl_append]
    exact ih.push c

namespace Describes

variable {index : LineIndex} {cs : List Char} {line start offset : Nat}

theorem start_le_iff (h : index.Describes cs) (hStart : index.starts[line]? = some start) :
    start ≤ offset ↔ line ≤ (Position.behind (cs.take offset)).line := by
  have hBegins := h.begins line start hStart
  rw [← Position.behind_take_le_iff hBegins.start_le, hBegins.behind_eq, Position.le_iff]
  simp only
  omega

theorem bisect_eq_succ (h : index.Describes cs) (offset : Nat) :
    bisect index.starts (· ≤ offset) 0 index.starts.size =
      (Position.behind (cs.take offset)).line + 1 := by
  apply bisect_eq (Nat.zero_le _) _ (Nat.le_refl _)
  · intro line start hStart
    rw [decide_eq_true_iff, h.start_le_iff hStart, Nat.lt_succ_iff]
  · rw [h.size_eq]
    exact Nat.succ_le_succ (Position.line_behind_take_le cs offset)

theorem exists_start (h : index.Describes cs) (offset : Nat) :
    ∃ start, index.starts[(Position.behind (cs.take offset)).line]? = some start ∧
      start ≤ offset := by
  have hLine : (Position.behind (cs.take offset)).line < index.starts.size := by
    rw [h.size_eq]
    exact Nat.lt_succ_of_le (Position.line_behind_take_le cs offset)
  have hStart := Array.getElem?_eq_getElem hLine
  exact ⟨_, hStart, (h.start_le_iff hStart).mpr (Nat.le_refl _)⟩

theorem character_eq (h : index.Describes cs) (hOffset : offset ≤ cs.length)
    (hStart : index.starts[(Position.behind (cs.take offset)).line]? = some start) :
    (Position.behind (cs.take offset)).character = offset - start := by
  have hBegins := h.begins _ start hStart
  have hLe : start ≤ offset := (h.start_le_iff hStart).mpr (Nat.le_refl _)
  have hPlain : '\n' ∉ (cs.drop start).take (offset - start) := by
    rw [← Position.line_behind_take_eq_iff hLe, hBegins.behind_eq]
  rw [Position.take_eq_append hLe, Position.character_behind_append hPlain, hBegins.behind_eq,
    List.length_take, List.length_drop, Nat.min_eq_left (Nat.sub_le_sub_right hOffset start),
    Nat.zero_add]

theorem position_eq (h : index.Describes cs) (hOffset : offset ≤ cs.length) :
    index.position offset = .ok (Position.behind (cs.take offset)) := by
  obtain ⟨start, hStart, _⟩ := h.exists_start offset
  have hWithin : ¬ offset > index.length := by
    rw [h.length_eq]
    exact Nat.not_lt.mpr hOffset
  have hEntry : index.starts.getD (Position.behind (cs.take offset)).line 0 = start := by
    rw [Array.getD_eq_getD_getElem?, hStart, Option.getD_some]
  rw [position, if_neg hWithin, h.bisect_eq_succ, Nat.add_sub_cancel]
  simp only [hEntry, ← h.character_eq hOffset hStart]

theorem first_eq (h : index.Describes cs) : index.starts[0]? = some 0 := by
  obtain ⟨start, hStart, hLe⟩ := h.exists_start 0
  rw [Nat.le_zero.mp hLe] at hStart
  exact hStart

theorem position_eq_error (h : index.Describes cs) (hOffset : cs.length < offset) :
    index.position offset = .error ⟨offset, cs.length⟩ := by
  rw [← h.length_eq] at hOffset ⊢
  exact position_of_lt hOffset

theorem range_eq (h : index.Describes cs) {stop : Nat} (hStart : start ≤ cs.length)
    (hStop : stop ≤ cs.length) :
    index.range start stop =
      .ok ⟨Position.behind (cs.take start), Position.behind (cs.take stop)⟩ := by
  rw [range, h.position_eq hStart, h.position_eq hStop]
  rfl

theorem starts_increasing (h : index.Describes cs) : index.starts.toList.Pairwise (· < ·) := by
  rw [List.pairwise_iff_getElem]
  intro i j hi hj hLess
  have hFirst := h.begins i _ (Array.getElem?_eq_getElem (Array.length_toList ▸ hi))
  have hSecond := h.begins j _ (Array.getElem?_eq_getElem (Array.length_toList ▸ hj))
  refine Nat.not_le.mp fun hLe => ?_
  have hOrder : Position.behind (cs.take _) ≤ Position.behind (cs.take _) :=
    Position.behind_take_le hLe
  rw [Array.getElem_toList, Array.getElem_toList, hFirst.behind_eq, hSecond.behind_eq] at hOrder
  exact absurd (Position.line_le_of_le hOrder) (Nat.not_le.mpr hLess)

end Describes

theorem ofChars_congr {cs ds : List Char} (h : cs.map (· == '\n') = ds.map (· == '\n')) :
    ofChars cs = ofChars ds := by
  suffices hFold : ∀ index : LineIndex, cs.foldl push index = ds.foldl push index from hFold empty
  induction cs generalizing ds with
  | nil =>
    rw [List.map_nil, eq_comm, List.map_eq_nil_iff] at h
    simp [h]
  | cons c cs ih =>
    cases ds with
    | nil => simp at h
    | cons d ds =>
      simp only [List.map_cons, List.cons.injEq] at h
      have hFeed : c = '\n' ↔ d = '\n' := by
        rw [← beq_iff_eq, h.1, beq_iff_eq]
      intro index
      have hPush : index.push c = index.push d := by simp only [push, hFeed]
      rw [List.foldl_cons, List.foldl_cons, hPush]
      exact ih h.2 _

theorem ofText_describes (text : String) : (ofText text).Describes text.toList :=
  ofChars_describes text.toList

/-- Looking an offset up gives the position counted from the text, and fails beyond its end. The
entries are as a partition point and two subtractions need them to be. A carriage return counts
like any character but a line feed. -/
theorem ofText_exact (text : String) :
    (∀ offset, (ofText text).position offset =
      if offset ≤ text.length then .ok (Position.behind (text.toList.take offset))
      else .error ⟨offset, text.length⟩) ∧
    (ofText text).starts[0]? = some 0 ∧
    (ofText text).starts.toList.Pairwise (· < ·) ∧
    (ofText text).starts.size = text.toList.count '\n' + 1 ∧
    (∀ start ∈ (ofText text).starts, start ≤ text.length) ∧
    (∀ offset, ∃ line start : Nat,
      bisect (ofText text).starts (· ≤ offset) 0 (ofText text).starts.size = line + 1 ∧
      (ofText text).starts[line]? = some start ∧ start ≤ offset) ∧
    ∀ c, c ≠ '\n' →
      ofChars (text.toList.map fun d => if d = '\r' then c else d) = ofText text := by
  have h := ofText_describes text
  refine ⟨fun offset => ?_, h.first_eq, h.starts_increasing, h.size_eq, fun start hStart => ?_,
    fun offset => ?_, fun c hc => ofChars_congr ?_⟩
  · rw [← String.length_toList]
    split
    · exact h.position_eq ‹_›
    · exact h.position_eq_error (Nat.not_le.mp ‹_›)
  · obtain ⟨line, hLine⟩ := Array.mem_iff_getElem?.mp hStart
    exact (h.begins line start hLine).start_le
  · obtain ⟨start, hStart, hLe⟩ := h.exists_start offset
    exact ⟨_, start, h.bisect_eq_succ offset, hStart, hLe⟩
  · rw [List.map_map]
    refine List.map_congr_left fun d _ => ?_
    by_cases hReturn : d = '\r'
    · simp [hReturn, hc]
    · simp [hReturn]

example : (ofText "a\r\n\nb").position 3 = .ok ⟨1, 0⟩ := by cbv

end LineIndex

end LiteralLint
