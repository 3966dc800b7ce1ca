import LiteralLint.Proofs.Literal.Search

/-! # Stepping a cursor through a text

Calls of `next?` take a cursor from the beginning of a text to its last literal. After any number of
them the cursor stands between two characters of the text and counts what is before it, in
characters and in bytes. The literals found on the way are those of the text, in their order. -/

set_option autoImplicit false

namespace LiteralLint.Cursor

/-- The cursor stands between two characters of the text and counts those in front of it. -/
structure StandsIn (c : Cursor) (text : String) : Prop where
  byteOffset_le : c.byteOffset ≤ text.utf8ByteSize
  on_boundary : String.Pos.Raw.IsValid text ⟨c.byteOffset⟩
  counts : ∃ before, text.toList = before ++ c.rest ∧ c.charOffset = before.length ∧
    c.byteOffset = (String.ofList before).utf8ByteSize

theorem standsIn_behind (text : String) (n : Nat) (h : n ≤ text.toList.length) :
    (behind text.toList n).StandsIn text := by
  have hText : text = String.ofList (text.toList.take n) ++ String.ofList (text.toList.drop n) := by
    rw [← String.ofList_append, List.take_append_drop, String.ofList_toList]
  have hBytes : (behind text.toList n).byteOffset =
      (String.ofList (text.toList.take n)).utf8ByteSize := byteLength_eq _
  constructor
  · have hSize := congrArg String.utf8ByteSize hText
    rw [String.utf8ByteSize_append, ← hBytes] at hSize
    omega
  · refine String.Pos.Raw.isValid_iff_exists_append.mpr ⟨_, _, hText, ?_⟩
    rw [hBytes]
    rfl
  · refine ⟨text.toList.take n, ?_, ?_, hBytes⟩
    · exact (List.take_append_drop n text.toList).symm
    · rw [List.length_take_of_le h]
      rfl

/-- A literal found from a cursor on: what was read as its occurrence, with the next cursor right
behind it, is what the text has between its offsets. -/
structure Finds (c : Cursor) (text : String) (l : Literal) (next : Cursor) : Prop where
  matched : ∃ gap o, c.rest = gap ++ o.span ++ o.rest ∧
    Occurrence.read? (o.span ++ o.rest) = some o ∧ next.rest = o.rest ∧
    l.start = c.charOffset + gap.length ∧ l.stop = next.charOffset ∧
    l.spanIn text.toList = o.span ∧ l.value = String.ofList o.value
  spelled : ∃ front opening closing,
    l.spanIn text.toList = front ++ opening :: l.value.toList ++ [closing] ∧
    Occurrence.key <+: front ∧ isQuote opening = true ∧ isQuote closing = true ∧
    ∀ a ∈ l.value.toList, isQuote a = false
  nine_le : 9 ≤ l.stop - l.start
  stop_le : l.stop ≤ text.length
  byteOffset_lt : c.byteOffset < next.byteOffset

theorem exists_spelled {l : Literal} {cs : List Char} (h : l.WrittenIn cs) :
    ∃ front opening closing, l.spanIn cs = front ++ opening :: l.value.toList ++ [closing] ∧
      Occurrence.key <+: front ∧ isQuote opening = true ∧ isQuote closing = true ∧
      ∀ a ∈ l.value.toList, isQuote a = false := by
  obtain ⟨s, hSpan, hValue⟩ := h.exists_spanIn_eq
  have hPlain : l.value.toList = s.value := by rw [hValue, String.toList_ofList]
  refine ⟨Occurrence.key ++ s.keyGap ++ ':' :: s.valueGap, s.opening, s.closing, ?_, ?_, ?_, ?_, ?_⟩
  · rw [hSpan, hPlain]
    simp [Spelling.chars, Occurrence.key]
  · rw [List.append_assoc]
    exact List.prefix_append _ _
  · exact (isQuote_iff _).mpr s.opening_quote
  · exact (isQuote_iff _).mpr s.closing_quote
  · intro a ha
    rw [hPlain] at ha
    simpa [isQuote] using s.value_plain a ha

theorem byteOffset_behind_lt {cs : List Char} {m n : Nat} (hLess : m < n)
    (hLength : n ≤ cs.length) :
    (behind cs m).byteOffset < (behind cs n).byteOffset := by
  have hSplit : cs.take n = cs.take m ++ (cs.drop m).take (n - m) := by
    rw [← List.take_add, Nat.add_sub_cancel' (Nat.le_of_lt hLess)]
  have hBetween := length_le_byteLength ((cs.drop m).take (n - m))
  rw [List.length_take, List.length_drop] at hBetween
  change byteLength (cs.take m) < byteLength (cs.take n)
  rw [hSplit, byteLength_append]
  omega

theorem finds_behind {text : String} {n : Nat} {l : Literal} (h : l.FirstFrom n text.toList) :
    (behind text.toList n).Finds text l (behind text.toList l.stop) := by
  have hStart := h.offset_le
  have hOrder := h.written.start_lt_stop
  have hStop := h.written.stop_le_length
  obtain ⟨s, hSpan, hValue⟩ := h.written.exists_spanIn_eq
  have hFound : text.toList.drop l.start = s.chars ++ text.toList.drop l.stop := by
    rw [← hSpan, h.written.spanIn_append_drop]
  have hGap : (text.toList.drop n).take (l.start - n) ++ text.toList.drop l.start =
      text.toList.drop n := take_drop_append_drop hStart
  constructor
  · refine ⟨(text.toList.drop n).take (l.start - n), ⟨s.chars, s.value, text.toList.drop l.stop⟩,
      ?_, s.read?_chars_append _, rfl, ?_, rfl, hSpan, hValue⟩
    · rw [List.append_assoc, ← hFound]
      exact hGap.symm
    · rw [List.length_take, List.length_drop]
      change l.start = n + _
      omega
  · exact exists_spelled h.written
  · have hNine := h.written.start_add_nine_le_stop
    omega
  · rw [← String.length_toList]
    exact hStop
  · exact byteOffset_behind_lt (by omega) hStop

/-- The cursor after a call; where nothing is found it stays. -/
def advance (c : Cursor) : Cursor :=
  match c.next? with
  | some (_, next) => next
  | none => c

theorem advance_of_some {c next : Cursor} {l : Literal} (h : c.next? = some (l, next)) :
    c.advance = next := by
  simp only [advance, h]

theorem advance_of_none {c : Cursor} (h : c.next? = none) : c.advance = c := by
  simp only [advance, h]

def after (text : String) : Nat → Cursor
  | 0 => ofText text
  | n + 1 => (after text n).advance

theorem exists_behind_after (text : String) (n : Nat) :
    ∃ place ≤ text.toList.length, after text n = behind text.toList place := by
  induction n with
  | zero => exact ⟨0, Nat.zero_le _, rfl⟩
  | succ n ih =>
    obtain ⟨place, hPlace, hAfter⟩ := ih
    rw [after, hAfter]
    rcases next?_behind text.toList place with ⟨hNone, -⟩ | ⟨l, hFirst, hSome⟩
    · exact ⟨place, hPlace, advance_of_none hNone⟩
    · exact ⟨l.stop, hFirst.written.stop_le_length, advance_of_some hSome⟩

theorem standsIn_after (text : String) (n : Nat) : (after text n).StandsIn text := by
  obtain ⟨place, hPlace, hAfter⟩ := exists_behind_after text n
  rw [hAfter]
  exact standsIn_behind text place hPlace

theorem finds_after {text : String} {n : Nat} {l : Literal} {next : Cursor}
    (h : (after text n).next? = some (l, next)) : (after text n).Finds text l next := by
  obtain ⟨place, -, hAfter⟩ := exists_behind_after text n
  rw [hAfter] at h ⊢
  rcases next?_behind text.toList place with ⟨hNone, -⟩ | ⟨m, hFirst, hSome⟩
  · rw [hNone] at h
    cases h
  · rw [hSome] at h
    cases h
    exact finds_behind hFirst

theorem next?_eq_none_iff (c : Cursor) : c.next? = none ↔ c.literals = [] := by
  cases hNext : c.next? with
  | none => simp [literals_of_next?_none hNext]
  | some found => simp [literals_of_next?_some hNext]

theorem next?_map_fst (c : Cursor) : c.next?.map Prod.fst = c.literals.head? := by
  cases hNext : c.next? with
  | none => simp [literals_of_next?_none hNext]
  | some found => simp [literals_of_next?_some hNext]

theorem literals_advance (c : Cursor) : c.advance.literals = c.literals.tail := by
  cases hNext : c.next? with
  | none => simp [advance_of_none hNext, literals_of_next?_none hNext]
  | some found => simp [advance_of_some hNext, literals_of_next?_some hNext]

theorem literals_after (text : String) (n : Nat) :
    (after text n).literals = (LiteralLint.literals text).drop n := by
  induction n with
  | zero => rfl
  | succ n ih => rw [after, literals_advance, ih, List.tail_drop]

theorem next?_after_map_fst (text : String) (n : Nat) :
    (after text n).next?.map Prod.fst = (LiteralLint.literals text)[n]? := by
  rw [next?_map_fst, literals_after, List.head?_drop]

theorem getElem?_of_next?_after {text : String} {n : Nat} {l : Literal} {next : Cursor}
    (h : (after text n).next? = some (l, next)) : (LiteralLint.literals text)[n]? = some l := by
  rw [← next?_after_map_fst, h]
  rfl

theorem next?_after_eq_none_iff (text : String) (n : Nat) :
    (after text n).next? = none ↔ (LiteralLint.literals text).length ≤ n := by
  rw [next?_eq_none_iff, literals_after, List.drop_eq_nil_iff]

/-- What holds after any number of calls: where the cursor stands, what the next call finds and
where it then stands, and that a cursor without a literal has none ever after. -/
theorem after_exact (text : String) (n : Nat) :
    (after text n).StandsIn text ∧
    (after text n).next?.map Prod.fst = (LiteralLint.literals text)[n]? ∧
    (∀ l next, (after text n).next? = some (l, next) →
      next = after text (n + 1) ∧ (after text n).Finds text l next ∧
      ∀ m < n, ∀ k before, (after text m).next? = some (k, before) → k.stop ≤ l.start) ∧
    ((after text n).next? = none → ∀ m, n ≤ m → (after text m).next? = none) ∧
    2 * (LiteralLint.literals text).length ≤ text.toList.countP isQuote := by
  refine ⟨standsIn_after text n, next?_after_map_fst text n, ?_, ?_, ?_⟩
  · intro l next hNext
    refine ⟨(advance_of_some hNext).symm, finds_after hNext, ?_⟩
    intro m hLess k before hBefore
    obtain ⟨hn, hl⟩ := List.getElem?_eq_some_iff.mp (getElem?_of_next?_after hNext)
    obtain ⟨hm, hk⟩ := List.getElem?_eq_some_iff.mp (getElem?_of_next?_after hBefore)
    have hDisjoint := List.pairwise_iff_getElem.mp (enumeration_literals text).disjoint
    rw [← hl, ← hk]
    exact hDisjoint m n hm hn hLess
  · intro hNone m hLater
    rw [next?_after_eq_none_iff] at hNone ⊢
    omega
  · exact (enumeration_literals text).two_mul_length_le_countP

/-- The literal is behind a character of two bytes and holds one of three. -/
theorem after_exact_wideCharacters :
    (after "é, format: '€'" 1).StandsIn "é, format: '€'" ∧
    (after "é, format: '€'" 0).Finds "é, format: '€'" ⟨"€", 3, 14⟩ ⟨14, 17, []⟩ ∧
    ∀ m, 1 ≤ m → (after "é, format: '€'" m).next? = none := by
  have hFound : (after "é, format: '€'" 0).next? = some (⟨"€", 3, 14⟩, ⟨14, 17, []⟩) := by decide
  have hLast : (after "é, format: '€'" 1).next? = none := by decide
  obtain ⟨-, -, hFinds, -, -⟩ := after_exact "é, format: '€'" 0
  obtain ⟨hStands, -, -, hNone, -⟩ := after_exact "é, format: '€'" 1
  exact ⟨hStands, (hFinds _ _ hFound).2.1, hNone hLast⟩

end LiteralLint.Cursor
