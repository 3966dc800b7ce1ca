import LiteralLint.Proofs.Literal.Concatenation

/-! # Another value between the quotes

When a found literal gets another value, the search finds the same literals in front of it, the
literal with its new value, and behind it what was there before. A literal can reach into another
one that starts behind it, but not farther than to its opening quote, since a key begins with a
letter that stands nowhere else in front of a value. -/

set_option autoImplicit false

namespace LiteralLint

namespace Spelling

def front (s : Spelling) : List Char :=
  ['f', 'o', 'r', 'm', 'a', 't'] ++ s.keyGap ++ ':' :: s.valueGap

theorem chars_eq_front (s : Spelling) :
    s.chars = s.front ++ s.opening :: (s.value ++ [s.closing]) := by
  simp [chars, front]

theorem length_chars (s : Spelling) : s.chars.length = s.front.length + s.value.length + 2 := by
  simp only [chars_eq_front, List.length_append, List.length_cons, List.length_nil]
  omega

theorem exists_front_eq_cons (s : Spelling) : ∃ tail, s.front = 'f' :: tail ∧ 'f' ∉ tail := by
  have hBlank {gap : List Char} (h : ∀ c ∈ gap, isBlank c = true) : 'f' ∉ gap := by
    intro hMem
    exact absurd (h _ hMem) (by decide)
  refine ⟨['o', 'r', 'm', 'a', 't'] ++ s.keyGap ++ ':' :: s.valueGap, rfl, ?_⟩
  simp [hBlank s.keyGap_blank, hBlank s.valueGap_blank]

theorem isQuote_opening (s : Spelling) : isQuote s.opening = true :=
  (isQuote_iff _).mpr s.opening_quote

theorem not_isQuote_of_mem_front (s : Spelling) : ∀ c ∈ s.front, (!isQuote c) = true := by
  intro c hc
  have hNone : s.front.countP isQuote = 0 := by
    have hBody : s.body = s.front ++ s.opening :: s.value := by simp [body, front]
    have hCount := s.countP_isQuote_body
    rw [hBody, List.countP_append, List.countP_cons_of_pos s.isQuote_opening] at hCount
    omega
  rw [List.countP_eq_zero] at hNone
  simpa using hNone c hc

section

variable {s t : Spelling} {cs : List Char} {n : Nat}

theorem takeWhile_of_prefix (h : s.chars <+: cs) : cs.takeWhile (!isQuote ·) = s.front := by
  obtain ⟨rest, rfl⟩ := h
  rw [chars_eq_front, List.append_assoc, List.cons_append]
  exact takeWhile_run s.not_isQuote_of_mem_front (by simp [s.isQuote_opening])

theorem length_front_lt (ht : t.chars <+: cs) (hs : s.chars <+: cs.drop n) (hn : 0 < n) :
    t.front.length < n := by
  refine Nat.not_le.mp fun hLe => ?_
  have hFront : s.front = t.front.drop n := by
    obtain ⟨rest, rfl⟩ := ht
    rw [t.chars_eq_front, List.append_assoc, List.drop_append_of_le_length hLe] at hs
    rw [← takeWhile_of_prefix hs, List.cons_append]
    refine takeWhile_run (fun c hc => ?_) (by simp [t.isQuote_opening])
    exact t.not_isQuote_of_mem_front c (List.mem_of_mem_drop hc)
  obtain ⟨tail, hTail, hNot⟩ := t.exists_front_eq_cons
  obtain ⟨other, hOther, -⟩ := s.exists_front_eq_cons
  obtain ⟨k, rfl⟩ := Nat.exists_eq_add_of_lt hn
  rw [hTail, hOther, Nat.zero_add, List.drop_succ_cons] at hFront
  exact hNot (List.mem_of_mem_drop (hFront ▸ List.mem_cons_self))

theorem countP_take_pos (h : s.chars <+: cs) (hn : s.front.length < n) :
    0 < (cs.take n).countP isQuote := by
  have hOpening : s.front ++ [s.opening] <+: cs.take n := by
    rw [List.prefix_take_iff]
    refine ⟨List.IsPrefix.trans ⟨s.value ++ [s.closing], ?_⟩ h, by simp; omega⟩
    rw [chars_eq_front, List.append_assoc, List.singleton_append]
  refine Nat.lt_of_lt_of_le ?_ hOpening.sublist.countP_le
  rw [List.countP_append, List.countP_singleton, if_pos s.isQuote_opening]
  exact Nat.succ_pos _

theorem length_le_opening (ht : t.chars <+: cs) (hs : s.chars <+: cs.drop n) (hn : 0 < n) :
    t.chars.length ≤ n + (s.front.length + 1) := by
  refine Nat.not_lt.mp fun hLess => ?_
  have hFirst := countP_take_pos ht (length_front_lt ht hs hn)
  have hSecond := countP_take_pos hs (Nat.lt_add_one _)
  have hBody : cs.take (n + (s.front.length + 1)) <+: t.body := by
    have hTake : t.body <+: cs := List.IsPrefix.trans ⟨[t.closing], rfl⟩ ht
    refine List.prefix_of_prefix_length_le (List.take_prefix _ _) hTake ?_
    rw [chars_eq, List.length_append, List.length_singleton] at hLess
    rw [List.length_take]
    omega
  have hCount := hBody.sublist.countP_le (p := isQuote)
  rw [List.take_add, List.countP_append, countP_isQuote_body] at hCount
  omega

end

end Spelling

namespace Literal

def valueStart (l : Literal) : Nat := l.stop - 1 - l.value.length

variable {cs : List Char} {l m : Literal}

theorem WrittenIn.stop_le_valueStart (hl : l.WrittenIn cs) (hm : m.WrittenIn cs)
    (h : l.start < m.start) : l.stop ≤ m.valueStart := by
  obtain ⟨t, ht, -, hlStop⟩ := hl
  obtain ⟨s, hs, hValue, hmStop⟩ := hm
  obtain ⟨n, hn⟩ := Nat.exists_eq_add_of_lt h
  rw [hn, Nat.add_assoc, ← List.drop_drop] at hs
  have hWithin := Spelling.length_le_opening ht hs (Nat.succ_pos n)
  rw [s.length_chars] at hmStop
  rw [valueStart, hValue, String.length_ofList]
  omega

end Literal

namespace Enumeration

variable {cs ds : List Char} {l m : Literal} {ls ms : List Literal} {offset : Nat}

theorem before_seam (h : Enumeration (cs ++ ds) offset (ls ++ ms))
    (hBefore : ∀ l ∈ ls, l.stop ≤ cs.length) (hBehind : ∀ l ∈ ms, cs.length ≤ l.start) :
    Enumeration cs offset ls := by
  induction ls generalizing offset with
  | nil =>
    refine .done fun l hl => Nat.not_le.mp fun hOffset => ?_
    have hOrder := hl.start_lt_stop
    have hWithin := hl.stop_le_length
    cases h with
    | done none_left => exact absurd hOffset (Nat.not_le.mpr (none_left l (hl.append ds)))
    | @next _ m ms first _ =>
      have hLeast := first.least l (hl.append ds) hOffset
      have hSeam := hBehind m List.mem_cons_self
      omega
  | cons l ls ih =>
    cases h with
    | next first rest =>
      rw [List.forall_mem_cons] at hBefore
      refine .next ⟨first.written.of_append hBefore.1, first.offset_le, fun k hk => ?_⟩
        (ih rest hBefore.2)
      exact first.least k (hk.append ds)

theorem behind_seam (h : Enumeration (cs ++ ds) offset ms) (hOffset : offset ≤ cs.length)
    (hBehind : ∀ l ∈ ms, cs.length ≤ l.start) :
    ∃ ns, Enumeration ds 0 ns ∧ ms = ns.map (Literal.shift cs.length) := by
  have hSecond := Cursor.enumeration_behind ds 0
  have hShifted := hSecond.shift cs
  rw [Nat.zero_add] at hShifted
  exact ⟨_, hSecond, (h.advance hOffset hBehind).unique hShifted⟩

theorem join (hFirst : Enumeration cs 0 (ls ++ [l])) (hStop : l.stop = cs.length)
    (hSecond : Enumeration ds 0 ms) :
    Enumeration (cs ++ ds) 0 (ls ++ l :: ms.map (Literal.shift cs.length)) := by
  obtain ⟨rest, hAll, -⟩ := hFirst.append ds
  have hClear : ∀ k ∈ ls ++ [l] ++ rest, ¬ k.Straddles cs.length := by
    rintro k hk ⟨hStart, hEnd⟩
    rcases List.mem_append.mp hk with hBefore | hBehind
    · exact absurd (hFirst.written k hBefore).stop_le_length (Nat.not_le.mpr hEnd)
    · have hOrder := (List.pairwise_append.mp hAll.disjoint).2.2 l (by simp) k hBehind
      omega
  rwa [hFirst.eq_append_shift hSecond hAll hClear, List.append_assoc] at hAll

/-- Nothing but the last literal of a text starts behind the others and ends behind that literal's
opening quote. -/
theorem concat (h : Enumeration cs 0 ls) (hl : l.WrittenIn (cs ++ ds))
    (hValue : l.valueStart = cs.length) (hStop : l.stop = (cs ++ ds).length)
    (hClear : ∀ k ∈ ls, k.stop ≤ l.start) : Enumeration (cs ++ ds) 0 (ls ++ [l]) := by
  obtain ⟨ms, hAll, hBehind⟩ := h.append ds
  obtain ⟨place, hRest, hPlace⟩ := hAll.of_append
  have hReach : place ≤ l.start := by
    rcases hPlace with rfl | ⟨k, hk, rfl⟩
    · exact Nat.zero_le _
    · exact hClear k hk
  cases hRest with
  | done none_left => exact absurd hReach (Nat.not_le.mpr (none_left l hl))
  | @next _ k ms first rest =>
    have hSame : k.start = l.start := by
      refine Nat.le_antisymm (first.least l hl hReach) (Nat.not_lt.mp fun hLess => ?_)
      have hEarly := first.written.stop_le_valueStart hl hLess
      have hLate := hBehind k List.mem_cons_self
      omega
    obtain rfl := first.written.eq_of_start_eq hl hSame
    cases rest with
    | done => exact hAll
    | next first =>
      have hOrder := first.written.start_lt_stop
      have hEnd := first.written.stop_le_length
      have hOffset := first.offset_le
      omega

theorem of_concat (h : Enumeration (cs ++ ds) 0 (ls ++ [l])) (hValue : l.valueStart = cs.length)
    (hStop : l.stop = (cs ++ ds).length) : Enumeration cs 0 ls := by
  have hl := h.written l (by simp)
  have hFront := Cursor.enumeration_behind cs 0
  obtain ⟨ms, hAll, -⟩ := hFront.append ds
  have hClear : ∀ k ∈ (Cursor.behind cs 0).literals, k.stop ≤ l.start := by
    intro k hk
    have hEnd := (hFront.written k hk).stop_le_length
    have hMem : k ∈ ls ++ [l] := hAll.unique h ▸ List.mem_append_left ms hk
    rcases List.mem_append.mp hMem with hBefore | hLast
    · exact (List.pairwise_append.mp h.disjoint).2.2 k hBefore l (by simp)
    · obtain rfl := List.mem_singleton.mp hLast
      have hLong := hl.start_add_nine_le_stop
      rw [Literal.valueStart] at hValue
      omega
  have hJoined := hFront.concat hl hValue hStop hClear
  rwa [List.append_cancel_right (hJoined.unique h)] at hFront

end Enumeration

theorem Spelling.valueStart_literalAt (s : Spelling) (n : Nat) :
    (s.literalAt n).valueStart = n + (s.front.length + 1) := by
  simp only [literalAt, Literal.valueStart, String.length_ofList, length_chars]
  omega

namespace Enumeration

variable {s : Spelling} {front back : List Char} {before after : List Literal}

theorem chars_eq_opened (s : Spelling) (front : List Char) :
    front ++ s.chars = (front ++ s.front ++ [s.opening]) ++ (s.value ++ [s.closing]) := by
  simp [s.chars_eq_front]

theorem valueStart_eq_opened (s : Spelling) (front : List Char) :
    (s.literalAt front.length).valueStart = (front ++ s.front ++ [s.opening]).length := by
  rw [s.valueStart_literalAt]
  simp

/-- A text has a literal at some place if that does not start within one before it. The literals
before it are those in front of its value, and those behind it are the ones of the rest. -/
theorem literalAt_iff :
    Enumeration (front ++ s.chars ++ back) 0 (before ++ s.literalAt front.length :: after) ↔
      Enumeration (front ++ s.front ++ [s.opening]) 0 before ∧
      (∀ l ∈ before, l.stop ≤ front.length) ∧
      ∃ ns, Enumeration back 0 ns ∧ after = ns.map (Literal.shift (front ++ s.chars).length) := by
  have hStop : (s.literalAt front.length).stop = (front ++ s.chars).length := by
    rw [List.length_append, Spelling.literalAt]
  have hWhole := congrArg List.length (chars_eq_opened s front)
  constructor
  · intro h
    obtain ⟨-, hOrder, hClear⟩ := List.pairwise_append.mp h.disjoint
    have hBefore : ∀ l ∈ before, l.stop ≤ front.length :=
      fun l hl => hClear l hl _ List.mem_cons_self
    have hBehind : ∀ l ∈ after, (front ++ s.chars).length ≤ l.start := by
      rw [← hStop]
      exact (List.pairwise_cons.mp hOrder).1
    rw [List.append_cons] at h
    have hUpTo : ∀ l ∈ before ++ [s.literalAt front.length],
        l.stop ≤ (front ++ s.chars).length := by
      rw [List.forall_mem_append, List.forall_mem_singleton, hStop, List.length_append]
      exact ⟨fun l hl => Nat.le_add_right_of_le (hBefore l hl), Nat.le_refl _⟩
    have hFirst := h.before_seam hUpTo hBehind
    rw [chars_eq_opened] at hFirst
    obtain ⟨place, hRest, hPlace⟩ := h.of_append
    have hReach : place ≤ (front ++ s.chars).length := by
      rcases hPlace with rfl | ⟨l, hl, rfl⟩
      · exact Nat.zero_le _
      · exact hUpTo l hl
    exact ⟨hFirst.of_concat (valueStart_eq_opened s front) (hStop.trans hWhole), hBefore,
      hRest.behind_seam hReach hBehind⟩
  · rintro ⟨hPrior, hBefore, ns, hRest, rfl⟩
    have hWritten := s.written_literalAt front []
    rw [List.append_nil, chars_eq_opened] at hWritten
    have hFirst := hPrior.concat hWritten (valueStart_eq_opened s front) (hStop.trans hWhole)
      hBefore
    rw [← chars_eq_opened] at hFirst
    exact hFirst.join hStop hRest

end Enumeration

namespace Literal

def replaceIn (l : Literal) (text value : String) : String :=
  String.ofList (text.toList.take l.valueStart ++ value.toList ++ text.toList.drop (l.stop - 1))

def withValue (l : Literal) (value : String) : Literal :=
  { l with value, stop := l.stop - l.value.length + value.length }

def moveBehind (old new : String) (l : Literal) : Literal :=
  { l with
    start := l.start - old.length + new.length
    stop := l.stop - old.length + new.length }

variable {l m : Literal} {text value : String} {before after : List Literal}

theorem WrittenIn.start_lt_valueStart {cs : List Char} (h : l.WrittenIn cs) :
    l.start < l.valueStart := by
  obtain ⟨s, front, back, -, rfl⟩ := h.exists_literalAt
  rw [s.valueStart_literalAt]
  exact Nat.lt_add_of_pos_right (Nat.succ_pos _)

theorem take_replaceIn (h : l.WrittenIn text.toList) (value : String) {n : Nat}
    (hn : n ≤ l.valueStart) : (l.replaceIn text value).toList.take n = text.toList.take n := by
  have hStop := h.stop_le_length
  have hRoom : n ≤ (text.toList.take l.valueStart).length := by
    rw [List.length_take, valueStart] at *
    omega
  rw [replaceIn, String.toList_ofList, List.append_assoc, List.take_append_of_le_length hRoom,
    List.take_take, Nat.min_eq_left hn]

theorem toList_replaceIn {s t : Spelling} {front back : List Char}
    (hText : text.toList = front ++ s.chars ++ back)
    (hFront : front ++ t.front ++ [t.opening] = front ++ s.front ++ [s.opening])
    (hValue : t.value = value.toList) (hClosing : t.closing = s.closing) :
    ((s.literalAt front.length).replaceIn text value).toList = front ++ t.chars ++ back := by
  have hStart := Enumeration.valueStart_eq_opened s front
  have hClose : (s.literalAt front.length).stop - 1 =
      (front ++ s.front ++ [s.opening] ++ s.value).length := by
    simp only [Spelling.literalAt, s.length_chars, List.length_append, List.length_singleton]
    omega
  have hParts : text.toList =
      front ++ s.front ++ [s.opening] ++ s.value ++ (s.closing :: back) := by
    simp [hText, s.chars_eq_front]
  rw [replaceIn, String.toList_ofList, hStart, hClose, Enumeration.chars_eq_opened, hFront, hValue,
    hClosing, hParts, List.drop_left, List.append_assoc _ s.value, List.take_left]
  simp

end Literal

theorem literals_replaceIn {text value : String} {before after : List Literal} {m : Literal}
    (h : literals text = before ++ m :: after)
    (hValue : ∀ c ∈ value.toList, c ≠ '\'' ∧ c ≠ '"') :
    literals (m.replaceIn text value) =
      before ++ m.withValue value :: after.map (Literal.moveBehind m.value value) := by
  have hAll := enumeration_literals text
  rw [h] at hAll
  obtain ⟨s, front, back, hText, rfl⟩ := (hAll.written m (by simp)).exists_literalAt
  let t : Spelling := { s with value := value.toList, value_plain := hValue }
  have hReplaced := enumeration_literals ((s.literalAt front.length).replaceIn text value)
  rw [Literal.toList_replaceIn (t := t) hText rfl rfl rfl] at hReplaced
  rw [hText] at hAll
  obtain ⟨hPrior, hBefore, ns, hRest, rfl⟩ := Enumeration.literalAt_iff.mp hAll
  have hSame := Enumeration.literalAt_iff (s := t).mpr ⟨hPrior, hBefore, ns, hRest, rfl⟩
  have hLong := s.length_chars
  have hOther : t.chars.length = s.front.length + value.length + 2 := t.length_chars
  have hTail (k : Literal) : (k.shift (front ++ s.chars).length).moveBehind
      (String.ofList s.value) value = k.shift (front ++ t.chars).length := by
    simp only [Literal.moveBehind, Literal.shift, String.length_ofList, List.length_append,
      Literal.mk.injEq, true_and]
    omega
  have hSelf : (s.literalAt front.length).withValue value = t.literalAt front.length := by
    simp only [Literal.withValue, Spelling.literalAt, String.length_ofList, Literal.mk.injEq,
      true_and]
    exact ⟨String.ofList_toList.symm, by omega⟩
  rw [hReplaced.unique hSame, hSelf, List.map_map]
  exact congrArg (before ++ _ :: ·) (List.map_congr_left fun k _ => (hTail k).symm)

end LiteralLint
