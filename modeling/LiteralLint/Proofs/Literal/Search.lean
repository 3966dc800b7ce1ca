import LiteralLint.Cursor
import LiteralLint.Proofs.Literal.Enumeration

/-! # The search for literals

A cursor that has read on from the beginning of a text stands behind some of its characters and
counts exactly those. Each step finds the literal that starts first, so that the literals of a text
are its enumeration. -/

set_option autoImplicit false

namespace LiteralLint

theorem foldl_utf8Size (n : Nat) (cs : List Char) :
    cs.foldl (fun n c => n + c.utf8Size) n = n + byteLength cs := by
  induction cs generalizing n with
  | nil => rfl
  | cons c cs ih =>
    rw [byteLength, List.foldl_cons, List.foldl_cons, ih, ih, Nat.zero_add, Nat.add_assoc]

theorem byteLength_cons (c : Char) (cs : List Char) :
    byteLength (c :: cs) = c.utf8Size + byteLength cs := by
  rw [byteLength, List.foldl_cons, foldl_utf8Size, Nat.zero_add]

theorem byteLength_append (cs ds : List Char) :
    byteLength (cs ++ ds) = byteLength cs + byteLength ds := by
  rw [byteLength, List.foldl_append, foldl_utf8Size]
  rfl

theorem byteLength_eq (cs : List Char) : byteLength cs = (String.ofList cs).utf8ByteSize := by
  induction cs with
  | nil => rfl
  | cons c cs ih =>
    rw [byteLength_cons, String.ofList_cons, String.utf8ByteSize_append,
      String.utf8ByteSize_singleton, ih]

theorem length_le_byteLength (cs : List Char) : cs.length ≤ byteLength cs := by
  induction cs with
  | nil => exact Nat.le_refl 0
  | cons c cs ih =>
    have hChar := c.utf8Size_pos
    rw [byteLength_cons, List.length_cons]
    omega

namespace Cursor

theorem search_cons_of_read? {i j : Nat} {c : Char} {cs : List Char} {o : Occurrence}
    (h : Occurrence.read? (c :: cs) = some o) :
    search i j (c :: cs) = some (⟨String.ofList o.value, i, i + o.span.length⟩,
      ⟨i + o.span.length, j + byteLength o.span, o.rest⟩) := by
  simp only [search, h]

theorem search_cons_of_none {i j : Nat} {c : Char} {cs : List Char}
    (h : Occurrence.read? (c :: cs) = none) :
    search i j (c :: cs) = search (i + 1) (j + c.utf8Size) cs := by
  simp only [search, h]

def behind (cs : List Char) (n : Nat) : Cursor := ⟨n, byteLength (cs.take n), cs.drop n⟩

theorem behind_of_read? {cs : List Char} {n : Nat} {o : Occurrence}
    (h : Occurrence.read? (cs.drop n) = some o) :
    behind cs (n + o.span.length) =
      ⟨n + o.span.length, byteLength (cs.take n) + byteLength o.span, o.rest⟩ := by
  have hText := Occurrence.span_append_rest h
  have hSpan : (cs.drop n).take o.span.length = o.span := by
    rw [← hText, List.take_left]
  have hRest : cs.drop (n + o.span.length) = o.rest := by
    rw [← List.drop_drop, ← hText, List.drop_left]
  rw [behind, List.take_add, byteLength_append, hSpan, hRest]

/-- What a step comes to: no literal starts any more, or the one that starts first is found and
the cursor stands behind it. -/
theorem next?_behind (cs : List Char) (n : Nat) :
    ((behind cs n).next? = none ∧ ∀ l : Literal, l.WrittenIn cs → l.start < n) ∨
    ∃ l : Literal, l.FirstFrom n cs ∧ (behind cs n).next? = some (l, behind cs l.stop) := by
  have hSearch : (behind cs n).next? = search n (byteLength (cs.take n)) (cs.drop n) := rfl
  rw [hSearch]
  clear hSearch
  induction hRest : cs.drop n generalizing n with
  | nil =>
    refine Or.inl ⟨rfl, fun l hl => ?_⟩
    have hEnd := List.drop_eq_nil_iff.mp hRest
    have hStart := hl.start_lt_stop
    have hStop := hl.stop_le_length
    omega
  | cons c rest ih =>
    cases hRead : Occurrence.read? (c :: rest) with
    | some o =>
      rw [search_cons_of_read? hRead]
      rw [← hRest] at hRead
      exact Or.inr ⟨_, .of_written (Literal.written_of_read? hRead), by rw [behind_of_read? hRead]⟩
    | none =>
      have hTail : cs.drop (n + 1) = rest := by
        rw [← List.drop_drop, hRest, List.drop_one, List.tail_cons]
      have hBytes : byteLength (cs.take (n + 1)) = byteLength (cs.take n) + c.utf8Size := by
        rw [List.take_add, hRest, byteLength_append, List.take_succ_cons, byteLength_cons]
        rfl
      have hStep := ih (n + 1) hTail
      rw [hBytes, ← search_cons_of_none hRead] at hStep
      rw [← hRest] at hRead
      rcases hStep with ⟨hNone, hNowhere⟩ | ⟨l, hFirst, hSome⟩
      · refine Or.inl ⟨hNone, fun l hl => ?_⟩
        have hNe := hl.start_ne_of_read?_none hRead
        have hLess := hNowhere l hl
        omega
      · refine Or.inr ⟨l, hFirst.of_succ fun m hm => hm.start_ne_of_read?_none hRead, hSome⟩

theorem literals_of_next?_none {c : Cursor} (h : c.next? = none) : c.literals = [] := by
  rw [literals]
  split
  · rfl
  · simp_all

theorem literals_of_next?_some {c next : Cursor} {l : Literal} (h : c.next? = some (l, next)) :
    c.literals = l :: next.literals := by
  rw [literals]
  split <;> simp_all

theorem enumeration_behind (cs : List Char) (n : Nat) :
    Enumeration cs n (behind cs n).literals := by
  -- The induction is on the number of characters still to be read; a step reads some of them.
  induction hLeft : cs.length - n using Nat.strongRecOn generalizing n with
  | ind left ih =>
    rcases next?_behind cs n with ⟨hNone, hNowhere⟩ | ⟨l, hFirst, hSome⟩
    · rw [literals_of_next?_none hNone]
      exact .done hNowhere
    · rw [literals_of_next?_some hSome]
      have hStart := hFirst.written.start_lt_stop
      have hStop := hFirst.written.stop_le_length
      have hOffset := hFirst.offset_le
      exact .next hFirst (ih (cs.length - l.stop) (by omega) l.stop rfl)

end Cursor

theorem enumeration_literals (text : String) : Enumeration text.toList 0 (literals text) :=
  Cursor.enumeration_behind text.toList 0

/-- The literals of a text are its one enumeration from the beginning. Each is written where it is
said to be, and none is passed over but those that start inside another. -/
theorem literals_exact (text : String) :
    (∀ ls, Enumeration text.toList 0 ls ↔ ls = literals text) ∧
    (∀ l ∈ literals text, l.WrittenIn text.toList) ∧
    ∀ l : Literal, l.WrittenIn text.toList →
      l ∈ literals text ∨ ∃ m ∈ literals text, m.start < l.start ∧ l.start < m.stop := by
  have hAll := enumeration_literals text
  refine ⟨fun ls => ⟨fun h => h.unique hAll, ?_⟩, hAll.written, fun l hl => ?_⟩
  · rintro rfl
    exact hAll
  · exact hAll.mem_or_inside hl (Nat.zero_le _)

example : literals "imageformat\n: 'it\"s' format: 'x" = [⟨"it", 5, 18⟩] := by cbv

end LiteralLint
