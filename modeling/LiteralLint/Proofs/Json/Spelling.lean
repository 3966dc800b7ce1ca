import LiteralLint.Proofs.Json.Scalar

/-! # The grammar of JSON

How the values of a draft are spelled, with any space between their parts, and that every spelling
is read as the draft it spells. -/

set_option autoImplicit false

namespace LiteralLint.Json

/-- A value, alone or with the space around it, or what stands between two brackets. -/
inductive Phrase where
  | value (d : Draft)
  | padded (d : Draft)
  | items (ds : List Draft)
  | members (ms : List (Option String × Draft))

inductive Spelling : Phrase → List Char → Prop where
  | null : Spelling (.value .null) ['n', 'u', 'l', 'l']
  | yes : Spelling (.value (.bool true)) ['t', 'r', 'u', 'e']
  | no : Spelling (.value (.bool false)) ['f', 'a', 'l', 's', 'e']
  | natural {numeral : Numeral} {cs : List Char} :
      numeral.negative = false → Unsigned numeral cs → Spelling (.value (.number numeral)) cs
  | negative {numeral : Numeral} {cs : List Char} :
      numeral.negative = true → Unsigned numeral cs →
      Spelling (.value (.number numeral)) ('-' :: cs)
  | string {units : List CodeUnit} {cs : List Char} :
      Units units cs → Spelling (.value (.string (textOf units))) ('"' :: (cs ++ ['"']))
  | emptyArray {gap : List Char} :
      Gap gap → Spelling (.value (.array [] true)) ('[' :: (gap ++ [']']))
  | array {ds : List Draft} {cs : List Char} :
      Spelling (.items ds) cs → Spelling (.value (.array ds true)) ('[' :: (cs ++ [']']))
  | emptyObject {gap : List Char} :
      Gap gap → Spelling (.value (.object [] true)) ('\x7b' :: (gap ++ ['\x7d']))
  | object {ms : List (Option String × Draft)} {cs : List Char} :
      Spelling (.members ms) cs → Spelling (.value (.object ms true)) ('\x7b' :: (cs ++ ['\x7d']))
  | padded {d : Draft} {before cs after : List Char} :
      Gap before → Spelling (.value d) cs → Gap after →
      Spelling (.padded d) (before ++ (cs ++ after))
  | item {d : Draft} {cs : List Char} : Spelling (.padded d) cs → Spelling (.items [d]) cs
  | items {d : Draft} {ds : List Draft} {cs others : List Char} :
      Spelling (.padded d) cs → Spelling (.items ds) others →
      Spelling (.items (d :: ds)) (cs ++ ',' :: others)
  | member {units : List CodeUnit} {d : Draft} {before key gap cs : List Char} :
      Gap before → Units units key → Gap gap → Spelling (.padded d) cs →
      Spelling (.members [(textOf units, d)])
        (before ++ '"' :: (key ++ '"' :: (gap ++ ':' :: cs)))
  | members {units : List CodeUnit} {d : Draft} {ms : List (Option String × Draft)}
      {before key gap cs others : List Char} :
      Gap before → Units units key → Gap gap → Spelling (.padded d) cs →
      Spelling (.members ms) others →
      Spelling (.members ((textOf units, d) :: ms))
        (before ++ '"' :: (key ++ '"' :: (gap ++ ':' :: (cs ++ ',' :: others))))

section

variable {phrase : Phrase} {d : Draft} {ds : List Draft} {ms : List (Option String × Draft)}
  {cs rest gap after others : List Char} {c : Char} {fuel : Nat}

def Begins (cs : List Char) : Prop :=
  ∃ c tail, c ≠ ']' ∧ c ≠ '\x7d' ∧ ∀ rest, skipSpace (cs ++ rest) = c :: (tail ++ rest)

theorem Begins.cons (hSpace : isSpace c = false) (hBracket : c ≠ ']') (hBrace : c ≠ '\x7d')
    (cs : List Char) : Begins (c :: cs) :=
  ⟨c, cs, hBracket, hBrace, fun rest => skipSpace_cons hSpace (cs ++ rest)⟩

theorem Begins.gap_append (hGap : Gap gap) (h : Begins cs) : Begins (gap ++ cs) := by
  obtain ⟨c, tail, hBracket, hBrace, hSkip⟩ := h
  refine ⟨c, tail, hBracket, hBrace, fun rest => ?_⟩
  rw [List.append_assoc, skipSpace_append hGap, hSkip]

theorem Begins.append (h : Begins cs) (more : List Char) : Begins (cs ++ more) := by
  obtain ⟨c, tail, hBracket, hBrace, hSkip⟩ := h
  refine ⟨c, tail ++ more, hBracket, hBrace, fun rest => ?_⟩
  rw [List.append_assoc, hSkip, List.append_assoc]

theorem Begins.ne_nil (h : Begins cs) : cs ≠ [] := by
  rintro rfl
  obtain ⟨c, tail, -, -, hSkip⟩ := h
  cases hSkip []

theorem Spelling.begins (h : Spelling phrase cs) : Begins cs := by
  induction h with
  | natural _ hUnsigned =>
    obtain ⟨c, tail, rfl, hDigit⟩ := hUnsigned.exists_cons
    exact .cons (isSpace_of_isDigit hDigit) (ne_of_isDigit hDigit rfl) (ne_of_isDigit hDigit rfl) _
  | padded hBefore _ _ ih => exact (ih.append _).gap_append hBefore
  | item _ ih => exact ih
  | items _ _ ih _ => exact ih.append _
  | member hBefore _ _ _ _ | members hBefore _ _ _ _ _ _ =>
    exact .gap_append hBefore (.cons rfl (by decide) (by decide) _)
  | _ => exact .cons rfl (by decide) (by decide) _

theorem skipSpace_skipSpace (cs : List Char) : skipSpace (skipSpace cs) = skipSpace cs :=
  List.dropWhile_idempotent isSpace cs

theorem readValue_skipSpace (fuel : Nat) (cs : List Char) :
    readValue fuel (skipSpace cs) = readValue fuel cs := by
  cases fuel with
  | zero => rfl
  | succ fuel => rw [readValue, readValue, skipSpace_skipSpace]

theorem readItems_skipSpace (fuel : Nat) (cs : List Char) :
    readItems fuel (skipSpace cs) = readItems fuel cs := by
  cases fuel with
  | zero => rfl
  | succ fuel => rw [readItems, readItems, skipSpace_skipSpace]

theorem readMembers_skipSpace (fuel : Nat) (cs : List Char) :
    readMembers fuel (skipSpace cs) = readMembers fuel cs := by
  cases fuel with
  | zero => rfl
  | succ fuel => rw [readMembers, readMembers, skipSpace_skipSpace]

theorem readValue_gap_append (h : Gap gap) (fuel : Nat) (cs : List Char) :
    readValue fuel (gap ++ cs) = readValue fuel cs := by
  rw [← readValue_skipSpace, skipSpace_append h, readValue_skipSpace]

theorem Delimited.gap_append (hGap : Gap gap) (h : Delimited rest) : Delimited (gap ++ rest) := by
  cases gap with
  | nil => exact h
  | cons c gap =>
    intro first hFirst
    cases hFirst
    have hSpace : isSpace c = true := hGap c List.mem_cons_self
    simp only [isSpace, Bool.or_eq_true, beq_iff_eq] at hSpace
    rcases hSpace with ((rfl | rfl) | rfl) | rfl <;> exact ⟨rfl, by decide⟩

theorem delimited_comma (cs : List Char) : Delimited (',' :: cs) := by
  rintro _ ⟨⟩
  exact ⟨rfl, by decide⟩

theorem delimited_bracket (cs : List Char) : Delimited (']' :: cs) := by
  rintro _ ⟨⟩
  exact ⟨rfl, by decide⟩

theorem delimited_brace (cs : List Char) : Delimited ('\x7d' :: cs) := by
  rintro _ ⟨⟩
  exact ⟨rfl, by decide⟩

theorem readValue_of_scalar (hSpace : isSpace c = false) (hBracket : c ≠ '[') (hBrace : c ≠ '\x7b')
    (fuel : Nat) (cs : List Char) : readValue (fuel + 1) (c :: cs) = readScalar (c :: cs) := by
  rw [readValue, skipSpace_cons hSpace]
  split
  · rename_i h
    exact absurd (List.cons.inj h).1 hBracket
  · rename_i h
    exact absurd (List.cons.inj h).1 hBrace
  · rfl

/-- What the reader makes of a phrase. Between brackets, the bracket that closes is read too. The
reader spends one step on each value and one on each item, and both take a character at least. -/
def Phrase.IsRead : Phrase → List Char → Prop
  | .value d, cs => ∀ fuel rest, 2 * cs.length ≤ fuel → Delimited rest →
      readValue fuel (cs ++ rest) = ⟨d, some rest⟩
  | .padded d, cs => ∀ fuel rest, 2 * cs.length ≤ fuel → Delimited rest →
      ∃ after, Gap after ∧ readValue fuel (cs ++ rest) = ⟨d, some (after ++ rest)⟩
  | .items ds, cs => ∀ fuel rest, 2 * cs.length < fuel →
      readItems fuel (cs ++ ']' :: rest) = ⟨ds, some rest⟩
  | .members ms, cs => ∀ fuel rest, 2 * cs.length < fuel →
      readMembers fuel (cs ++ '\x7d' :: rest) = ⟨ms, some rest⟩

theorem readValue_array (hBegins : Begins cs) (fuel : Nat) (rest : List Char) :
    readValue (fuel + 1) ('[' :: (cs ++ rest)) =
      let r := readItems fuel (cs ++ rest)
      ⟨.array r.value r.rest.isSome, r.rest⟩ := by
  obtain ⟨c, tail, hBracket, -, hSkip⟩ := hBegins
  rw [← readItems_skipSpace, readValue, skipSpace_cons rfl]
  simp only [hSkip]
  split
  · rename_i hClosed
    exact absurd (List.cons.inj hClosed).1 hBracket
  · rfl

theorem readValue_object (hBegins : Begins cs) (fuel : Nat) (rest : List Char) :
    readValue (fuel + 1) ('\x7b' :: (cs ++ rest)) =
      let r := readMembers fuel (cs ++ rest)
      ⟨.object r.value r.rest.isSome, r.rest⟩ := by
  obtain ⟨c, tail, -, hBrace, hSkip⟩ := hBegins
  rw [← readMembers_skipSpace, readValue, skipSpace_cons rfl]
  simp only [hSkip]
  split
  · rename_i hClosed
    exact absurd (List.cons.inj hClosed).1 hBrace
  · rfl

theorem readItems_of_comma (hBegins : Begins cs) (hAfter : Gap after)
    (h : readValue fuel (cs ++ rest) = ⟨d, some (after ++ ',' :: others)⟩) :
    readItems (fuel + 1) (cs ++ rest) =
      ⟨d :: (readItems fuel others).value, (readItems fuel others).rest⟩ := by
  obtain ⟨c, tail, hBracket, -, hSkip⟩ := hBegins
  rw [← readValue_skipSpace] at h
  rw [readItems]
  simp only [hSkip] at h ⊢
  split
  · rename_i hClosed
    exact absurd (List.cons.inj hClosed).1 hBracket
  · simp only [h, Option.map_some, skipSpace_append hAfter, @skipSpace_cons ',' rfl]

theorem readItems_of_bracket (hBegins : Begins cs) (hAfter : Gap after)
    (h : readValue fuel (cs ++ rest) = ⟨d, some (after ++ ']' :: others)⟩) :
    readItems (fuel + 1) (cs ++ rest) = ⟨[d], some others⟩ := by
  obtain ⟨c, tail, hBracket, -, hSkip⟩ := hBegins
  rw [← readValue_skipSpace] at h
  rw [readItems]
  simp only [hSkip] at h ⊢
  split
  · rename_i hClosed
    exact absurd (List.cons.inj hClosed).1 hBracket
  · simp only [h, Option.map_some, skipSpace_append hAfter, @skipSpace_cons ']' rfl]

section

variable {units : List CodeUnit} {before key : List Char}

theorem readMembers_of_comma (hBefore : Gap before) (hKey : Units units key) (hGap : Gap gap)
    (hAfter : Gap after) (h : readValue fuel rest = ⟨d, some (after ++ ',' :: others)⟩) :
    readMembers (fuel + 1) (before ++ '"' :: (key ++ '"' :: (gap ++ ':' :: rest))) =
      ⟨(textOf units, d) :: (readMembers fuel others).value, (readMembers fuel others).rest⟩ := by
  rw [readMembers, skipSpace_append hBefore, skipSpace_cons rfl]
  simp only [readString_append hKey, skipSpace_append hGap, @skipSpace_cons ':' rfl, h,
    Option.map_some, skipSpace_append hAfter, @skipSpace_cons ',' rfl]

theorem readMembers_of_brace (hBefore : Gap before) (hKey : Units units key) (hGap : Gap gap)
    (hAfter : Gap after) (h : readValue fuel rest = ⟨d, some (after ++ '\x7d' :: others)⟩) :
    readMembers (fuel + 1) (before ++ '"' :: (key ++ '"' :: (gap ++ ':' :: rest))) =
      ⟨[(textOf units, d)], some others⟩ := by
  rw [readMembers, skipSpace_append hBefore, skipSpace_cons rfl]
  simp only [readString_append hKey, skipSpace_append hGap, @skipSpace_cons ':' rfl, h,
    Option.map_some, skipSpace_append hAfter, @skipSpace_cons '\x7d' rfl]

end

theorem exists_fuel (h : cs ≠ []) (hFuel : 2 * cs.length ≤ fuel) : ∃ less, fuel = less + 1 := by
  have hLength := List.length_pos_iff.mpr h
  exact ⟨fuel - 1, by omega⟩

theorem isRead_scalar (hSpace : isSpace c = false) (hBracket : c ≠ '[') (hBrace : c ≠ '\x7b')
    (hScalar : ∀ rest, Delimited rest → readScalar (c :: (cs ++ rest)) = ⟨d, some rest⟩) :
    (Phrase.value d).IsRead (c :: cs) := by
  intro fuel rest hFuel hRest
  obtain ⟨less, rfl⟩ := exists_fuel (List.cons_ne_nil c cs) hFuel
  rw [List.cons_append, readValue_of_scalar hSpace hBracket hBrace, hScalar rest hRest]

theorem isRead_number {numeral : Numeral} (hSign : numeral.negative = false)
    (h : Unsigned numeral cs) : (Phrase.value (.number numeral)).IsRead cs := by
  obtain ⟨c, tail, rfl, hDigit⟩ := h.exists_cons
  refine isRead_scalar (isSpace_of_isDigit hDigit) (ne_of_isDigit hDigit rfl)
    (ne_of_isDigit hDigit rfl) fun rest hRest => ?_
  have hRead := readNumeral_append h hRest
  rw [hSign] at hRead
  exact readScalar_of_isDigit hDigit hRead

theorem isRead_negative {numeral : Numeral} (hSign : numeral.negative = true)
    (h : Unsigned numeral cs) : (Phrase.value (.number numeral)).IsRead ('-' :: cs) := by
  refine isRead_scalar rfl (by decide) (by decide) fun rest hRest => ?_
  have hRead := readNumeral_append h hRest
  rw [hSign] at hRead
  simp only [readScalar, hRead]

theorem isRead_string {units : List CodeUnit} (h : Units units cs) :
    (Phrase.value (.string (textOf units))).IsRead ('"' :: (cs ++ ['"'])) := by
  refine isRead_scalar rfl (by decide) (by decide) fun rest _ => ?_
  rw [List.append_assoc, readScalar, List.singleton_append, readString_append h]

theorem isRead_emptyArray (h : Gap gap) :
    (Phrase.value (.array [] true)).IsRead ('[' :: (gap ++ [']'])) := by
  intro fuel rest hFuel _
  obtain ⟨less, rfl⟩ := exists_fuel (List.cons_ne_nil _ _) hFuel
  rw [List.cons_append, List.append_assoc, List.singleton_append, readValue, skipSpace_cons rfl]
  simp only [skipSpace_append h, @skipSpace_cons ']' rfl]

theorem isRead_emptyObject (h : Gap gap) :
    (Phrase.value (.object [] true)).IsRead ('\x7b' :: (gap ++ ['\x7d'])) := by
  intro fuel rest hFuel _
  obtain ⟨less, rfl⟩ := exists_fuel (List.cons_ne_nil _ _) hFuel
  rw [List.cons_append, List.append_assoc, List.singleton_append, readValue, skipSpace_cons rfl]
  simp only [skipSpace_append h, @skipSpace_cons '\x7d' rfl]

theorem isRead_array (hBegins : Begins cs) (h : (Phrase.items ds).IsRead cs) :
    (Phrase.value (.array ds true)).IsRead ('[' :: (cs ++ [']'])) := by
  intro fuel rest hFuel _
  obtain ⟨less, rfl⟩ := exists_fuel (List.cons_ne_nil _ _) hFuel
  rw [List.length_cons, List.length_append, List.length_singleton] at hFuel
  rw [List.cons_append, List.append_assoc, List.singleton_append, readValue_array hBegins,
    h less rest (by omega)]
  rfl

theorem isRead_object (hBegins : Begins cs) (h : (Phrase.members ms).IsRead cs) :
    (Phrase.value (.object ms true)).IsRead ('\x7b' :: (cs ++ ['\x7d'])) := by
  intro fuel rest hFuel _
  obtain ⟨less, rfl⟩ := exists_fuel (List.cons_ne_nil _ _) hFuel
  rw [List.length_cons, List.length_append, List.length_singleton] at hFuel
  rw [List.cons_append, List.append_assoc, List.singleton_append, readValue_object hBegins,
    h less rest (by omega)]
  rfl

theorem isRead_padded {before : List Char} (hBefore : Gap before)
    (h : (Phrase.value d).IsRead cs) (hAfter : Gap after) :
    (Phrase.padded d).IsRead (before ++ (cs ++ after)) := by
  intro fuel rest hFuel hRest
  rw [List.length_append, List.length_append] at hFuel
  refine ⟨after, hAfter, ?_⟩
  rw [List.append_assoc, List.append_assoc, readValue_gap_append hBefore,
    h fuel (after ++ rest) (by omega) (hRest.gap_append hAfter)]

theorem isRead_item (hBegins : Begins cs) (h : (Phrase.padded d).IsRead cs) :
    (Phrase.items [d]).IsRead cs := by
  intro fuel rest hFuel
  obtain ⟨less, rfl⟩ := exists_fuel hBegins.ne_nil hFuel.le
  obtain ⟨after, hAfter, hRead⟩ := h less (']' :: rest) (by omega) (delimited_bracket rest)
  exact readItems_of_bracket hBegins hAfter hRead

theorem isRead_items (hBegins : Begins cs) (h : (Phrase.padded d).IsRead cs)
    (hOthers : (Phrase.items ds).IsRead others) :
    (Phrase.items (d :: ds)).IsRead (cs ++ ',' :: others) := by
  intro fuel rest hFuel
  rw [List.length_append, List.length_cons] at hFuel
  obtain ⟨less, rfl⟩ := exists_fuel hBegins.ne_nil (show 2 * cs.length ≤ fuel by omega)
  obtain ⟨after, hAfter, hRead⟩ :=
    h less (',' :: (others ++ ']' :: rest)) (by omega) (delimited_comma _)
  rw [List.append_assoc, List.cons_append, readItems_of_comma hBegins hAfter hRead,
    hOthers less rest (by omega)]

theorem isRead_member {units : List CodeUnit} {before key : List Char} (hBefore : Gap before)
    (hKey : Units units key) (hGap : Gap gap) (h : (Phrase.padded d).IsRead cs) :
    (Phrase.members [(textOf units, d)]).IsRead
      (before ++ '"' :: (key ++ '"' :: (gap ++ ':' :: cs))) := by
  intro fuel rest hFuel
  simp only [List.length_append, List.length_cons] at hFuel
  obtain ⟨less, rfl⟩ : ∃ less, fuel = less + 1 := ⟨fuel - 1, by omega⟩
  obtain ⟨after, hAfter, hRead⟩ := h less ('\x7d' :: rest) (by omega) (delimited_brace rest)
  simp only [List.append_assoc, List.cons_append]
  exact readMembers_of_brace hBefore hKey hGap hAfter hRead

theorem isRead_members {units : List CodeUnit} {before key : List Char} (hBefore : Gap before)
    (hKey : Units units key) (hGap : Gap gap) (h : (Phrase.padded d).IsRead cs)
    (hOthers : (Phrase.members ms).IsRead others) :
    (Phrase.members ((textOf units, d) :: ms)).IsRead
      (before ++ '"' :: (key ++ '"' :: (gap ++ ':' :: (cs ++ ',' :: others)))) := by
  intro fuel rest hFuel
  simp only [List.length_append, List.length_cons] at hFuel
  obtain ⟨less, rfl⟩ : ∃ less, fuel = less + 1 := ⟨fuel - 1, by omega⟩
  obtain ⟨after, hAfter, hRead⟩ :=
    h less (',' :: (others ++ '\x7d' :: rest)) (by omega) (delimited_comma _)
  simp only [List.append_assoc, List.cons_append]
  rw [readMembers_of_comma hBefore hKey hGap hAfter hRead, hOthers less rest (by omega)]

theorem Spelling.isRead (h : Spelling phrase cs) : phrase.IsRead cs := by
  induction h with
  | null | yes | no => exact isRead_scalar rfl (by decide) (by decide) fun _ _ => rfl
  | natural hSign hUnsigned => exact isRead_number hSign hUnsigned
  | negative hSign hUnsigned => exact isRead_negative hSign hUnsigned
  | string hUnits => exact isRead_string hUnits
  | emptyArray hGap => exact isRead_emptyArray hGap
  | emptyObject hGap => exact isRead_emptyObject hGap
  | array hItems ih => exact isRead_array hItems.begins ih
  | object hMembers ih => exact isRead_object hMembers.begins ih
  | padded hBefore _ hAfter ih => exact isRead_padded hBefore ih hAfter
  | item hPadded ih => exact isRead_item hPadded.begins ih
  | items hPadded _ ih ihOthers => exact isRead_items hPadded.begins ih ihOthers
  | member hBefore hKey hGap _ ih => exact isRead_member hBefore hKey hGap ih
  | members hBefore hKey hGap _ _ ih ihOthers =>
    exact isRead_members hBefore hKey hGap ih ihOthers

theorem read_of_spelling (h : Spelling (.padded d) cs) : read cs = ⟨d, true⟩ := by
  obtain ⟨after, hAfter, hRead⟩ :=
    h.isRead (2 * cs.length + 1) [] (by omega) fun _ hHead => by cases hHead
  rw [List.append_nil] at hRead
  rw [read, hRead]
  simp only [skipSpace_append hAfter]
  rfl

end

end LiteralLint.Json
