import LiteralLint.Json.Draft
import Mathlib.Data.List.DropRight
import Mathlib.Data.Option.Basic

/-! # Strings and numbers in JSON

How strings and numbers are spelled, and that each spelling is read as what it spells. What follows
a number must not continue it. -/

set_option autoImplicit false

namespace LiteralLint.Json

section

variable {cs rest gap ds fs es : List Char} {c : Char}

def Gap (cs : List Char) : Prop := ∀ c ∈ cs, isSpace c = true

theorem Gap.nil : Gap [] := List.forall_mem_nil _

theorem skipSpace_append (h : Gap gap) (cs : List Char) : skipSpace (gap ++ cs) = skipSpace cs :=
  List.dropWhile_append_of_pos h

theorem skipSpace_cons (h : isSpace c = false) (cs : List Char) : skipSpace (c :: cs) = c :: cs :=
  List.dropWhile_cons_of_neg (by simp [h])

/-- The characters within quotes and what they stand for. -/
inductive Units : List CodeUnit → List Char → Prop where
  | nil : Units [] []
  | plain {units : List CodeUnit} {cs : List Char} {c : Char} :
      0x20 ≤ c.toNat → c ≠ '"' → c ≠ '\\' → Units units cs → Units (.whole c :: units) (c :: cs)
  | escape {units : List CodeUnit} {cs : List Char} {letter c : Char} :
      simpleEscape? letter = some c → Units units cs →
      Units (.whole c :: units) ('\\' :: letter :: cs)
  | code {units : List CodeUnit} {cs : List Char} {a b c d : Char} {n : Nat} :
      Text.natural? 16 [a, b, c, d] = some n → Units units cs →
      Units (.ofNat n :: units) ('\\' :: 'u' :: a :: b :: c :: d :: cs)

theorem readUnits_append {units : List CodeUnit} (h : Units units cs) (rest : List Char) :
    readUnits (cs ++ '"' :: rest) = some (units, rest) := by
  induction h with
  | nil => rw [List.nil_append, readUnits]
  | @plain units cs c hPrintable hQuote hBackslash _ ih =>
    rw [List.cons_append, readUnits]
    · rw [guard, if_pos ⟨hPrintable, hBackslash⟩, ih]
      rfl
    · exact fun h => hQuote h
    · exact fun _ _ _ _ _ h => absurd h hBackslash
    · exact fun _ _ h => absurd h hBackslash
  | @escape units cs letter c hEscape _ ih =>
    rw [List.cons_append, List.cons_append, readUnits]
    · simp [hEscape, ih]
    · rintro _ _ _ _ _ rfl
      cases hEscape
  | code hCode _ ih =>
    simp only [List.cons_append]
    rw [readUnits]
    simp [hCode, ih]

def textOf (units : List CodeUnit) : Option String := (joinUnits units).map String.ofList

theorem readString_append {units : List CodeUnit} (h : Units units cs) (rest : List Char) :
    readString (cs ++ '"' :: rest) = some (textOf units, rest) := by
  rw [readString, readUnits_append h]
  rfl

theorem ne_of_isDigit {other : Char} (h : c.isDigit = true) (hOther : other.isDigit = false) :
    c ≠ other := by
  rintro rfl
  rw [h] at hOther
  cases hOther

structure Digits (ds : List Char) : Prop where
  ne_nil : ds ≠ []
  isDigit : ∀ c ∈ ds, c.isDigit = true

inductive Fraction : Option (List Char) → List Char → Prop where
  | none : Fraction none []
  | some {ds : List Char} : Digits ds → Fraction (some ds) ('.' :: ds)

inductive Exponent : Option Int → List Char → Prop where
  | none : Exponent none []
  | unsigned {mark : Char} {ds : List Char} : mark = 'e' ∨ mark = 'E' → Digits ds →
      Exponent (some (Text.ofDigits 10 ds)) (mark :: ds)
  | positive {mark : Char} {ds : List Char} : mark = 'e' ∨ mark = 'E' → Digits ds →
      Exponent (some (Text.ofDigits 10 ds)) (mark :: '+' :: ds)
  | negative {mark : Char} {ds : List Char} : mark = 'e' ∨ mark = 'E' → Digits ds →
      Exponent (some (-Text.ofDigits 10 ds)) (mark :: '-' :: ds)

structure Unsigned (numeral : Numeral) (cs : List Char) : Prop where
  whole : Digits numeral.whole
  proper : numeral.whole.length = 1 ∨ numeral.whole.head? ≠ some '0'
  spelled : ∃ fs es, Fraction numeral.fraction fs ∧ Exponent numeral.exponent es ∧
    cs = numeral.whole ++ (fs ++ es)

/-- What may follow a number: its first character continues none. -/
def Delimited (rest : List Char) : Prop :=
  ∀ c ∈ rest.head?, c.isDigit = false ∧ c ≠ '.' ∧ c ≠ 'e' ∧ c ≠ 'E'

theorem readDigits_append (h : Digits ds) (hRest : ∀ c ∈ rest.head?, c.isDigit = false) :
    readDigits (ds ++ rest) = some (ds, rest) := by
  have hTake : rest.takeWhile Char.isDigit = [] := by
    cases rest with
    | nil => rfl
    | cons c rest => exact List.takeWhile_cons_of_neg (by simp [hRest c rfl])
  have hDrop : rest.dropWhile Char.isDigit = rest := by
    cases rest with
    | nil => rfl
    | cons c rest => exact List.dropWhile_cons_of_neg (by simp [hRest c rfl])
  rw [readDigits, List.takeWhile_append_of_pos h.isDigit, List.dropWhile_append_of_pos h.isDigit,
    hTake, hDrop, List.append_nil]
  obtain ⟨d, ds, rfl⟩ := List.exists_cons_of_ne_nil h.ne_nil
  rfl

theorem readFraction_append {fraction : Option (List Char)} (h : Fraction fraction fs)
    (hRest : ∀ c ∈ rest.head?, c.isDigit = false ∧ c ≠ '.') :
    readFraction (fs ++ rest) = some (fraction, rest) := by
  cases h with
  | none =>
    rw [List.nil_append, readFraction]
    rintro tail rfl
    exact (hRest '.' rfl).2 rfl
  | some hDigits =>
    rw [List.cons_append, readFraction, readDigits_append hDigits fun c hc => (hRest c hc).1]
    rfl

theorem readExponent_append {exponent : Option Int} (h : Exponent exponent es)
    (hRest : Delimited rest) : readExponent (es ++ rest) = some (exponent, rest) := by
  have hDigit : ∀ c ∈ rest.head?, c.isDigit = false := fun c hc => (hRest c hc).1
  cases h with
  | none =>
    cases rest with
    | nil => rfl
    | cons c rest =>
      have hMark : ¬ (c = 'e' ∨ c = 'E') := not_or.mpr (hRest c rfl).2.2
      simp only [List.nil_append, readExponent, if_neg hMark]
  | @unsigned mark ds hMark hDigits =>
    obtain ⟨d, ds, rfl⟩ := List.exists_cons_of_ne_nil hDigits.ne_nil
    have hDigitFirst : d.isDigit = true := hDigits.isDigit d List.mem_cons_self
    simp only [List.cons_append, readExponent, if_pos hMark]
    split
    · rename_i hPlus
      exact absurd (List.cons.inj hPlus).1 (ne_of_isDigit hDigitFirst rfl)
    · rename_i hMinus
      exact absurd (List.cons.inj hMinus).1 (ne_of_isDigit hDigitFirst rfl)
    · rw [← List.cons_append, readDigits_append hDigits hDigit]
      simp
  | positive hMark hDigits =>
    simp only [List.cons_append, readExponent, if_pos hMark, readDigits_append hDigits hDigit]
    simp
  | negative hMark hDigits =>
    simp only [List.cons_append, readExponent, if_pos hMark, readDigits_append hDigits hDigit]
    simp

theorem Exponent.head_append {exponent : Option Int} (h : Exponent exponent es)
    (hRest : Delimited rest) : ∀ c ∈ (es ++ rest).head?, c.isDigit = false ∧ c ≠ '.' := by
  cases h with
  | none => exact fun c hc => ⟨(hRest c hc).1, (hRest c hc).2.1⟩
  | unsigned hMark _ | positive hMark _ | negative hMark _ =>
    intro c hc
    cases hc
    rcases hMark with rfl | rfl <;> exact ⟨rfl, by decide⟩

theorem Fraction.head_append {fraction : Option (List Char)} (h : Fraction fraction fs)
    (hRest : ∀ c ∈ rest.head?, c.isDigit = false) :
    ∀ c ∈ (fs ++ rest).head?, c.isDigit = false := by
  cases h with
  | none => exact hRest
  | some _ =>
    intro c hc
    cases hc
    rfl

theorem readNumeral_append {numeral : Numeral} (h : Unsigned numeral cs) (hRest : Delimited rest) :
    readNumeral numeral.negative (cs ++ rest) = some (numeral, rest) := by
  obtain ⟨fs, es, hFraction, hExponent, rfl⟩ := h.spelled
  have hBehind := hExponent.head_append hRest
  have hWhole := readDigits_append h.whole
    (hFraction.head_append fun c hc => (hBehind c hc).1)
  simp only [readNumeral, List.append_assoc, hWhole, Option.bind_eq_bind, Option.bind_some,
    readFraction_append hFraction hBehind, readExponent_append hExponent hRest]
  rw [guard, if_pos h.proper]
  rfl

theorem isSpace_of_isDigit (h : c.isDigit = true) : isSpace c = false := by
  have hNe : ∀ other : Char, other.isDigit = false → (c == other) = false :=
    fun other hOther => beq_false_of_ne (ne_of_isDigit h hOther)
  rw [isSpace, hNe ' ' rfl, hNe '\n' rfl, hNe '\t' rfl, hNe '\x0d' rfl]
  rfl

theorem Unsigned.exists_cons {numeral : Numeral} (h : Unsigned numeral cs) :
    ∃ c tail, cs = c :: tail ∧ c.isDigit = true := by
  obtain ⟨fs, es, -, -, rfl⟩ := h.spelled
  obtain ⟨c, tail, hWhole⟩ := List.exists_cons_of_ne_nil h.whole.ne_nil
  exact ⟨c, tail ++ (fs ++ es), by rw [hWhole, List.cons_append],
    h.whole.isDigit c (by rw [hWhole]; exact List.mem_cons_self)⟩

theorem readScalar_of_isDigit {numeral : Numeral} (h : c.isDigit = true)
    (hRead : readNumeral false (c :: cs) = some (numeral, rest)) :
    readScalar (c :: cs) = ⟨.number numeral, some rest⟩ := by
  have hNe : ∀ other : Char, other.isDigit = false → ∀ tail, c :: cs = other :: tail → False :=
    fun other hOther tail hEq => ne_of_isDigit h hOther (List.cons.inj hEq).1
  rw [readScalar]
  · simp only [hRead]
  · exact hNe 'n' rfl
  · exact hNe 't' rfl
  · exact hNe 'f' rfl
  · exact hNe '"' rfl
  · exact hNe '-' rfl

end

end LiteralLint.Json
