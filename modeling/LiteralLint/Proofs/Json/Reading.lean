import LiteralLint.Json.Decode
import LiteralLint.Proofs.Json.Spelling
import LiteralLint.Proofs.Traversal

/-! # What is read is spelled

The converse of the completeness of the reader: where it reads a value without a fault, the text
that it has passed over is a spelling of that value. A text is read to its end as a value if and
only if it spells that value, and a value that is spelled has no fault in it. -/

set_option autoImplicit false

namespace LiteralLint.Json

variable {cs rest ds : List Char} {c : Char} {d : Draft} {fuel : Nat}

theorem exists_gap (cs : List Char) : ∃ gap, Gap gap ∧ cs = gap ++ skipSpace cs :=
  ⟨cs.takeWhile isSpace, fun _ hMem => List.mem_takeWhile_imp hMem,
    List.takeWhile_append_dropWhile.symm⟩

theorem exists_units {units : List CodeUnit} (h : readUnits cs = some (units, rest)) :
    ∃ body, Units units body ∧ cs = body ++ '"' :: rest := by
  fun_induction readUnits cs generalizing units with
  | case1 tail =>
    cases h
    exact ⟨[], .nil, rfl⟩
  | case2 a b c d tail ih =>
    simp only [Option.bind_eq_bind, Option.bind_eq_some_iff, Option.pure_def, Option.some.injEq,
      Prod.mk.injEq, Prod.exists] at h
    obtain ⟨code, hCode, others, behind, hOthers, rfl, rfl⟩ := h
    obtain ⟨body, hBody, rfl⟩ := ih hOthers
    exact ⟨_, .code hCode hBody, rfl⟩
  | case3 letter tail _ ih =>
    simp only [Option.bind_eq_bind, Option.bind_eq_some_iff, Option.pure_def, Option.some.injEq,
      Prod.mk.injEq, Prod.exists] at h
    obtain ⟨c, hEscape, others, behind, hOthers, rfl, rfl⟩ := h
    obtain ⟨body, hBody, rfl⟩ := ih hOthers
    exact ⟨_, .escape hEscape hBody, rfl⟩
  | case4 c tail hQuote _ _ ih =>
    simp only [Option.bind_eq_bind, Option.bind_eq_some_iff, Option.pure_def, Option.some.injEq,
      Prod.mk.injEq, Prod.exists, Option.guard_eq_some'] at h
    obtain ⟨_, ⟨hPrintable, hBackslash⟩, others, behind, hOthers, rfl, rfl⟩ := h
    obtain ⟨body, hBody, rfl⟩ := ih hOthers
    exact ⟨c :: body, .plain hPrintable (fun hEq => hQuote hEq) hBackslash hBody, rfl⟩
  | case5 => cases h

theorem exists_string {s : Option String} (h : readString cs = some (s, rest)) :
    ∃ units body, Units units body ∧ s = textOf units ∧ cs = body ++ '"' :: rest := by
  simp only [readString, Option.bind_eq_bind, Option.bind_eq_some_iff, Option.pure_def,
    Option.some.injEq, Prod.mk.injEq, Prod.exists] at h
  obtain ⟨units, behind, hUnits, rfl, rfl⟩ := h
  obtain ⟨body, hBody, hText⟩ := exists_units hUnits
  exact ⟨units, body, hBody, rfl, hText⟩

theorem digits_of_readDigits (h : readDigits cs = some (ds, rest)) :
    Digits ds ∧ cs = ds ++ rest := by
  rw [readDigits] at h
  split at h
  · cases h
  · rename_i hSome
    cases h
    exact ⟨⟨hSome, fun _ hMem => List.mem_takeWhile_imp hMem⟩,
      List.takeWhile_append_dropWhile.symm⟩

theorem exists_fraction {fraction : Option (List Char)}
    (h : readFraction cs = some (fraction, rest)) :
    ∃ fs, Fraction fraction fs ∧ cs = fs ++ rest := by
  unfold readFraction at h
  split at h
  · simp only [Option.bind_eq_bind, Option.bind_eq_some_iff, Option.pure_def, Option.some.injEq,
      Prod.mk.injEq, Prod.exists] at h
    obtain ⟨ds, behind, hDigits, rfl, rfl⟩ := h
    obtain ⟨hSpelled, rfl⟩ := digits_of_readDigits hDigits
    exact ⟨_, .some hSpelled, rfl⟩
  · cases h
    exact ⟨[], .none, rfl⟩

theorem exists_exponent {exponent : Option Int} (h : readExponent cs = some (exponent, rest)) :
    ∃ es, Exponent exponent es ∧ cs = es ++ rest := by
  simp only [readExponent, Option.bind_eq_bind] at h
  split at h
  · rename_i mark tail
    split at h
    · rename_i hMark
      split at h
      all_goals
        simp only [Option.bind_eq_some_iff, Option.pure_def, Option.some.injEq, Prod.mk.injEq,
          Prod.exists] at h
        obtain ⟨ds, behind, hDigits, rfl, rfl⟩ := h
        obtain ⟨hSpelled, rfl⟩ := digits_of_readDigits hDigits
      · rw [Int.one_mul]
        exact ⟨_, .positive hMark hSpelled, rfl⟩
      · rw [Int.neg_mul, Int.one_mul]
        exact ⟨_, .negative hMark hSpelled, rfl⟩
      · rw [Int.one_mul]
        exact ⟨_, .unsigned hMark hSpelled, rfl⟩
    · cases h
      exact ⟨[], .none, rfl⟩
  · cases h
    exact ⟨[], .none, rfl⟩

theorem exists_numeral {numeral : Numeral} {negative : Bool}
    (h : readNumeral negative cs = some (numeral, rest)) :
    ∃ body, Unsigned numeral body ∧ numeral.negative = negative ∧ cs = body ++ rest := by
  simp only [readNumeral, Option.bind_eq_bind, Option.bind_eq_some_iff, Option.pure_def,
    Option.some.injEq, Prod.mk.injEq, Prod.exists, Option.guard_eq_some'] at h
  obtain ⟨whole, behindWhole, hWhole, _, hProper, fraction, behindFraction, hFraction, exponent,
    behind, hExponent, rfl, rfl⟩ := h
  obtain ⟨hDigits, rfl⟩ := digits_of_readDigits hWhole
  obtain ⟨fs, hFs, rfl⟩ := exists_fraction hFraction
  obtain ⟨es, hEs, rfl⟩ := exists_exponent hExponent
  refine ⟨whole ++ (fs ++ es), ⟨hDigits, hProper, fs, es, hFs, hEs, rfl⟩, rfl, ?_⟩
  simp only [List.append_assoc]

theorem readWord_eq {word : List Char} {value : Draft}
    (h : readWord word value cs = ⟨d, some rest⟩) : d = value ∧ cs = word ++ rest := by
  rw [readWord] at h
  split at h
  · rename_i hPrefix
    cases h
    exact ⟨rfl, (List.prefix_iff_eq_append.mp (List.isPrefixOf_iff_prefix.mp hPrefix)).symm⟩
  · cases h

theorem exists_scalar (h : readScalar cs = ⟨d, some rest⟩) :
    ∃ body, Spelling (.value d) body ∧ cs = body ++ rest := by
  unfold readScalar at h
  split at h
  · obtain ⟨rfl, hText⟩ := readWord_eq h
    exact ⟨_, .null, hText⟩
  · obtain ⟨rfl, hText⟩ := readWord_eq h
    exact ⟨_, .yes, hText⟩
  · obtain ⟨rfl, hText⟩ := readWord_eq h
    exact ⟨_, .no, hText⟩
  · split at h
    · rename_i hString
      cases h
      obtain ⟨units, body, hBody, rfl, rfl⟩ := exists_string hString
      exact ⟨_, .string hBody, by simp⟩
    · cases h
  · dsimp only at h
    split at h
    · rename_i hNumeral
      cases h
      obtain ⟨body, hBody, hSign, rfl⟩ := exists_numeral hNumeral
      exact ⟨_, .negative hSign hBody, rfl⟩
    · cases h
  · dsimp only at h
    split at h
    · rename_i hNumeral
      cases h
      obtain ⟨body, hBody, hSign, rfl⟩ := exists_numeral hNumeral
      exact ⟨_, .natural hSign hBody, rfl⟩
    · cases h

/-- With some fuel: where a reader gets to the end of a phrase, it has passed over a spelling. -/
structure Passes (fuel : Nat) : Prop where
  value : ∀ {cs rest : List Char} {d : Draft}, readValue fuel cs = ⟨d, some rest⟩ →
    ∃ before body, Gap before ∧ Spelling (.value d) body ∧ cs = before ++ (body ++ rest)
  items : ∀ {cs rest : List Char} {ds : List Draft}, readItems fuel cs = ⟨ds, some rest⟩ →
    ∃ body, Spelling (.items ds) body ∧ cs = body ++ ']' :: rest
  members : ∀ {cs rest : List Char} {ms : List (Option String × Draft)},
    readMembers fuel cs = ⟨ms, some rest⟩ →
    ∃ body, Spelling (.members ms) body ∧ cs = body ++ '\x7d' :: rest

theorem Reading.eq_mk {α : Type} {r : Reading α} (h : r.rest = some rest) :
    r = ⟨r.value, some rest⟩ := by
  rw [← h]

theorem Passes.value_succ (hPasses : Passes fuel) (h : readValue (fuel + 1) cs = ⟨d, some rest⟩) :
    ∃ before body, Gap before ∧ Spelling (.value d) body ∧ cs = before ++ (body ++ rest) := by
  suffices hInner : ∃ body, Spelling (.value d) body ∧ skipSpace cs = body ++ rest by
    obtain ⟨body, hBody, hInner⟩ := hInner
    obtain ⟨before, hBefore, hText⟩ := exists_gap cs
    exact ⟨before, body, hBefore, hBody, hInner ▸ hText⟩
  rw [readValue] at h
  split at h
  · rename_i behind hBracket
    rw [hBracket]
    split at h
    · rename_i hEmpty
      cases h
      obtain ⟨gap, hGap, hBehind⟩ := exists_gap behind
      exact ⟨_, .emptyArray hGap, by rw [hBehind, hEmpty]; simp⟩
    · rw [readItems_skipSpace] at h
      obtain ⟨rfl, hRest⟩ := Reading.mk.inj h
      obtain ⟨body, hBody, hItems⟩ := hPasses.items (Reading.eq_mk hRest)
      rw [hRest]
      exact ⟨_, .array hBody, by simp [hItems]⟩
  · rename_i behind hBrace
    rw [hBrace]
    split at h
    · rename_i hEmpty
      cases h
      obtain ⟨gap, hGap, hBehind⟩ := exists_gap behind
      exact ⟨_, .emptyObject hGap, by rw [hBehind, hEmpty]; simp⟩
    · rw [readMembers_skipSpace] at h
      obtain ⟨rfl, hRest⟩ := Reading.mk.inj h
      obtain ⟨body, hBody, hMembers⟩ := hPasses.members (Reading.eq_mk hRest)
      rw [hRest]
      exact ⟨_, .object hBody, by simp [hMembers]⟩
  · exact exists_scalar h

theorem Passes.padded (hPasses : Passes fuel)
    (h : (readValue fuel cs).rest.map skipSpace = some (c :: rest)) :
    ∃ body, Spelling (.padded (readValue fuel cs).value) body ∧ cs = body ++ c :: rest := by
  obtain ⟨behind, hBehind, hSkip⟩ := Option.map_eq_some_iff.mp h
  obtain ⟨before, body, hBefore, hBody, hText⟩ := hPasses.value (Reading.eq_mk hBehind)
  obtain ⟨after, hAfter, hRest⟩ := exists_gap behind
  refine ⟨before ++ (body ++ after), .padded hBefore hBody hAfter, ?_⟩
  rw [hText, hRest, hSkip]
  simp only [List.append_assoc]

theorem Passes.items_succ (hPasses : Passes fuel) {ds : List Draft}
    (h : readItems (fuel + 1) cs = ⟨ds, some rest⟩) :
    ∃ body, Spelling (.items ds) body ∧ cs = body ++ ']' :: rest := by
  rw [readItems] at h
  split at h
  · cases h
  · rw [readValue_skipSpace] at h
    dsimp only at h
    split at h
    · rename_i behind hComma
      obtain ⟨body, hBody, hText⟩ := hPasses.padded hComma
      obtain ⟨rfl, hRest⟩ := Reading.mk.inj h
      obtain ⟨others, hOthers, rfl⟩ := hPasses.items (Reading.eq_mk hRest)
      exact ⟨_, .items hBody hOthers, by simp [hText]⟩
    · rename_i hBracket
      cases h
      obtain ⟨body, hBody, hText⟩ := hPasses.padded hBracket
      exact ⟨body, .item hBody, hText⟩
    · cases h

theorem Passes.members_succ (hPasses : Passes fuel) {ms : List (Option String × Draft)}
    (h : readMembers (fuel + 1) cs = ⟨ms, some rest⟩) :
    ∃ body, Spelling (.members ms) body ∧ cs = body ++ '\x7d' :: rest := by
  rw [readMembers] at h
  split at h
  · rename_i inner hQuote
    obtain ⟨before, hBefore, hText⟩ := exists_gap cs
    rw [hQuote] at hText
    subst hText
    split at h
    · cases h
    · rename_i key behindKey hKey
      obtain ⟨units, name, hName, rfl, rfl⟩ := exists_string hKey
      obtain ⟨gap, hGap, hBehind⟩ := exists_gap behindKey
      split at h
      · rename_i inside hColon
        rw [hColon] at hBehind
        subst hBehind
        dsimp only at h
        split at h
        · rename_i behind hComma
          obtain ⟨body, hBody, hText⟩ := hPasses.padded hComma
          obtain ⟨rfl, hRest⟩ := Reading.mk.inj h
          obtain ⟨others, hOthers, rfl⟩ := hPasses.members (Reading.eq_mk hRest)
          exact ⟨_, .members hBefore hName hGap hBody hOthers, by simp [hText]⟩
        · rename_i hBrace
          cases h
          obtain ⟨body, hBody, hText⟩ := hPasses.padded hBrace
          exact ⟨_, .member hBefore hName hGap hBody, by simp [hText]⟩
        · cases h
      · cases h
  · cases h

-- The three readers call each other with less fuel, so one induction carries all three.
theorem passes (fuel : Nat) : Passes fuel := by
  induction fuel with
  | zero => exact ⟨nofun, nofun, nofun⟩
  | succ fuel ih => exact ⟨ih.value_succ, ih.items_succ, ih.members_succ⟩

theorem read_eq_iff : read cs = ⟨d, true⟩ ↔ Spelling (.padded d) cs := by
  refine ⟨fun h => ?_, read_of_spelling⟩
  obtain ⟨hRoot, hComplete⟩ := Document.mk.inj h
  split at hComplete
  · rename_i rest hRest
    obtain ⟨before, body, hBefore, hBody, hText⟩ := (passes _).value (Reading.eq_mk hRest)
    obtain ⟨after, hAfter, hBehind⟩ := exists_gap rest
    rw [List.isEmpty_iff.mp hComplete, List.append_nil] at hBehind
    rw [hText, hBehind, ← hRoot]
    exact .padded hBefore hBody hAfter
  · cases hComplete

section

variable {α : Type} {decoder : Decoder α} {text : String}

/-- The text says what is in the draft, with space around it. -/
def Spells (text : String) (d : Draft) : Prop := Spelling (.padded d) text.toList

theorem decodeText_of_read (h : read text.toList = ⟨d, true⟩) :
    decodeText decoder text = decoder d := by
  rw [decodeText, h]
  cases decoder d <;> rfl

theorem decodeText_of_spells (h : Spells text d) : decodeText decoder text = decoder d :=
  decodeText_of_read (read_of_spelling h)

theorem decodeText_eq_ok_iff {a : α} :
    decodeText decoder text = .ok a ↔ ∃ d, Spells text d ∧ decoder d = .ok a := by
  constructor
  · intro h
    obtain ⟨b, hDecoded, h⟩ := bind_eq_ok h
    split at h
    · rename_i hComplete
      cases h
      exact ⟨_, read_eq_iff.mp (by rw [← hComplete]), hDecoded⟩
    · cases h
  · rintro ⟨d, hSpelled, hDecoded⟩
    rw [decodeText_of_spells hSpelled, hDecoded]

end

def Phrase.IsSound : Phrase → Prop
  | .value d | .padded d => d.isSound = true
  | .items ds => soundItems ds = true
  | .members ms => soundMembers ms = true

theorem Spelling.isSound {phrase : Phrase} (h : Spelling phrase cs) : phrase.IsSound := by
  induction h with
  | padded _ _ _ ih => exact ih
  | array _ ih | object _ ih => exact Bool.and_eq_true_iff.mpr ⟨ih, rfl⟩
  | item _ ih | member _ _ _ _ ih => exact Bool.and_eq_true_iff.mpr ⟨ih, rfl⟩
  | items _ _ ih ihOthers | members _ _ _ _ _ ih ihOthers =>
    exact Bool.and_eq_true_iff.mpr ⟨ih, ihOthers⟩
  | _ => rfl

end LiteralLint.Json
