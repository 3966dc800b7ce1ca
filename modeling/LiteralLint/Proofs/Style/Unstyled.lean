import LiteralLint.Number.Shortest
import LiteralLint.Output
import LiteralLint.Proofs.Json.Writing
import LiteralLint.Proofs.Text.Lines
import LiteralLint.Text.Quotation

/-! # Unstyled text

Every mark of a style begins with an escape. A text without one is unstyled. It stays so in longer
texts, and whatever is quoted or written as JSON becomes unstyled. -/

set_option autoImplicit false

namespace LiteralLint

def Unstyled (text : String) : Prop := '\x1b' ∉ text.toList

instance (text : String) : Decidable (Unstyled text) := inferInstanceAs (Decidable (_ ∉ _))

section

variable {a b text separator : String} {texts : List String} {cs : List Char} {c : Char}

@[simp] theorem unstyled_append : Unstyled (a ++ b) ↔ Unstyled a ∧ Unstyled b := by
  simp [Unstyled]

@[simp] theorem unstyled_ofList : Unstyled (String.ofList cs) ↔ '\x1b' ∉ cs := by
  simp [Unstyled]

@[simp] theorem unstyled_toString : Unstyled (toString text) ↔ Unstyled text := Iff.rfl

theorem unstyled_intercalate (hSeparator : Unstyled separator)
    (h : ∀ text ∈ texts, Unstyled text) : Unstyled (separator.intercalate texts) := by
  intro hEscape
  obtain ⟨text, hText, hMem⟩ := (mem_toList_intercalate_iff hSeparator).mp hEscape
  exact h text hText hMem

theorem unstyled_join (h : ∀ text ∈ texts, Unstyled text) : Unstyled (String.join texts) := by
  induction texts with
  | nil => decide
  | cons text texts ih =>
    obtain ⟨hText, hTexts⟩ := List.forall_mem_cons.mp h
    rw [String.join_cons, unstyled_append]
    exact ⟨hText, ih hTexts⟩

@[simp] theorem unstyled_line : Unstyled (Output.line text) ↔ Unstyled text := by
  rw [Output.line, unstyled_append, and_iff_left (by decide)]

@[simp] theorem unstyled_lines :
    Unstyled (Output.lines texts) ↔ ∀ text ∈ texts, Unstyled text := by
  rw [Output.lines]
  induction texts with
  | nil => simp [Unstyled]
  | cons text texts ih => simp [ih]

end

section

variable {n : Nat} {cs : List Char}

theorem escape_ne_of_isDigit {c : Char} (h : c.isDigit = true) : c ≠ '\x1b' := by
  rintro rfl
  exact absurd h (by decide)

theorem escape_not_mem_decimal (n : Nat) : '\x1b' ∉ Text.decimal n :=
  fun h => escape_ne_of_isDigit (Text.isDigit_of_mem_decimal h) rfl

theorem escape_not_mem_hexadecimal (n : Nat) : '\x1b' ∉ Text.hexadecimal n := by
  intro h
  obtain ⟨value, hLess, hEq⟩ := Text.exists_of_mem_hexadecimal h
  have hAll : ∀ v : Fin 16, '\x1b' ≠ Text.digitChar v := by decide
  exact hAll ⟨value, hLess⟩ hEq

theorem escape_not_mem_integer (n : Int) : '\x1b' ∉ Text.integer n := by
  cases n with
  | ofNat k => exact escape_not_mem_decimal k
  | negSucc k => simp [Text.integer, escape_not_mem_decimal]

@[simp] theorem unstyled_natRepr (n : Nat) : Unstyled n.repr :=
  fun h => escape_ne_of_isDigit (Text.isDigit_of_mem_natRepr h) rfl

@[simp] theorem unstyled_intRepr (n : Int) : Unstyled n.repr := by
  cases n with
  | ofNat k => exact unstyled_natRepr k
  | negSucc k => exact unstyled_append.mpr ⟨by decide, unstyled_natRepr _⟩

@[simp] theorem unstyled_boolToString (b : Bool) : Unstyled (toString b) := by
  cases b <;> decide

theorem escape_not_mem_positional (d : ShortDecimal) : '\x1b' ∉ d.positional := by
  have hDigits := escape_not_mem_decimal d.digits
  have hZeros (n : Int) : '\x1b' ∉ ShortDecimal.zeros n := by simp [ShortDecimal.zeros]
  rw [ShortDecimal.positional]
  split
  · simp [hDigits, hZeros]
  · split
    · simp only [List.mem_append, List.mem_cons, not_or]
      exact ⟨fun h => hDigits (List.mem_of_mem_take h), by decide,
        fun h => hDigits (List.mem_of_mem_drop h)⟩
    · simp [hDigits, hZeros]

theorem Binary64.escape_not_mem_positional (f : Binary64) : '\x1b' ∉ f.positional := by
  have hSign (negative : Bool) : '\x1b' ∉ sign negative := by cases negative <;> decide
  cases f with
  | nan => decide
  | infinite negative => simp [positional, hSign]
  | finite negative m e =>
    rw [positional, List.mem_append, not_or]
    refine ⟨hSign negative, ?_⟩
    split
    · decide
    · exact LiteralLint.escape_not_mem_positional _

end

theorem Text.escape_not_mem_quotedChar (c : Char) : '\x1b' ∉ quotedChar c := by
  unfold quotedChar
  split
  case h_7 =>
    split
    · simp [escape_not_mem_hexadecimal]
    · rename_i hShown
      rw [List.mem_singleton]
      rintro rfl
      exact hShown (by decide)
  all_goals decide

@[simp] theorem unstyled_quoted (text : String) : Unstyled (Text.quoted text) := by
  rw [Text.quoted, unstyled_ofList]
  simp [Text.escape_not_mem_quotedChar]

namespace Json

theorem escape_not_mem_writeChar (c : Char) : '\x1b' ∉ writeChar c := by
  unfold writeChar
  split
  case h_8 =>
    split
    · simp [Text.hexadecimal4, escape_not_mem_hexadecimal]
    · rename_i hShown
      rw [List.mem_singleton]
      rintro rfl
      exact hShown (by decide)
  all_goals decide

theorem escape_not_mem_writeString (s : String) : '\x1b' ∉ writeString s := by
  simp [writeString, escape_not_mem_writeChar]

theorem escape_not_mem_newline (depth : Nat) : '\x1b' ∉ newline depth := by
  simp [newline]

mutual

theorem escape_not_mem_prettyChars (depth : Nat) : ∀ j : Json, '\x1b' ∉ j.prettyChars depth
  | .null => by simp [prettyChars, writeNull]
  | .bool b => by cases b <;> simp [prettyChars, writeBool]
  | .int n => escape_not_mem_integer n
  | .str s => escape_not_mem_writeString s
  | .arr [] => by simp [prettyChars]
  | .arr (item :: items) => by
    have hItems := escape_not_mem_prettyItems (depth + 1) (item :: items)
    simp [prettyChars, hItems, escape_not_mem_newline]
  | .obj [] => by simp [prettyChars]
  | .obj (member :: members) => by
    have hMembers := escape_not_mem_prettyMembers (depth + 1) (member :: members)
    simp [prettyChars, hMembers, escape_not_mem_newline]

theorem escape_not_mem_prettyItems (depth : Nat) :
    ∀ items : List Json, '\x1b' ∉ prettyItems depth items
  | [] => by simp [prettyItems]
  | [item] => by
    simp [prettyItems, escape_not_mem_newline, escape_not_mem_prettyChars depth item]
  | item :: next :: items => by
    have hTail := escape_not_mem_prettyItems depth (next :: items)
    simp [prettyItems, escape_not_mem_newline, escape_not_mem_prettyChars depth item, hTail]

theorem escape_not_mem_prettyMembers (depth : Nat) :
    ∀ members : List (String × Json), '\x1b' ∉ prettyMembers depth members
  | [] => by simp [prettyMembers]
  | [(key, value)] => by
    simp [prettyMembers, escape_not_mem_newline, escape_not_mem_writeString,
      escape_not_mem_prettyChars depth value]
  | (key, value) :: next :: members => by
    have hTail := escape_not_mem_prettyMembers depth (next :: members)
    simp [prettyMembers, escape_not_mem_newline, escape_not_mem_writeString,
      escape_not_mem_prettyChars depth value, hTail]

end

@[simp] theorem unstyled_pretty (j : Json) : Unstyled j.pretty := by
  rw [pretty, unstyled_ofList]
  exact escape_not_mem_prettyChars 0 j

end Json

theorem Style.not_unstyled_paint (style : Style) (text : String) :
    ¬ Unstyled (style.paint text) := by
  rw [paint, unstyled_append, unstyled_append]
  rintro ⟨⟨hMark, -⟩, -⟩
  cases style <;> exact absurd hMark (by decide)

end LiteralLint
