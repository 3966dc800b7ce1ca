import LiteralLint.Proofs.Json.Record
import LiteralLint.Proofs.Json.Writing

/-! # What is written is decoded

Each decoder gives back what the writer of its type was given, as far as integers fit the bits of
their type. -/

set_option autoImplicit false

namespace LiteralLint.Json

section

variable {n : Nat} {ds : List Char}

theorem le_foldl_digits (ds : List Char) (n : Nat) :
    n ≤ ds.foldl (fun n c => n * 10 + (Text.digitValue? c).getD 0) n := by
  induction ds generalizing n with
  | nil => exact Nat.le_refl n
  | cons d ds ih =>
    have hStep := ih (n * 10 + (Text.digitValue? d).getD 0)
    rw [List.foldl_cons]
    omega

theorem takeDigits_eq_foldl
    (h : ds.foldl (fun n c => n * 10 + (Text.digitValue? c).getD 0) n ≤ greatestNatural) :
    takeDigits n ds = (ds.foldl (fun n c => n * 10 + (Text.digitValue? c).getD 0) n, 0) := by
  induction ds generalizing n with
  | nil => rfl
  | cons d ds ih =>
    rw [List.foldl_cons] at h ⊢
    have hNext := Nat.le_trans (le_foldl_digits ds _) h
    rw [takeDigits, Nat.mul_comm 10 n, if_neg (Nat.not_lt.mpr hNext), ih h]

theorem takeDigits_decimal (h : n ≤ greatestNatural) :
    takeDigits 0 (Text.decimal n) = (n, 0) := by
  have hDigits := Text.ofDigits_decimal n
  rw [Text.ofDigits] at hDigits
  rw [takeDigits_eq_foldl (by rw [hDigits]; exact h), hDigits]

theorem value?_ofInt_natural (h : n ≤ greatestNatural) :
    (Numeral.ofInt n).value? = some (.natural n) := by
  have hSign : decide ((n : Int) < 0) = false := decide_eq_false (by omega)
  simp only [Numeral.value?, Numeral.ofInt, Int.natAbs_natCast, takeDigits_decimal h, hSign,
    Bool.not_false, if_pos]

theorem value?_ofInt_negative {n : Int} (hNegative : n < 0) (h : leastInteger ≤ n) :
    (Numeral.ofInt n).value? = some (.negative n) := by
  have hLeast : leastInteger = -9223372036854775808 := rfl
  have hGreatest : greatestNatural = 18446744073709551615 := rfl
  have hSize : n.natAbs ≤ greatestNatural := by omega
  have hValue : -(n.natAbs : Int) = n := by omega
  have hSign : decide (n < 0) = true := decide_eq_true hNegative
  simp only [Numeral.value?, Numeral.ofInt, takeDigits_decimal hSize, hSign, hValue,
    Bool.not_true, if_pos]
  rw [if_neg Bool.false_ne_true, if_pos ⟨hNegative, h⟩]

end

namespace Decode

theorem integerIn_int {least greatest n : Int} (expected : String)
    (hBits : leastInteger ≤ n ∧ n ≤ greatestNatural) (h : least ≤ n ∧ n ≤ greatest) :
    integerIn least greatest expected (Json.int n).draft = .ok n := by
  rcases Int.lt_or_le n 0 with hNegative | hNatural
  · simp only [integerIn, draft, value?_ofInt_negative hNegative hBits.1, if_pos h]
  · obtain ⟨k, rfl⟩ := Int.eq_ofNat_of_zero_le hNatural
    have hSize : k ≤ greatestNatural := Int.ofNat_le.mp hBits.2
    simp only [integerIn, draft, value?_ofInt_natural hSize, if_pos h]

theorem natural_int {n : Nat} (h : n ≤ greatestNatural) : natural (Json.int n).draft = .ok n := by
  have hLeast : leastInteger = -9223372036854775808 := rfl
  rw [natural, integerIn_int "usize" ⟨by omega, by omega⟩ ⟨by omega, by omega⟩]
  rfl

theorem int32_int (v : Int32) : int32 (Json.int v.toInt).draft = .ok v := by
  have hLeast : leastInteger = -9223372036854775808 := rfl
  have hGreatest : greatestNatural = 18446744073709551615 := rfl
  have hLower := v.le_toInt
  have hUpper := v.toInt_lt
  rw [int32, integerIn_int "i32" ⟨by omega, by omega⟩ ⟨v.minValue_le_toInt, v.toInt_le⟩]
  exact congrArg Except.ok v.ofInt_toInt

theorem optional_draft {α : Type} {write : α → Json} {decoder : Decoder α} {value : Option α}
    (hNull : ∀ a, write a ≠ .null)
    (h : ∀ a ∈ value, decoder (write a).draft = .ok a) :
    optional decoder (Json.optional write value).draft = .ok value := by
  cases value with
  | none => rfl
  | some a =>
    have hDraft : (write a).draft ≠ Json.null.draft := mt draft_injective (hNull a)
    rw [Json.optional, optional_of_ne_null hDraft, h a rfl]
    rfl

theorem itemDrafts_map {α : Type} (write : α → Json) (values : List α) :
    itemDrafts (values.map write) = values.map fun a => (write a).draft := by
  induction values with
  | nil => rfl
  | cons a values ih => rw [List.map_cons, itemDrafts, ih, List.map_cons]

theorem list_array_map {α : Type} {write : α → Draft} {decoder : Decoder α} {values : List α}
    (h : ∀ a ∈ values, decoder (write a) = .ok a) :
    list decoder (.array (values.map write) true) = .ok values := by
  rw [list_array_eq_ok_iff, mapM_eq_ok_iff, List.forall₂_map_left_iff]
  exact ⟨List.forall₂_same.mpr h, rfl⟩

theorem list_draft {α : Type} {write : α → Json} {decoder : Decoder α} {values : List α}
    (h : ∀ a ∈ values, decoder (write a).draft = .ok a) :
    list decoder (Json.arr (values.map write)).draft = .ok values := by
  rw [draft, itemDrafts_map]
  exact list_array_map h

end Decode

namespace Record

variable {α β : Type} {given : String → Option Draft} {missing : String → DecodeError}

theorem Yields.pure (a : α) : (Record.pure a).Yields given missing a :=
  yields_pure_iff.mpr rfl

theorem Yields.field {name : String} {item : Decoder α} {default? : Option α} {d : Draft} {a : α}
    (hGiven : given name = some d) (h : item d = .ok a) :
    (Record.field name item default?).Yields given missing a :=
  yields_field_iff.mpr (Or.inl ⟨d, hGiven, h⟩)

theorem Yields.apply {f : Record (α → β)} {r : Record α} {g : α → β} {a : α}
    (hFirst : f.Yields given missing g) (hSecond : r.Yields given missing a) :
    (Record.apply f r).Yields given missing (g a) :=
  yields_and_iff.mpr ⟨g, a, hFirst, hSecond, rfl⟩

theorem memberDrafts_eq_map (members : List (String × Json)) :
    memberDrafts members =
      (members.map fun m => (m.1, m.2.draft)).map fun m => (some m.1, m.2) := by
  induction members with
  | nil => rfl
  | cons m members ih => rw [List.map_cons, List.map_cons, ← ih]; rfl

theorem decoder_draft {r : Record α} {title : String} {members : List (String × Json)} {a : α}
    (hNames : members.map Prod.fst = r.names) (hUnique : r.names.Nodup)
    (h : ∀ missing, r.Yields (List.lookup · (members.map fun m => (m.1, m.2.draft))) missing a) :
    r.decoder title (Json.obj members).draft = .ok a := by
  have hGiven : (members.map fun m => (m.1, m.2.draft)).map Prod.fst = r.names := by
    rw [List.map_map, ← hNames]
    rfl
  rw [draft, memberDrafts_eq_map, decoder_object_named_iff fun _ hKey => hGiven ▸ hKey]
  exact ⟨hGiven ▸ hUnique, h _⟩

end Record

end LiteralLint.Json
