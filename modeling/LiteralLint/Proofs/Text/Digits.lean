import LiteralLint.Text.Digits
import Mathlib.Data.List.Basic

/-! # Digits stand for their number

The digits of a number are read back as that number, and none of them is a zero in front of
others. -/

set_option autoImplicit false

namespace LiteralLint.Text

variable {base n value : Nat} {c : Char}

theorem digitValue?_digitChar (h : value < 16) : digitValue? (digitChar value) = some value := by
  have hAll : ∀ v : Fin 16, digitValue? (digitChar v) = some v.val := by decide
  exact hAll ⟨value, h⟩

theorem isDigit_digitChar (h : value < 10) : (digitChar value).isDigit = true := by
  have hAll : ∀ v : Fin 10, (digitChar v).isDigit = true := by decide
  exact hAll ⟨value, h⟩

theorem digitChar_ne_zero (hPos : 0 < value) (h : value < 10) : digitChar value ≠ '0' := by
  have hAll : ∀ v : Fin 10, 0 < v.val → digitChar v ≠ '0' := by decide
  exact hAll ⟨value, h⟩ hPos

theorem digitsInto_of_lt (h : n < base) (tail : List Char) :
    digitsInto base n tail = digitChar n :: tail := by
  rw [digitsInto, dif_pos (Or.inr h)]

theorem digitsInto_of_le (hBase : 2 ≤ base) (h : base ≤ n) (tail : List Char) :
    digitsInto base n tail = digitsInto base (n / base) (digitChar (n % base) :: tail) := by
  rw [digitsInto, dif_neg (by omega)]

theorem digitsInto_eq_append (hBase : 2 ≤ base) (n : Nat) (tail : List Char) :
    digitsInto base n tail = digitsInto base n [] ++ tail := by
  induction n using Nat.strongRecOn generalizing tail with
  | ind n ih =>
    rcases Nat.lt_or_ge n base with hLess | hGe
    · rw [digitsInto_of_lt hLess, digitsInto_of_lt hLess, List.singleton_append]
    · have hQuotient : n / base < n := Nat.div_lt_self (by omega) hBase
      rw [digitsInto_of_le hBase hGe, digitsInto_of_le hBase hGe, ih _ hQuotient,
        ih _ hQuotient [digitChar (n % base)], List.append_assoc, List.singleton_append]

theorem decimal_of_le (h : 10 ≤ n) : decimal n = decimal (n / 10) ++ [digitChar (n % 10)] := by
  rw [decimal, digitsInto_of_le (by decide) h, digitsInto_eq_append (by decide), decimal]

theorem decimal_of_lt (h : n < 10) : decimal n = [digitChar n] := digitsInto_of_lt h []

theorem isDigit_of_mem_decimal (h : c ∈ decimal n) : c.isDigit = true := by
  induction n using Nat.strongRecOn with
  | ind n ih =>
    rcases Nat.lt_or_ge n 10 with hLess | hGe
    · rw [decimal_of_lt hLess, List.mem_singleton] at h
      rw [h]
      exact isDigit_digitChar hLess
    · rw [decimal_of_le hGe, List.mem_append, List.mem_singleton] at h
      rcases h with h | rfl
      · exact ih (n / 10) (Nat.div_lt_self (by omega) (by decide)) h
      · exact isDigit_digitChar (Nat.mod_lt n (by decide))

theorem isDigit_of_mem_natRepr (h : c ∈ n.repr.toList) : c.isDigit = true := by
  rw [Nat.repr, String.toList_ofList] at h
  exact Nat.isDigit_of_mem_toDigits (by decide) (by decide) h

theorem exists_of_mem_hexadecimal (h : c ∈ hexadecimal n) : ∃ value < 16, c = digitChar value := by
  induction n using Nat.strongRecOn with
  | ind n ih =>
    rcases Nat.lt_or_ge n 16 with hLess | hGe
    · rw [hexadecimal, digitsInto_of_lt hLess, List.mem_singleton] at h
      exact ⟨n, hLess, h⟩
    · rw [hexadecimal, digitsInto_of_le (by decide) hGe, digitsInto_eq_append (by decide),
        List.mem_append, List.mem_singleton] at h
      rcases h with h | h
      · exact ih (n / 16) (Nat.div_lt_self (by omega) (by decide)) h
      · exact ⟨n % 16, Nat.mod_lt n (by decide), h⟩

theorem decimal_ne_nil (n : Nat) : decimal n ≠ [] := by
  rcases Nat.lt_or_ge n 10 with hLess | hGe
  · rw [decimal_of_lt hLess]
    exact List.cons_ne_nil _ _
  · rw [decimal_of_le hGe]
    exact List.append_ne_nil_of_right_ne_nil _ (List.cons_ne_nil _ _)

theorem head?_decimal_ne_zero (h : 0 < n) : (decimal n).head? ≠ some '0' := by
  induction n using Nat.strongRecOn with
  | ind n ih =>
    rcases Nat.lt_or_ge n 10 with hLess | hGe
    · rw [decimal_of_lt hLess, List.head?_cons]
      exact fun hZero => digitChar_ne_zero h hLess (Option.some.inj hZero)
    · rw [decimal_of_le hGe, List.head?_append_of_ne_nil _ (decimal_ne_nil _)]
      exact ih (n / 10) (Nat.div_lt_self (by omega) (by decide)) (by omega)

theorem length_decimal_eq_one_or (n : Nat) :
    (decimal n).length = 1 ∨ (decimal n).head? ≠ some '0' := by
  rcases Nat.eq_zero_or_pos n with rfl | hPos
  · exact Or.inl (by rw [decimal_of_lt (by decide)]; rfl)
  · exact Or.inr (head?_decimal_ne_zero hPos)

theorem ofDigits_concat (base : Nat) (ds : List Char) (c : Char) :
    ofDigits base (ds ++ [c]) = ofDigits base ds * base + (digitValue? c).getD 0 :=
  List.foldl_concat _ _ _ _

theorem ofDigits_decimal (n : Nat) : ofDigits 10 (decimal n) = n := by
  induction n using Nat.strongRecOn with
  | ind n ih =>
    rcases Nat.lt_or_ge n 10 with hLess | hGe
    · rw [decimal_of_lt hLess, ← List.nil_append [digitChar n], ofDigits_concat,
        digitValue?_digitChar (by omega)]
      exact Nat.zero_add n
    · rw [decimal_of_le hGe, ofDigits_concat, ih _ (Nat.div_lt_self (by omega) (by decide)),
        digitValue?_digitChar (by omega), Option.getD_some]
      omega

theorem decimal_injective : Function.Injective decimal :=
  Function.LeftInverse.injective ofDigits_decimal

end LiteralLint.Text
