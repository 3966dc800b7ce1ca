import LiteralLint.Position
import Mathlib.Data.List.Induction

/-! # Positions by counting

The position at which a text ends, counted from the text itself. It moves strictly forward with
every character, so that beginnings of a text are ordered as their lengths are. -/

set_option autoImplicit false

namespace LiteralLint.Position

theorem le_iff {a b : Position} :
    a ≤ b ↔ a.line < b.line ∨ a.line = b.line ∧ a.character ≤ b.character := by
  constructor
  · rintro (hLess | rfl)
    · rcases lt_def.mp hLess with hLine | ⟨hLine, hCharacter⟩
      · exact Or.inl hLine
      · exact Or.inr ⟨hLine, Nat.le_of_lt hCharacter⟩
    · exact Or.inr ⟨rfl, Nat.le_refl _⟩
  · rintro (hLine | ⟨hLine, hCharacter⟩)
    · exact Or.inl (lt_def.mpr (Or.inl hLine))
    · rcases Nat.lt_or_eq_of_le hCharacter with hLess | hEq
      · exact Or.inl (lt_def.mpr (Or.inr ⟨hLine, hLess⟩))
      · cases a
        cases b
        cases hLine
        cases hEq
        exact Or.inr rfl

theorem lt_of_le_of_lt {a b c : Position} (hab : a ≤ b) (hbc : b < c) : a < c := by
  rw [le_iff] at hab
  rw [lt_def] at hbc ⊢
  omega

theorem lt_of_lt_of_le {a b c : Position} (hab : a < b) (hbc : b ≤ c) : a < c := by
  rw [le_iff] at hbc
  rw [lt_def] at hab ⊢
  omega

theorem not_lt_of_le {a b : Position} (hab : a ≤ b) : ¬ b < a := by
  rw [le_iff] at hab
  rw [lt_def]
  omega

theorem line_le_of_le {a b : Position} (hab : a ≤ b) : a.line ≤ b.line := by
  rw [le_iff] at hab
  omega

/-- The end of a text: the number of its line feeds, and of the characters behind the last one. -/
def behind (cs : List Char) : Position :=
  ⟨cs.count '\n', (cs.reverse.takeWhile (· ≠ '\n')).length⟩

theorem line_behind_le_length (cs : List Char) : (behind cs).line ≤ cs.length :=
  List.count_le_length

theorem character_behind_le_length (cs : List Char) : (behind cs).character ≤ cs.length := by
  have hLast := (List.takeWhile_sublist (· ≠ '\n') (l := cs.reverse)).length_le
  rwa [List.length_reverse] at hLast

theorem behind_concat (cs : List Char) (c : Char) :
    behind (cs ++ [c]) = if c = '\n' then ⟨(behind cs).line + 1, 0⟩
      else ⟨(behind cs).line, (behind cs).character + 1⟩ := by
  by_cases hFeed : c = '\n'
  · simp [behind, hFeed]
  · simp [behind, hFeed]

theorem behind_lt_concat (cs : List Char) (c : Char) : behind cs < behind (cs ++ [c]) := by
  rw [behind_concat, lt_def]
  split
  · exact Or.inl (Nat.lt_succ_self _)
  · exact Or.inr ⟨rfl, Nat.lt_succ_self _⟩

theorem behind_le_append (cs ds : List Char) : behind cs ≤ behind (cs ++ ds) := by
  induction ds using List.reverseRecOn with
  | nil =>
    rw [List.append_nil]
    exact Or.inr rfl
  | append_singleton ds d ih =>
    rw [← List.append_assoc]
    exact Or.inl (lt_of_le_of_lt ih (behind_lt_concat _ d))

theorem behind_lt_append (cs : List Char) {ds : List Char} (h : ds ≠ []) :
    behind cs < behind (cs ++ ds) := by
  cases ds with
  | nil => exact absurd rfl h
  | cons d ds =>
    rw [← List.singleton_append, ← List.append_assoc]
    exact lt_of_lt_of_le (behind_lt_concat cs d) (behind_le_append _ ds)

theorem line_behind_append (cs ds : List Char) :
    (behind (cs ++ ds)).line = (behind cs).line + ds.count '\n' :=
  List.count_append

theorem character_behind_append {cs ds : List Char} (h : '\n' ∉ ds) :
    (behind (cs ++ ds)).character = (behind cs).character + ds.length := by
  have hPlain : ∀ d ∈ ds.reverse, decide (d ≠ '\n') = true := by
    intro d hd
    refine decide_eq_true fun hFeed => h ?_
    rwa [hFeed, List.mem_reverse] at hd
  simp only [behind, List.reverse_append, List.takeWhile_append_of_pos hPlain, List.length_append,
    List.length_reverse, Nat.add_comm]

/-- Where a position of a text comes to lie when another text that ends at `origin` is put in
front: all lines move down, and the first one to the right as well. -/
def relocate (p origin : Position) : Position :=
  ⟨p.line + origin.line, p.character + if p.line = 0 then origin.character else 0⟩

theorem behind_append (cs ds : List Char) :
    behind (cs ++ ds) = (behind ds).relocate (behind cs) := by
  induction ds using List.reverseRecOn with
  | nil => simp [relocate, behind]
  | append_singleton ds d ih =>
    rw [← List.append_assoc, behind_concat, behind_concat, ih]
    by_cases hFeed : d = '\n'
    · simp only [relocate, if_pos hFeed, Nat.add_right_comm, Nat.succ_ne_zero, if_false]
    · simp only [relocate, if_neg hFeed, Nat.add_right_comm]

section Beginnings

variable {cs : List Char} {m n : Nat}

theorem take_eq_append (h : m ≤ n) : cs.take n = cs.take m ++ (cs.drop m).take (n - m) := by
  rw [← List.take_add, Nat.add_sub_cancel' h]

theorem behind_take_le (h : m ≤ n) : behind (cs.take m) ≤ behind (cs.take n) := by
  rw [take_eq_append h]
  exact behind_le_append _ _

theorem behind_take_lt (h : m < n) (hn : n ≤ cs.length) :
    behind (cs.take m) < behind (cs.take n) := by
  rw [take_eq_append (Nat.le_of_lt h)]
  apply behind_lt_append
  intro hNil
  have hLength := congrArg List.length hNil
  rw [List.length_take, List.length_drop, List.length_nil] at hLength
  omega

theorem behind_take_le_iff (hm : m ≤ cs.length) :
    behind (cs.take m) ≤ behind (cs.take n) ↔ m ≤ n := by
  refine ⟨fun h => Nat.not_lt.mp fun hLess => ?_, behind_take_le⟩
  exact not_lt_of_le h (behind_take_lt hLess hm)

theorem line_behind_take_le (cs : List Char) (n : Nat) :
    (behind (cs.take n)).line ≤ cs.count '\n' :=
  List.Sublist.count_le _ (List.take_sublist n cs)

theorem line_behind_take_eq_iff (h : m ≤ n) :
    (behind (cs.take m)).line = (behind (cs.take n)).line ↔
      '\n' ∉ (cs.drop m).take (n - m) := by
  rw [take_eq_append h, line_behind_append, ← List.count_eq_zero]
  omega

end Beginnings

end LiteralLint.Position
