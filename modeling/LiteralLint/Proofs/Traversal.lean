import Mathlib.Data.List.Forall2

/-! # Steps that may fail

What is known when one step after another succeeds, and when a step succeeds for every item of a
list. -/

set_option autoImplicit false

namespace LiteralLint

variable {ε α β : Type}

theorem bind_eq_ok {first : Except ε α} {next : α → Except ε β} {b : β}
    (h : first >>= next = .ok b) : ∃ a, first = .ok a ∧ next a = .ok b := by
  cases first with
  | error e => cases h
  | ok a => exact ⟨a, rfl, h⟩

theorem bind_of_ok {first : Except ε α} {next : α → Except ε β} {a : α} (h : first = .ok a) :
    first >>= next = next a := by
  rw [h]
  rfl

theorem exists_eq_ok_of_isSome {step : Except ε α} (h : step.toOption.isSome = true) :
    ∃ a, step = .ok a := by
  cases step with
  | error e => cases h
  | ok a => exact ⟨a, rfl⟩

theorem exists_bind_eq_ok {first : Except ε α} {next : α → Except ε β}
    (h : ∃ a, first = .ok a) (hNext : ∀ a, ∃ b, next a = .ok b) : ∃ b, first >>= next = .ok b := by
  obtain ⟨a, rfl⟩ := h
  exact hNext a

theorem bind_eq_error_iff {first : Except ε α} {next : α → Except ε β} {e : ε} :
    first >>= next = .error e ↔ first = .error e ∨ ∃ a, first = .ok a ∧ next a = .error e := by
  cases first with
  | error e' =>
    refine ⟨fun h => Or.inl (Except.error.inj h ▸ rfl), ?_⟩
    rintro (⟨⟨⟩⟩ | ⟨a, ⟨⟩, -⟩)
    rfl
  | ok a =>
    refine ⟨fun h => Or.inr ⟨a, rfl, h⟩, ?_⟩
    rintro (⟨⟨⟩⟩ | ⟨_, ⟨⟩, h⟩)
    exact h

theorem map_eq_ok {f : α → β} {first : Except ε α} {b : β} (h : f <$> first = .ok b) :
    ∃ a, first = .ok a ∧ f a = b := by
  cases first with
  | error e => cases h
  | ok a => exact ⟨a, rfl, Except.ok.inj h⟩

/-- What is known of a step however it ends: what it gives has the one property, and what it fails
with the other. -/
def Ends (P : α → Prop) (Q : ε → Prop) : Except ε α → Prop
  | .ok a => P a
  | .error e => Q e

section

variable {P : α → Prop} {R : β → Prop} {Q : ε → Prop}

theorem Ends.of_ok {first : Except ε α} {a : α} (h : Ends P Q first) (ha : first = .ok a) :
    P a := by
  rw [ha] at h
  exact h

theorem Ends.of_error {first : Except ε α} {e : ε} (h : Ends P Q first) (he : first = .error e) :
    Q e := by
  rw [he] at h
  exact h

theorem Ends.bind {first : Except ε α} {next : α → Except ε β} (h : Ends P Q first)
    (hNext : ∀ a, P a → Ends R Q (next a)) : Ends R Q (first >>= next) := by
  cases first with
  | error e => exact h
  | ok a => exact hNext a h

theorem Ends.map {f : α → β} {first : Except ε α} (h : Ends P Q first)
    (hf : ∀ a, P a → R (f a)) : Ends R Q (f <$> first) := by
  cases first with
  | error e => exact h
  | ok a => exact hf a h

theorem Ends.mapM {f : α → Except ε β} {xs : List α} (h : ∀ x ∈ xs, Ends R Q (f x)) :
    Ends (fun ys => ∀ y ∈ ys, R y) Q (xs.mapM f) := by
  induction xs with
  | nil => exact List.forall_mem_nil R
  | cons x xs ih =>
    rw [List.forall_mem_cons] at h
    rw [List.mapM_cons]
    refine h.1.bind fun y hy => (ih h.2).bind fun ys hys => ?_
    exact List.forall_mem_cons.mpr ⟨hy, hys⟩

end

theorem exists_forall₂_iff {R : α → β → Prop} {xs : List α} :
    (∃ ys, List.Forall₂ R xs ys) ↔ ∀ x ∈ xs, ∃ y, R x y := by
  induction xs with
  | nil => exact ⟨fun _ => List.forall_mem_nil _, fun _ => ⟨[], .nil⟩⟩
  | cons x xs ih =>
    rw [List.forall_mem_cons, ← ih]
    constructor
    · rintro ⟨_, hHead | ⟨hHead, hTail⟩⟩
      exact ⟨⟨_, hHead⟩, ⟨_, hTail⟩⟩
    · rintro ⟨⟨y, hHead⟩, ⟨ys, hTail⟩⟩
      exact ⟨y :: ys, .cons hHead hTail⟩

section

variable {f : α → Except ε β} {xs : List α}

theorem mapM_eq_ok_iff {ys : List β} :
    xs.mapM f = .ok ys ↔ List.Forall₂ (fun x y => f x = .ok y) xs ys := by
  induction xs generalizing ys with
  | nil =>
    constructor
    · rintro ⟨⟩
      exact .nil
    · rintro ⟨⟩
      rfl
  | cons x xs ih =>
    rw [List.mapM_cons]
    constructor
    · intro h
      obtain ⟨y, hHead, h⟩ := bind_eq_ok h
      obtain ⟨ys, hTail, h⟩ := bind_eq_ok h
      cases h
      exact .cons hHead (ih.mp hTail)
    · intro h
      cases h with
      | cons hHead hTail =>
        rw [hHead, ih.mpr hTail]
        rfl

theorem mapM_eq_ok {g : α → β} (h : ∀ x ∈ xs, f x = .ok (g x)) : xs.mapM f = .ok (xs.map g) := by
  rw [mapM_eq_ok_iff, List.forall₂_map_right_iff]
  exact List.forall₂_same.mpr h

theorem exists_mapM_eq_ok_iff :
    (∃ ys, xs.mapM f = .ok ys) ↔ ∀ x ∈ xs, ∃ y, f x = .ok y := by
  simp only [mapM_eq_ok_iff, exists_forall₂_iff]

theorem mapM_cons_eq_error_iff {x : α} {e : ε} :
    (x :: xs).mapM f = .error e ↔
      f x = .error e ∨ (∃ y, f x = .ok y) ∧ xs.mapM f = .error e := by
  rw [List.mapM_cons, bind_eq_error_iff]
  refine or_congr_right ?_
  constructor
  · rintro ⟨y, hHead, h⟩
    obtain h | ⟨ys, -, ⟨⟩⟩ := bind_eq_error_iff.mp h
    exact ⟨⟨y, hHead⟩, h⟩
  · rintro ⟨⟨y, hHead⟩, h⟩
    exact ⟨y, hHead, bind_eq_error_iff.mpr (Or.inl h)⟩

theorem mapM_eq_error_iff {e : ε} :
    xs.mapM f = .error e ↔ ∃ before x after, xs = before ++ x :: after ∧
      (∀ y ∈ before, ∃ z, f y = .ok z) ∧ f x = .error e := by
  induction xs with
  | nil =>
    refine iff_of_false (by rintro ⟨⟩) ?_
    rintro ⟨before, x, after, hNil, -⟩
    simp at hNil
  | cons x xs ih =>
    rw [mapM_cons_eq_error_iff, ih]
    constructor
    · rintro (hHead | ⟨hHead, before, y, after, rfl, hBefore, hy⟩)
      · exact ⟨[], x, xs, rfl, List.forall_mem_nil _, hHead⟩
      · exact ⟨x :: before, y, after, rfl, List.forall_mem_cons.mpr ⟨hHead, hBefore⟩, hy⟩
    · rintro ⟨before, y, after, hSplit, hBefore, hy⟩
      cases before with
      | nil =>
        cases hSplit
        exact Or.inl hy
      | cons z before =>
        cases hSplit
        obtain ⟨hHead, hBefore⟩ := List.forall_mem_cons.mp hBefore
        exact Or.inr ⟨hHead, before, y, after, rfl, hBefore, hy⟩

theorem forM_eq_ok_iff {f : α → Except ε Unit} :
    xs.forM f = .ok () ↔ ∀ x ∈ xs, f x = .ok () := by
  induction xs with
  | nil => exact ⟨fun _ => List.forall_mem_nil _, fun _ => rfl⟩
  | cons x xs ih =>
    rw [List.forall_mem_cons, ← ih]
    constructor
    · intro h
      obtain ⟨⟨⟩, hHead, hTail⟩ := bind_eq_ok h
      exact ⟨hHead, hTail⟩
    · rintro ⟨hHead, hTail⟩
      exact (bind_of_ok hHead).trans hTail

end

end LiteralLint
