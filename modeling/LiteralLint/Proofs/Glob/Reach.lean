import LiteralLint.Glob.Match

/-! # Places in a path

A set of places is moved on by a byte, by a slash or by any run of bytes. After each such step a
place is in the set if bytes of that kind lead to it from a place that was. -/

set_option autoImplicit false

namespace LiteralLint.Glob

/-- From the first place of a path to the second the bytes are read. -/
def Leads (path : List UInt8) (i : Nat) : List UInt8 → Nat → Prop
  | [], j => j = i
  | b :: bs, j => path[i]? = some b ∧ Leads path (i + 1) bs j

variable {path bs cs : List UInt8} {i j k : Nat}

theorem leads_append_iff :
    Leads path i (bs ++ cs) k ↔ ∃ j, Leads path i bs j ∧ Leads path j cs k := by
  induction bs generalizing i with
  | nil => simp [Leads]
  | cons b bs ih => simp only [List.cons_append, Leads, ih, and_assoc, exists_and_left]

theorem Leads.drop_eq (h : Leads path i bs j) : path.drop i = bs ++ path.drop j := by
  induction bs generalizing i with
  | nil =>
    cases h
    rfl
  | cons b bs ih =>
    obtain ⟨hByte, h⟩ := h
    obtain ⟨hLess, rfl⟩ := List.getElem?_eq_some_iff.mp hByte
    rw [List.drop_eq_getElem_cons hLess, ih h, List.cons_append]

theorem leads_of_drop_eq (h : path.drop i = bs ++ cs) : Leads path i bs (i + bs.length) := by
  induction bs generalizing i with
  | nil => rfl
  | cons b bs ih =>
    have hByte : path[i]? = some b := by
      rw [← List.head?_drop, h]
      rfl
    have hRest : path.drop (i + 1) = bs ++ cs := by
      rw [← List.tail_drop, h]
      rfl
    refine ⟨hByte, ?_⟩
    rw [List.length_cons, Nat.add_comm bs.length, ← Nat.add_assoc]
    exact ih hRest

theorem Leads.le (h : Leads path i bs j) : i ≤ j := by
  induction bs generalizing i with
  | nil => exact Nat.le_of_eq h.symm
  | cons b bs ih => exact Nat.le_of_succ_le (ih h.2)

theorem Leads.le_length (h : Leads path i bs j) (hStart : i ≤ path.length) : j ≤ path.length := by
  induction bs generalizing i with
  | nil =>
    cases h
    exact hStart
  | cons b bs ih => exact ih h.2 (List.getElem?_eq_some_iff.mp h.1).1

theorem exists_leads_iff (hStart : i ≤ path.length) :
    (∃ bs, Leads path i bs j) ↔ i ≤ j ∧ j ≤ path.length := by
  constructor
  · rintro ⟨bs, h⟩
    exact ⟨h.le, h.le_length hStart⟩
  · rintro ⟨hLe, hEnd⟩
    have hDrop : path.drop i = (path.drop i).take (j - i) ++ (path.drop i).drop (j - i) :=
      (List.take_append_drop _ _).symm
    have hLength : i + ((path.drop i).take (j - i)).length = j := by
      rw [List.length_take, List.length_drop]
      omega
    have hLeads := leads_of_drop_eq hDrop
    rw [hLength] at hLeads
    exact ⟨_, hLeads⟩

namespace Reach

variable {r s : Reach} {wanted : UInt8 → Bool}

def Holds (r : Reach) (i : Nat) : Prop := r[i]? = some true

def Fits (r : Reach) (path : List UInt8) : Prop := r.length = path.length + 1

/-- Bytes of one kind lead to the place from one that can be reached. -/
def Past (path : List UInt8) (r : Reach) (kind : List UInt8 → Prop) (j : Nat) : Prop :=
  ∃ i bs, r.Holds i ∧ kind bs ∧ Leads path i bs j

theorem Holds.lt (h : r.Holds i) : i < r.length :=
  (List.getElem?_eq_some_iff.mp h).1

theorem Holds.le (h : r.Holds i) (hFits : r.Fits path) : i ≤ path.length :=
  Nat.le_of_lt_succ (Nat.lt_of_lt_of_eq h.lt hFits)

theorem fits_start (path : List UInt8) : (start path).Fits path := by
  simp [Fits, start]

theorem Fits.union (h : r.Fits path) (hOther : s.Fits path) : (r.union s).Fits path := by
  rw [Fits, Reach.union, List.length_zipWith, h, hOther, Nat.min_self]

theorem Fits.advance (h : r.Fits path) : (r.advance wanted path).Fits path := by
  rw [Fits, Reach.advance, List.length_cons, List.length_zipWith, h,
    Nat.min_eq_left (Nat.le_succ _)]

theorem length_go (seen : Bool) (r : Reach) : (spread.go seen r).length = r.length := by
  induction r generalizing seen with
  | nil => rfl
  | cons here r ih => exact congrArg (· + 1) (ih _)

theorem Fits.spread (h : r.Fits path) : r.spread.Fits path :=
  (length_go false r).trans h

theorem holds_start_iff : (start path).Holds i ↔ i = 0 := by
  cases i with
  | zero => exact iff_of_true rfl rfl
  | succ i =>
    refine iff_of_false (fun hLater => ?_) (Nat.succ_ne_zero i)
    have hMem : true ∈ path.map fun _ => false := List.mem_of_getElem? hLater
    obtain ⟨_, _, hEq⟩ := List.mem_map.mp hMem
    cases hEq

theorem holds_union_iff (h : r.Fits path) (hOther : s.Fits path) :
    (r.union s).Holds i ↔ r.Holds i ∨ s.Holds i := by
  have hLength : r.length = s.length := h.trans hOther.symm
  rw [Holds, Reach.union, List.getElem?_zipWith]
  rcases Nat.lt_or_ge i r.length with hLess | hLe
  · rw [Holds, Holds, List.getElem?_eq_getElem hLess, List.getElem?_eq_getElem (hLength ▸ hLess)]
    simp
  · rw [Holds, Holds, List.getElem?_eq_none hLe, List.getElem?_eq_none (hLength ▸ hLe)]
    simp

theorem holds_advance_iff :
    (r.advance wanted path).Holds j ↔
      r.Past path (fun bs => ∃ b, wanted b = true ∧ bs = [b]) j := by
  constructor
  · intro h
    cases j with
    | zero => simp [Holds, Reach.advance] at h
    | succ i =>
      rw [Holds, Reach.advance, List.getElem?_cons_succ, List.getElem?_zipWith] at h
      cases hByte : path[i]? with
      | none => simp [hByte] at h
      | some b =>
        cases hHere : r[i]? with
        | none => simp [hByte, hHere] at h
        | some here =>
          simp only [hByte, hHere, Option.some.injEq, Bool.and_eq_true] at h
          obtain ⟨rfl, hWanted⟩ := h
          exact ⟨i, [b], hHere, ⟨b, hWanted, rfl⟩, hByte, rfl⟩
  · rintro ⟨i, _, hHere, ⟨b, hWanted, rfl⟩, hByte, rfl⟩
    rw [Holds, Reach.advance, List.getElem?_cons_succ, List.getElem?_zipWith, hByte, hHere]
    simp [hWanted]

theorem exists_holds_cons_iff {here : Bool} :
    (∃ i ≤ j + 1, Holds (here :: r) i) ↔ here = true ∨ ∃ i ≤ j, r.Holds i := by
  constructor
  · rintro ⟨i, hLe, hHere⟩
    cases i with
    | zero => exact Or.inl (Option.some.inj hHere)
    | succ i => exact Or.inr ⟨i, Nat.le_of_succ_le_succ hLe, hHere⟩
  · rintro (rfl | ⟨i, hLe, hHere⟩)
    · exact ⟨0, Nat.zero_le _, rfl⟩
    · exact ⟨i + 1, Nat.succ_le_succ hLe, hHere⟩

theorem holds_go_iff {seen : Bool} :
    Holds (spread.go seen r) j ↔ j < r.length ∧ (seen = true ∨ ∃ i ≤ j, r.Holds i) := by
  induction r generalizing seen j with
  | nil => simp [Holds, spread.go]
  | cons here r ih =>
    cases j with
    | zero => simp [Holds, spread.go]
    | succ j =>
      have hStep : Holds (spread.go seen (here :: r)) (j + 1) ↔
          Holds (spread.go (seen || here) r) j := Iff.rfl
      rw [hStep, ih, exists_holds_cons_iff, Bool.or_eq_true, or_assoc, List.length_cons,
        Nat.succ_lt_succ_iff]

theorem holds_spread_iff (h : r.Fits path) :
    r.spread.Holds j ↔ r.Past path (fun _ => True) j := by
  rw [Reach.spread, holds_go_iff, h]
  constructor
  · rintro ⟨hLess, hSeen | ⟨i, hLe, hHere⟩⟩
    · cases hSeen
    · have hEnds := And.intro hLe (Nat.le_of_lt_succ hLess)
      obtain ⟨bs, hLeads⟩ := (exists_leads_iff (hHere.le h)).mpr hEnds
      exact ⟨i, bs, hHere, trivial, hLeads⟩
  · rintro ⟨i, bs, hHere, -, hLeads⟩
    obtain ⟨hLe, hEnd⟩ := (exists_leads_iff (hHere.le h)).mp ⟨bs, hLeads⟩
    exact ⟨Nat.lt_succ_of_le hEnd, Or.inr ⟨i, hLe, hHere⟩⟩

section

variable {first second : List UInt8 → Prop}

theorem past_congr (h : ∀ bs, first bs ↔ second bs) :
    r.Past path first j ↔ r.Past path second j := by
  simp only [Past, h]

theorem past_nil_iff (path : List UInt8) : r.Past path (· = []) j ↔ r.Holds j := by
  constructor
  · rintro ⟨i, _, hHere, rfl, rfl⟩
    exact hHere
  · intro h
    exact ⟨j, [], h, rfl, rfl⟩

theorem past_or_iff :
    r.Past path (fun bs => first bs ∨ second bs) j ↔
      r.Past path first j ∨ r.Past path second j := by
  simp only [Past, or_and_right, and_or_left, exists_or]

theorem past_exists_iff {Kind : Type} {kinds : List Kind} {bytes : Kind → List UInt8 → Prop} :
    r.Past path (fun bs => ∃ k ∈ kinds, bytes k bs) j ↔ ∃ k ∈ kinds, r.Past path (bytes k) j := by
  constructor
  · rintro ⟨i, bs, hHere, ⟨k, hMem, hBytes⟩, hLeads⟩
    exact ⟨k, hMem, i, bs, hHere, hBytes, hLeads⟩
  · rintro ⟨k, hMem, i, bs, hHere, hBytes, hLeads⟩
    exact ⟨i, bs, hHere, ⟨k, hMem, hBytes⟩, hLeads⟩

theorem past_of_holds_iff (h : ∀ i, s.Holds i ↔ r.Past path first i) :
    s.Past path second j ↔
      r.Past path (fun bs => ∃ as cs, first as ∧ second cs ∧ bs = as ++ cs) j := by
  constructor
  · rintro ⟨k, cs, hThere, hSecond, hOn⟩
    obtain ⟨i, as, hHere, hFirst, hLeads⟩ := (h k).mp hThere
    have hBoth := leads_append_iff.mpr ⟨k, hLeads, hOn⟩
    exact ⟨i, as ++ cs, hHere, ⟨as, cs, hFirst, hSecond, rfl⟩, hBoth⟩
  · rintro ⟨i, _, hHere, ⟨as, cs, hFirst, hSecond, rfl⟩, hBoth⟩
    obtain ⟨k, hLeads, hOn⟩ := leads_append_iff.mp hBoth
    exact ⟨k, cs, (h k).mpr ⟨i, as, hHere, hFirst, hLeads⟩, hSecond, hOn⟩

end

theorem Fits.foldl_advance (h : r.Fits path) :
    (bs.foldl (fun r b => r.advance (· == b) path) r).Fits path := by
  induction bs generalizing r with
  | nil => exact h
  | cons b bs ih => exact ih h.advance

theorem holds_foldl_advance_iff :
    (bs.foldl (fun r b => r.advance (· == b) path) r).Holds j ↔ r.Past path (· = bs) j := by
  induction bs generalizing r with
  | nil => exact (past_nil_iff path).symm
  | cons b bs ih =>
    rw [List.foldl_cons, ih, past_of_holds_iff fun i => holds_advance_iff]
    refine past_congr fun cs => ?_
    simp

end Reach

section

variable {r : Reach}

theorem fits_pastSlash (h : r.Fits path) : (pastSlash path r).Fits path := h.advance

theorem fits_pastFolders (h : r.Fits path) : (pastFolders path r).Fits path := h.spread.advance

theorem holds_pastSlash_iff : (pastSlash path r).Holds j ↔ r.Past path (· = [slash]) j := by
  rw [pastSlash, Reach.holds_advance_iff]
  refine Reach.past_congr fun bs => ?_
  simp

theorem holds_pastFolders_iff (h : r.Fits path) :
    (pastFolders path r).Holds j ↔ r.Past path (fun bs => ∃ as, bs = as ++ [slash]) j := by
  rw [pastFolders, holds_pastSlash_iff, Reach.past_of_holds_iff fun i => Reach.holds_spread_iff h]
  refine Reach.past_congr fun bs => ?_
  simp

end

end LiteralLint.Glob
