import LiteralLint.Override.Select

/-! # The choice of an override

Which override decides on a path, said by comparing the patterns that match it and without a
search. There is at most one, and the search finds it. -/

set_option autoImplicit false

namespace LiteralLint

namespace Override

def Hits (o : Override) (path : String) (rank : Nat) : Prop :=
  ∃ text ∈ o.paths, ∃ g, Glob.parse text = .ok g ∧ g.isMatch path = true ∧ g.specificity = rank

variable {o : Override} {os : List Override} {path : String} {rank place : Nat}

theorem mem_globs_iff {g : Glob} : g ∈ o.globs ↔ ∃ text ∈ o.paths, Glob.parse text = .ok g := by
  rw [globs, List.mem_filterMap]
  refine exists_congr fun text => and_congr_right fun _ => ?_
  cases Glob.parse text with
  | error e => simp [Except.toOption]
  | ok g => simp [Except.toOption]

theorem mem_ranks_iff :
    rank ∈ (o.globs.filter (·.isMatch path)).map Glob.specificity ↔ o.Hits path rank := by
  simp only [List.mem_map, List.mem_filter, mem_globs_iff, Hits]
  constructor
  · rintro ⟨g, ⟨⟨text, hText, hParse⟩, hMatch⟩, hRank⟩
    exact ⟨text, hText, g, hParse, hMatch, hRank⟩
  · rintro ⟨text, hText, g, hParse, hMatch, hRank⟩
    exact ⟨g, ⟨⟨text, hText, hParse⟩, hMatch⟩, hRank⟩

theorem rank?_eq_some_iff :
    o.rank? path = some rank ↔ o.Hits path rank ∧ ∀ r, o.Hits path r → r ≤ rank := by
  simp only [rank?, List.max?_eq_some_iff, mem_ranks_iff]

theorem rank?_eq_none_iff : o.rank? path = none ↔ ∀ r, ¬ o.Hits path r := by
  simp only [rank?, List.max?_eq_none_iff, List.eq_nil_iff_forall_not_mem, mem_ranks_iff]

/-- The override at one place of a list has the most specific pattern that matches, and those in
front of it have none that is as specific. -/
structure Decides (os : List Override) (path : String) (place : Nat) (o : Override) (rank : Nat) :
    Prop where
  at_place : os[place]? = some o
  hits : o.Hits path rank
  greatest : ∀ p ∈ os, ∀ r, p.Hits path r → r ≤ rank
  first : ∀ i p, i < place → os[i]? = some p → ∀ r, p.Hits path r → r < rank

namespace Decides

theorem mem (h : Decides os path place o rank) : o ∈ os :=
  List.mem_of_getElem? h.at_place

theorem unique {p : Override} {i r : Nat} (h : Decides os path place o rank)
    (hp : Decides os path i p r) : place = i ∧ rank = r ∧ o = p := by
  obtain rfl : rank = r :=
    Nat.le_antisymm (hp.greatest o h.mem rank h.hits) (h.greatest p hp.mem r hp.hits)
  obtain rfl : place = i := by
    rcases Nat.lt_trichotomy place i with hLess | hEq | hLess
    · exact absurd (hp.first place o hLess h.at_place rank h.hits) (Nat.lt_irrefl _)
    · exact hEq
    · exact absurd (h.first i p hLess hp.at_place rank hp.hits) (Nat.lt_irrefl _)
  exact ⟨rfl, rfl, Option.some.inj (h.at_place.symm.trans hp.at_place)⟩

theorem head (hHits : o.Hits path rank) (hSelf : ∀ r, o.Hits path r → r ≤ rank)
    (hLater : ∀ p ∈ os, ∀ r, p.Hits path r → r ≤ rank) : Decides (o :: os) path 0 o rank where
  at_place := rfl
  hits := hHits
  greatest := List.forall_mem_cons.mpr ⟨hSelf, hLater⟩
  first _ _ hLess := absurd hLess (Nat.not_lt_zero _)

theorem cons {p : Override} (h : Decides os path place o rank)
    (hBefore : ∀ r, p.Hits path r → r < rank) : Decides (p :: os) path (place + 1) o rank where
  at_place := h.at_place
  hits := h.hits
  greatest := List.forall_mem_cons.mpr ⟨fun r hr => Nat.le_of_lt (hBefore r hr), h.greatest⟩
  first i q hLess hq := by
    cases i with
    | zero =>
      cases hq
      exact hBefore
    | succ i => exact h.first i q (Nat.lt_of_succ_lt_succ hLess) hq

end Decides

theorem best?_eq_none_iff : best? path os = none ↔ ∀ o ∈ os, ∀ r, ¬ o.Hits path r := by
  induction os with
  | nil => simp [best?]
  | cons o os ih =>
    rw [List.forall_mem_cons, ← ih, ← rank?_eq_none_iff, best?]
    cases o.rank? path with
    | none => simp
    | some rank =>
      cases best? path os with
      | none => simp
      | some later =>
        simp only [reduceCtorEq, false_and, iff_false]
        split <;> simp

theorem exists_decides (h : best? path os = some (rank, o)) :
    ∃ place, Decides os path place o rank := by
  induction os generalizing rank o with
  | nil => simp [best?] at h
  | cons p os ih =>
    rw [best?] at h
    cases hRank : p.rank? path with
    | none =>
      simp only [hRank] at h
      obtain ⟨place, hDecides⟩ := ih h
      exact ⟨_, hDecides.cons fun r hr => absurd hr (rank?_eq_none_iff.mp hRank r)⟩
    | some greatest =>
      obtain ⟨hHits, hSelf⟩ := rank?_eq_some_iff.mp hRank
      cases hLater : best? path os with
      | none =>
        simp only [hRank, hLater, Option.some.injEq, Prod.mk.injEq] at h
        obtain ⟨rfl, rfl⟩ := h
        refine ⟨0, .head hHits hSelf fun q hq r hr => ?_⟩
        exact absurd hr (best?_eq_none_iff.mp hLater q hq r)
      | some later =>
        simp only [hRank, hLater] at h
        obtain ⟨place, hDecides⟩ := ih hLater
        split at h
        · rename_i hMore
          obtain rfl := Option.some.inj h
          exact ⟨_, hDecides.cons fun r hr => Nat.lt_of_le_of_lt (hSelf r hr) hMore⟩
        · rename_i hNotMore
          simp only [Option.some.injEq, Prod.mk.injEq] at h
          obtain ⟨rfl, rfl⟩ := h
          refine ⟨0, .head hHits hSelf fun q hq r hr => ?_⟩
          exact Nat.le_trans (hDecides.greatest q hq r hr) (Nat.not_lt.mp hNotMore)

theorem best?_eq_some_iff :
    best? path os = some (rank, o) ↔ ∃ place, Decides os path place o rank := by
  refine ⟨exists_decides, fun ⟨place, hDecides⟩ => ?_⟩
  cases hBest : best? path os with
  | none => exact absurd hDecides.hits (best?_eq_none_iff.mp hBest o hDecides.mem rank)
  | some found =>
    obtain ⟨_, hFound⟩ := exists_decides hBest
    obtain ⟨-, hRank, hOverride⟩ := hFound.unique hDecides
    rw [← hRank, ← hOverride]

end Override

theorem resolve_of_decides {os : List Override} {path : String} {place rank : Nat} {o : Override}
    (h : Override.Decides os path place o rank) (otherwise : AllowList) :
    resolve os path otherwise = .ofList o.allowedValues := by
  rw [resolve, resolve?, Override.best?_eq_some_iff.mpr ⟨place, h⟩]
  rfl

theorem resolve_of_no_hits {os : List Override} {path : String}
    (h : ∀ o ∈ os, ∀ r, ¬ o.Hits path r) (otherwise : AllowList) :
    resolve os path otherwise = otherwise := by
  rw [resolve, resolve?, Override.best?_eq_none_iff.mpr h]
  rfl

theorem decides_or_no_hits (os : List Override) (path : String) :
    (∃ place o rank, Override.Decides os path place o rank) ∨
      ∀ o ∈ os, ∀ r, ¬ o.Hits path r := by
  cases hBest : Override.best? path os with
  | none => exact Or.inr (Override.best?_eq_none_iff.mp hBest)
  | some found =>
    obtain ⟨place, hDecides⟩ := Override.exists_decides hBest
    exact Or.inl ⟨place, _, _, hDecides⟩

end LiteralLint
