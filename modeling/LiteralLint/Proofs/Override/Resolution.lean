import LiteralLint.Proofs.Override.Choice
import Mathlib.Order.Bounds.Defs

/-! # The allow-list of the override that decides

The score of an override for a path is the greatest specificity of its patterns that match the path.
The first override of the greatest score gives the allow-list. Patterns that cannot be read, and
overrides without any other pattern, may as well be left out. -/

set_option autoImplicit false

namespace LiteralLint

namespace Override

variable {o p : Override} {os : List Override} {path : String} {rank place : Nat}

/-- The score of an override for a path: the greatest specificity of its patterns that match. -/
def Scores (o : Override) (path : String) (rank : Nat) : Prop :=
  IsGreatest {r | o.Hits path r} rank

theorem scores_iff : o.Scores path rank ↔ o.rank? path = some rank := by
  rw [rank?_eq_some_iff]
  exact Iff.rfl

theorem exists_scores_of_hits (h : o.Hits path rank) : ∃ score, o.Scores path score := by
  cases hScore : o.rank? path with
  | none => exact absurd h (rank?_eq_none_iff.mp hScore rank)
  | some score => exact ⟨score, scores_iff.mpr hScore⟩

theorem decides_iff : Decides os path place o rank ↔
    os[place]? = some o ∧ o.Scores path rank ∧
      ∀ j p score, os[j]? = some p → p.Scores path score →
        score ≤ rank ∧ (j < place → score < rank) := by
  constructor
  · intro h
    refine ⟨h.at_place, ⟨h.hits, fun r hr => h.greatest o h.mem r hr⟩, ?_⟩
    intro j p score hj hScore
    exact ⟨h.greatest p (List.mem_of_getElem? hj) score hScore.1,
      fun hLess => h.first j p hLess hj score hScore.1⟩
  · rintro ⟨hPlace, hRank, hScores⟩
    refine ⟨hPlace, hRank.1, ?_, ?_⟩
    · intro p hp r hr
      obtain ⟨j, hj⟩ := List.mem_iff_getElem?.mp hp
      obtain ⟨score, hScore⟩ := exists_scores_of_hits hr
      exact Nat.le_trans (hScore.2 hr) (hScores j p score hj hScore).1
    · intro j p hLess hj r hr
      obtain ⟨score, hScore⟩ := exists_scores_of_hits hr
      exact Nat.lt_of_le_of_lt (hScore.2 hr) ((hScores j p score hj hScore).2 hLess)

def isReadable (text : String) : Bool := (Glob.parse text).toOption.isSome

def readable (o : Override) : Override := { o with paths := o.paths.filter isReadable }

/-- The overrides that have a pattern that can be read, with no other patterns. -/
def effective (os : List Override) : List Override :=
  (os.map readable).filter fun o => !o.paths.isEmpty

theorem globs_readable (o : Override) : o.readable.globs = o.globs := by
  rw [globs, globs, readable, List.filterMap_filter]
  congr 1
  funext text
  cases hParse : Glob.parse text <;> simp [isReadable, hParse, Except.toOption]

theorem rank?_readable (o : Override) (path : String) :
    o.readable.rank? path = o.rank? path := by
  rw [rank?, globs_readable, rank?]

theorem rank?_eq_none_of_isEmpty (h : o.paths.isEmpty = true) : o.rank? path = none := by
  have hPaths : o.paths = [] := List.isEmpty_iff.mp h
  simp [rank?, globs, hPaths]

theorem effective_cons (o : Override) (os : List Override) :
    effective (o :: os) =
      if o.readable.paths.isEmpty then effective os else o.readable :: effective os := by
  rw [effective, List.map_cons, List.filter_cons, ← effective]
  cases o.readable.paths.isEmpty <;> rfl

theorem best?_effective (os : List Override) (path : String) :
    best? path (effective os) = (best? path os).map (Prod.map id readable) := by
  induction os with
  | nil => rfl
  | cons o os ih =>
    rw [effective_cons, best?]
    cases hRank : o.rank? path with
    | none =>
      split
      · exact ih
      · rw [best?, rank?_readable, hRank]
        exact ih
    | some rank =>
      have hPaths : ¬ o.readable.paths.isEmpty = true := by
        intro hEmpty
        rw [← rank?_readable, rank?_eq_none_of_isEmpty hEmpty] at hRank
        cases hRank
      rw [if_neg hPaths, best?, rank?_readable, hRank, ih]
      cases best? path os with
      | none => rfl
      | some later =>
        simp only [Option.map_some, Prod.map_fst, id_eq]
        split <;> rfl

end Override

theorem resolve?_effective (os : List Override) (path : String) :
    resolve? (Override.effective os) path = resolve? os path := by
  rw [resolve?, Override.best?_effective, resolve?, Option.map_map]
  rfl

theorem resolve?_eq_none_iff {os : List Override} {path : String} :
    resolve? os path = none ↔ ∀ o ∈ os, ∀ rank, ¬ o.Hits path rank := by
  rw [resolve?, Option.map_eq_none_iff, Override.best?_eq_none_iff]

theorem resolve?_eq_some_iff {os : List Override} {path : String} {allow : AllowList} :
    resolve? os path = some allow ↔
      ∃ place o rank, Override.Decides os path place o rank ∧ .ofList o.allowedValues = allow := by
  rw [resolve?, Option.map_eq_some_iff]
  constructor
  · rintro ⟨⟨rank, o⟩, hBest, hAllow⟩
    obtain ⟨place, hDecides⟩ := Override.exists_decides hBest
    exact ⟨place, o, rank, hDecides, hAllow⟩
  · rintro ⟨place, o, rank, hDecides, hAllow⟩
    exact ⟨(rank, o), Override.best?_eq_some_iff.mpr ⟨place, hDecides⟩, hAllow⟩

/-- The choice in full: when there is none, whose values are taken, that only one override can be
meant, and what has no part in it. -/
theorem resolve?_exact (os : List Override) (path : String) :
    let Wins (i : Nat) (o : Override) (rank : Nat) : Prop :=
      os[i]? = some o ∧ o.Scores path rank ∧
        ∀ j p score, os[j]? = some p → p.Scores path score →
          score ≤ rank ∧ (j < i → score < rank)
    (resolve? os path = none ↔ ∀ o ∈ os, ∀ rank, ¬ o.Hits path rank) ∧
    (∀ allow, resolve? os path = some allow ↔
      ∃ i o rank, Wins i o rank ∧ .ofList o.allowedValues = allow) ∧
    (∀ i o rank j p score, Wins i o rank → Wins j p score → i = j ∧ rank = score ∧ o = p) ∧
    resolve? (Override.effective os) path = resolve? os path := by
  intro Wins
  have hWins : ∀ i o rank, Wins i o rank ↔ Override.Decides os path i o rank :=
    fun i o rank => Override.decides_iff.symm
  refine ⟨resolve?_eq_none_iff, fun allow => ?_, ?_, resolve?_effective os path⟩
  · simp only [resolve?_eq_some_iff, hWins]
  · intro i o rank j p score hFirst hSecond
    exact ((hWins i o rank).mp hFirst).unique ((hWins j p score).mp hSecond)

end LiteralLint
