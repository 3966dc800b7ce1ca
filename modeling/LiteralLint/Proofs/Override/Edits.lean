import LiteralLint.Proofs.Override.Resolution
import Mathlib.Logic.Relation

/-! # Edits without an effect

What a list of overrides says on a path is put together from what its parts say: the more specific
part decides, and the earlier one if neither is more specific. So parts may give way to others that
say the same on that path. -/

set_option autoImplicit false

namespace LiteralLint

namespace Override

def prefer : Option (Nat × AllowList) → Option (Nat × AllowList) → Option (Nat × AllowList)
  | none, later => later
  | some first, none => some first
  | some first, some later => if later.1 > first.1 then some later else some first

def choice (path : String) (os : List Override) : Option (Nat × AllowList) :=
  (best? path os).map (Prod.map id allowList)

variable {path : String} {o p winner : Override} {os xs ys before after parts : List Override}
  {place rank : Nat}

theorem prefer_none (a : Option (Nat × AllowList)) : prefer a none = a := by
  cases a <;> rfl

theorem prefer_eq_left {first later : Nat × AllowList} (h : later.1 ≤ first.1) :
    prefer (some first) (some later) = some first :=
  if_neg (Nat.not_lt.mpr h)

theorem prefer_eq_right {first later : Nat × AllowList} (h : first.1 < later.1) :
    prefer (some first) (some later) = some later :=
  if_pos h

theorem prefer_assoc (a b c : Option (Nat × AllowList)) :
    prefer (prefer a b) c = prefer a (prefer b c) := by
  cases a with
  | none => rfl
  | some a =>
    cases b with
    | none => rfl
    | some b =>
      cases c with
      | none => rw [prefer_none, prefer_none]
      | some c =>
        rcases Nat.lt_or_ge a.1 b.1 with hFirst | hFirst
        · rcases Nat.lt_or_ge b.1 c.1 with hSecond | hSecond
          · rw [prefer_eq_right hFirst, prefer_eq_right hSecond,
              prefer_eq_right (Nat.lt_trans hFirst hSecond)]
          · rw [prefer_eq_right hFirst, prefer_eq_left hSecond, prefer_eq_right hFirst]
        · rcases Nat.lt_or_ge b.1 c.1 with hSecond | hSecond
          · rw [prefer_eq_left hFirst, prefer_eq_right hSecond]
          · rw [prefer_eq_left hFirst, prefer_eq_left hSecond, prefer_eq_left hFirst,
              prefer_eq_left (Nat.le_trans hSecond hFirst)]

theorem prefer_comm {a b : Option (Nat × AllowList)}
    (h : ∀ first ∈ a, ∀ later ∈ b, first.1 ≠ later.1) : prefer a b = prefer b a := by
  cases a with
  | none => exact (prefer_none b).symm
  | some first =>
    cases b with
    | none => rfl
    | some later =>
      rcases Nat.lt_or_gt_of_ne (h first rfl later rfl) with hLess | hMore
      · rw [prefer_eq_right hLess, prefer_eq_left (Nat.le_of_lt hLess)]
      · rw [prefer_eq_left (Nat.le_of_lt hMore), prefer_eq_right hMore]

theorem resolve?_eq_choice (os : List Override) (path : String) :
    resolve? os path = (choice path os).map Prod.snd := by
  rw [resolve?, choice, Option.map_map]
  rfl

theorem choice_singleton (path : String) (o : Override) :
    choice path [o] = (o.rank? path).map fun rank => (rank, o.allowList) := by
  rw [choice, best?, best?]
  cases o.rank? path <;> rfl

theorem choice_cons (path : String) (o : Override) (os : List Override) :
    choice path (o :: os) = prefer (choice path [o]) (choice path os) := by
  rw [choice_singleton, choice, best?, choice]
  cases o.rank? path with
  | none => rfl
  | some rank =>
    cases best? path os with
    | none => rfl
    | some later =>
      simp only [Option.map_some, prefer, Prod.map_fst, id_eq]
      split <;> rfl

theorem choice_append (path : String) (xs ys : List Override) :
    choice path (xs ++ ys) = prefer (choice path xs) (choice path ys) := by
  induction xs with
  | nil => rfl
  | cons o xs ih =>
    rw [List.cons_append, choice_cons, ih, ← prefer_assoc, ← choice_cons]

theorem choice_of_decides (h : Decides os path place o rank) :
    choice path os = some (rank, o.allowList) := by
  rw [choice, best?_eq_some_iff.mpr ⟨place, h⟩]
  rfl

theorem choice_of_no_hits (h : ∀ o ∈ os, ∀ r, ¬ o.Hits path r) : choice path os = none := by
  rw [choice, best?_eq_none_iff.mpr h]
  rfl

theorem choice_surround (h : choice path xs = choice path ys) (before after : List Override) :
    choice path (before ++ xs ++ after) = choice path (before ++ ys ++ after) := by
  rw [choice_append, choice_append path before, h, ← choice_append path before, ← choice_append]

theorem choice_congr (hHits : ∀ r, o.Hits path r ↔ p.Hits path r)
    (hValues : o.allowedValues = p.allowedValues) : choice path [o] = choice path [p] := by
  have hRank : o.rank? path = p.rank? path := by
    refine Option.ext fun r => ?_
    simp only [rank?_eq_some_iff, hHits]
  rw [choice_singleton, choice_singleton, hRank, allowList, hValues, allowList]

theorem choice_split (hValues : ∀ p ∈ parts, p.allowedValues = o.allowedValues)
    (hPaths : ∀ text, text ∈ o.paths ↔ ∃ p ∈ parts, text ∈ p.paths) :
    choice path parts = choice path [o] := by
  have hHits : ∀ r, o.Hits path r ↔ ∃ p ∈ parts, p.Hits path r := by
    intro r
    constructor
    · rintro ⟨text, hText, hPattern⟩
      obtain ⟨p, hp, hText⟩ := (hPaths text).mp hText
      exact ⟨p, hp, text, hText, hPattern⟩
    · rintro ⟨p, hp, text, hText, hPattern⟩
      exact ⟨text, (hPaths text).mpr ⟨p, hp, hText⟩, hPattern⟩
  rw [choice_singleton]
  cases hRank : o.rank? path with
  | none =>
    refine choice_of_no_hits fun p hp r hr => ?_
    exact rank?_eq_none_iff.mp hRank r ((hHits r).mpr ⟨p, hp, hr⟩)
  | some rank =>
    obtain ⟨hHit, hGreatest⟩ := rank?_eq_some_iff.mp hRank
    obtain ⟨p, hp, hPart⟩ := (hHits rank).mp hHit
    obtain ⟨place, q, score, hDecides⟩ | hNone := decides_or_no_hits parts path
    · have hScore : score = rank := by
        apply Nat.le_antisymm
        · exact hGreatest score ((hHits score).mpr ⟨q, hDecides.mem, hDecides.hits⟩)
        · exact hDecides.greatest p hp rank hPart
      rw [choice_of_decides hDecides, hScore, allowList, hValues q hDecides.mem]
      rfl
    · exact absurd hPart (hNone p hp rank)

theorem choice_swap (h : ∀ score, ¬ (o.Scores path score ∧ p.Scores path score)) :
    choice path [o, p] = choice path [p, o] := by
  rw [choice_cons path o [p], choice_cons path p [o], choice_singleton, choice_singleton]
  refine prefer_comm ?_
  simp only [Option.mem_def, Option.map_eq_some_iff]
  rintro _ ⟨first, hFirst, rfl⟩ _ ⟨later, hLater, rfl⟩ rfl
  exact h first ⟨scores_iff.mpr hFirst, scores_iff.mpr hLater⟩

theorem choice_concat (hDecides : Decides os path place winner rank)
    (hLe : ∀ r, o.Hits path r → r ≤ rank) : choice path (os ++ [o]) = choice path os := by
  rw [choice_append, choice_of_decides hDecides, choice_singleton]
  cases hRank : o.rank? path with
  | none => rfl
  | some r => exact prefer_eq_left (hLe r (rank?_eq_some_iff.mp hRank).1)

/-- Edits of a list of overrides that matter to no choice for the path. -/
inductive Edit (path : String) : List Override → List Override → Prop
  | rearrange {values paths others : List String} (before after : List Override)
      (same : ∀ text, text ∈ paths ↔ text ∈ others) :
      Edit path (before ++ [⟨paths, values⟩] ++ after) (before ++ [⟨others, values⟩] ++ after)
  | drop {values : List String} {text : String} {fault : Glob.Fault} (before after : List Override)
      (front back : List String) (unreadable : Glob.parse text = .error fault) :
      Edit path (before ++ [⟨front ++ text :: back, values⟩] ++ after)
        (before ++ [⟨front ++ back, values⟩] ++ after)
  | insert {o : Override} (before after : List Override) (no_hits : ∀ r, ¬ o.Hits path r) :
      Edit path (before ++ after) (before ++ [o] ++ after)
  /-- One override gives way to several of the same values that share its patterns. -/
  | split {values paths : List String} (before parts after : List Override)
      (values_eq : ∀ p ∈ parts, p.allowedValues = values)
      (shared : ∀ text, text ∈ paths ↔ ∃ p ∈ parts, text ∈ p.paths) :
      Edit path (before ++ [⟨paths, values⟩] ++ after) (before ++ parts ++ after)
  /-- Two neighbours change places that have no score in common. -/
  | swap {o p : Override} (before after : List Override)
      (differ : ∀ score, ¬ (o.Scores path score ∧ p.Scores path score)) :
      Edit path (before ++ [o, p] ++ after) (before ++ [p, o] ++ after)
  | append {os : List Override} {o winner : Override} {place rank : Nat}
      (decides : Decides os path place winner rank) (le_rank : ∀ r, o.Hits path r → r ≤ rank) :
      Edit path os (os ++ [o])

theorem Edit.choice_eq (h : Edit path xs ys) : choice path xs = choice path ys := by
  cases h with
  | @rearrange values paths others before after same =>
    have hHits : ∀ r, (Override.mk paths values).Hits path r ↔
        (Override.mk others values).Hits path r := by
      simp only [Hits, same, implies_true]
    exact choice_surround (choice_congr hHits rfl) before after
  | @drop values text fault before after front back unreadable =>
    have hHits : ∀ r, (Override.mk (front ++ text :: back) values).Hits path r ↔
        (Override.mk (front ++ back) values).Hits path r := by
      simp [Hits, unreadable, or_and_right, exists_or]
    exact choice_surround (choice_congr hHits rfl) before after
  | @insert o before after no_hits =>
    have hNone : choice path [o] = choice path [] :=
      choice_of_no_hits (List.forall_mem_singleton.mpr no_hits)
    rw [choice_surround hNone, List.append_nil]
  | split before parts after values_eq shared =>
    exact (choice_surround (choice_split values_eq shared) before after).symm
  | swap before after differ => exact choice_surround (choice_swap differ) before after
  | append decides le_rank => exact (choice_concat decides le_rank).symm

end Override

/-- However many such edits are made, the same allow-list is chosen for the path, or none as
before. -/
theorem resolve?_edited {path : String} {os edited : List Override}
    (h : Relation.ReflTransGen (Override.Edit path) os edited) :
    resolve? edited path = resolve? os path := by
  have hChoice : Override.choice path os = Override.choice path edited := by
    induction h with
    | refl => rfl
    | tail _ hEdit ih => exact ih.trans hEdit.choice_eq
  rw [Override.resolve?_eq_choice, Override.resolve?_eq_choice, hChoice]

/-- Each edit once; the last one brings in a pattern as specific as the one that decides. -/
theorem resolve?_edited_sixfold :
    resolve? [⟨["docs/*"], []⟩, ⟨["**"], ["gif"]⟩, ⟨["src/a.ts"], ["png"]⟩, ⟨["src/*"], ["gif"]⟩,
        ⟨["src/a.ts"], ["bmp"]⟩] "src/a.ts" =
      resolve? [⟨["src/*", "**"], ["gif"]⟩, ⟨["src/a.ts", "["], ["png"]⟩] "src/a.ts" ∧
    resolve? [⟨["src/*", "**"], ["gif"]⟩, ⟨["src/a.ts", "["], ["png"]⟩] "src/a.ts" =
      some (.ofList ["png"]) := by
  have hRearrange : Override.Edit "src/a.ts"
      [⟨["src/*", "**"], ["gif"]⟩, ⟨["src/a.ts", "["], ["png"]⟩]
      [⟨["**", "src/*", "**"], ["gif"]⟩, ⟨["src/a.ts", "["], ["png"]⟩] :=
    .rearrange [] _ (by grind)
  have hDrop : Override.Edit "src/a.ts"
      [⟨["**", "src/*", "**"], ["gif"]⟩, ⟨["src/a.ts", "["], ["png"]⟩]
      [⟨["**", "src/*", "**"], ["gif"]⟩, ⟨["src/a.ts"], ["png"]⟩] := by
    have hFault : Glob.parse "[" = .error .unclosedClass := rfl
    exact .drop [_] [] ["src/a.ts"] [] hFault
  have hInsert : Override.Edit "src/a.ts"
      [⟨["**", "src/*", "**"], ["gif"]⟩, ⟨["src/a.ts"], ["png"]⟩]
      [⟨["docs/*"], []⟩, ⟨["**", "src/*", "**"], ["gif"]⟩, ⟨["src/a.ts"], ["png"]⟩] :=
    .insert [] _ (Override.rank?_eq_none_iff.mp (by decide +kernel))
  have hSplit : Override.Edit "src/a.ts"
      [⟨["docs/*"], []⟩, ⟨["**", "src/*", "**"], ["gif"]⟩, ⟨["src/a.ts"], ["png"]⟩]
      [⟨["docs/*"], []⟩, ⟨["**"], ["gif"]⟩, ⟨["src/*"], ["gif"]⟩, ⟨["src/a.ts"], ["png"]⟩] := by
    have hShared : ∀ text, text ∈ ["**", "src/*", "**"] ↔
        ∃ p ∈ [Override.mk ["**"] ["gif"], ⟨["src/*"], ["gif"]⟩], text ∈ p.paths := by
      intro text
      simp
      grind
    have hValues : ∀ p ∈ [Override.mk ["**"] ["gif"], ⟨["src/*"], ["gif"]⟩],
        p.allowedValues = ["gif"] := by simp
    exact .split [_] _ [_] hValues hShared
  have hSwap : Override.Edit "src/a.ts"
      [⟨["docs/*"], []⟩, ⟨["**"], ["gif"]⟩, ⟨["src/*"], ["gif"]⟩, ⟨["src/a.ts"], ["png"]⟩]
      [⟨["docs/*"], []⟩, ⟨["**"], ["gif"]⟩, ⟨["src/a.ts"], ["png"]⟩, ⟨["src/*"], ["gif"]⟩] := by
    refine .swap [_, _] [] fun score hBoth => ?_
    have hFirst := Override.scores_iff.mp hBoth.1
    have hSecond := Override.scores_iff.mp hBoth.2
    have hDiffer : Override.rank? ⟨["src/*"], ["gif"]⟩ "src/a.ts" ≠
        Override.rank? ⟨["src/a.ts"], ["png"]⟩ "src/a.ts" := by decide +kernel
    exact hDiffer (hFirst.trans hSecond.symm)
  have hAppend : Override.Edit "src/a.ts"
      [⟨["docs/*"], []⟩, ⟨["**"], ["gif"]⟩, ⟨["src/a.ts"], ["png"]⟩, ⟨["src/*"], ["gif"]⟩]
      [⟨["docs/*"], []⟩, ⟨["**"], ["gif"]⟩, ⟨["src/a.ts"], ["png"]⟩, ⟨["src/*"], ["gif"]⟩,
        ⟨["src/a.ts"], ["bmp"]⟩] := by
    have hBest : Override.best? "src/a.ts" [⟨["docs/*"], []⟩, ⟨["**"], ["gif"]⟩,
        ⟨["src/a.ts"], ["png"]⟩, ⟨["src/*"], ["gif"]⟩] = some (2, ⟨["src/a.ts"], ["png"]⟩) := by
      decide +kernel
    have hLast : Override.rank? ⟨["src/a.ts"], ["bmp"]⟩ "src/a.ts" = some 2 := by decide +kernel
    obtain ⟨place, hDecides⟩ := Override.exists_decides hBest
    exact .append hDecides (Override.rank?_eq_some_iff.mp hLast).2
  refine ⟨resolve?_edited ?_, by decide +kernel⟩
  exact ((((Relation.ReflTransGen.single hRearrange).tail hDrop).tail hInsert).tail hSplit).tail
    hSwap |>.tail hAppend

end LiteralLint
