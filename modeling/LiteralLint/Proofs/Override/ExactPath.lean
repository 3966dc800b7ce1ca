import LiteralLint.Proofs.Glob.Segments
import LiteralLint.Proofs.Override.Edits

/-! # A path among the patterns

A pattern that is the path itself has all segments of the path, and no other pattern that matches
it has more, but for its strays. So the override that names the path decides, if it is the first one
and no other has a pattern with strays. -/

set_option autoImplicit false

namespace LiteralLint

namespace Override

variable {o p : Override} {os : List Override} {path : String} {rank : Nat}

theorem hits_of_mem_paths (hPlain : ∀ c ∈ path.toList, c ∉ Glob.metacharacters)
    (hPath : path ∈ o.paths) : o.Hits path (Glob.segments path) := by
  obtain ⟨g, hParse, hMatch, hSegments⟩ := Glob.exists_parse_of_plain hPlain
  exact ⟨path, hPath, g, hParse, hMatch, hSegments⟩

theorem Hits.le_segments (h : p.Hits path rank)
    (hStrays : ∀ text ∈ p.paths, ∀ g, Glob.parse text = .ok g → g.isMatch path = true →
      Glob.straySlashes text = 0) : rank ≤ Glob.segments path := by
  obtain ⟨text, hText, g, hParse, hMatch, rfl⟩ := h
  have hBound := Glob.specificity_le hParse hMatch
  rw [hStrays text hText g hParse hMatch] at hBound
  exact hBound

theorem Scores.resolve?_cons (h : o.Scores path rank)
    (hLater : ∀ p ∈ os, ∀ r, p.Hits path r → r ≤ rank) :
    resolve? (o :: os) path = some (.ofList o.allowedValues) := by
  have hDecides : Decides (o :: os) path 0 o rank := .head h.1 (fun r hr => h.2 hr) hLater
  rw [resolve?_eq_choice, choice_of_decides hDecides]
  rfl

theorem Scores.resolve?_cons_of_lt {r : Nat} (h : o.Scores path rank) (hp : p ∈ os)
    (hHits : p.Hits path r) (hLess : rank < r) : resolve? (o :: os) path = resolve? os path := by
  rcases decides_or_no_hits os path with ⟨place, q, greatest, hDecides⟩ | hNone
  · have hMore : rank < greatest := Nat.lt_of_lt_of_le hLess (hDecides.greatest p hp r hHits)
    have hBefore : ∀ i, o.Hits path i → i < greatest :=
      fun i hi => Nat.lt_of_le_of_lt (h.2 hi) hMore
    rw [resolve?_eq_choice, choice_of_decides (hDecides.cons hBefore), resolve?_eq_choice,
      choice_of_decides hDecides]
  · exact absurd hHits (hNone p hp r)

end Override

/-- An override that names the path is at least as specific as the path has segments. If it comes
first, it decides unless a later one is more specific, which takes strays: slashes of the pattern in
a choice, or more than one in a class. -/
theorem resolve?_exactPath {o : Override} {path : String}
    (hPlain : ∀ c ∈ path.toList, c ∉ Glob.metacharacters) (hPath : path ∈ o.paths)
    (os : List Override) :
    (∃ rank, o.Scores path rank ∧ Glob.segments path ≤ rank ∧
      ((∀ p ∈ os, ∀ r, p.Hits path r → r ≤ rank) →
        resolve? (o :: os) path = some (.ofList o.allowedValues)) ∧
      ((∃ p ∈ os, ∃ r, p.Hits path r ∧ rank < r) →
        resolve? (o :: os) path = resolve? os path)) ∧
    (∀ text g, Glob.parse text = .ok g → g.isMatch path = true →
      g.specificity ≤ Glob.segments path + Glob.straySlashes text) ∧
    (∀ text : String, '[' ∉ text.toList → '\x7b' ∉ text.toList → Glob.straySlashes text = 0) ∧
    ((∀ p ∈ os, ∀ text ∈ p.paths, ∀ g, Glob.parse text = .ok g → g.isMatch path = true →
        Glob.straySlashes text = 0) →
      resolve? (o :: os) path = some (.ofList o.allowedValues)) := by
  have hHits := Override.hits_of_mem_paths hPlain hPath
  obtain ⟨rank, hScore⟩ := Override.exists_scores_of_hits hHits
  have hSegments : Glob.segments path ≤ rank := hScore.2 hHits
  refine ⟨⟨rank, hScore, hSegments, hScore.resolve?_cons, ?_⟩, ?_, ?_, ?_⟩
  · rintro ⟨p, hp, r, hr, hLess⟩
    exact hScore.resolve?_cons_of_lt hp hr hLess
  · intro text g hParse hMatch
    exact Glob.specificity_le hParse hMatch
  · intro text hClass hOpen
    exact Glob.straySlashes_eq_zero hClass hOpen
  · intro hStrays
    refine hScore.resolve?_cons fun p hp r hr => ?_
    exact Nat.le_trans (hr.le_segments (hStrays p hp)) hSegments

/-- The later patterns have wildcards, classes with a slash and a choice without any. -/
theorem resolve?_exactPath_source :
    resolve? [⟨["src/a.ts"], ["png"]⟩, ⟨["**/a.ts", "src/?.ts", "**"], []⟩,
      ⟨["src[!b/]a.ts", "src[./]a.ts", "src/\x7ba,b\x7d.ts"], ["gif"]⟩] "src/a.ts" =
        some (.ofList ["png"]) := by
  have hPlain : ∀ c ∈ "src/a.ts".toList, c ∉ Glob.metacharacters := by
    simp [Glob.metacharacters]
  have hPath : "src/a.ts" ∈ (Override.mk ["src/a.ts"] ["png"]).paths := by decide
  have hStrays : ∀ p ∈ [Override.mk ["**/a.ts", "src/?.ts", "**"] [],
      ⟨["src[!b/]a.ts", "src[./]a.ts", "src/\x7ba,b\x7d.ts"], ["gif"]⟩],
      ∀ text ∈ p.paths, Glob.straySlashes text = 0 := by decide
  obtain ⟨-, -, -, hDecides⟩ := resolve?_exactPath hPlain hPath
    [⟨["**/a.ts", "src/?.ts", "**"], []⟩,
      ⟨["src[!b/]a.ts", "src[./]a.ts", "src/\x7ba,b\x7d.ts"], ["gif"]⟩]
  exact hDecides fun p hp text hText _ _ _ => hStrays p hp text hText

/-- Parts of a choice or a class count as segments, so that a path of one segment is matched with
two. -/
theorem resolve?_outranked :
    resolve? [⟨["x", "y"], ["first"]⟩, ⟨["\x7ba/b,x\x7d", "[a/b/y]"], ["second"]⟩] "x" =
        some (.ofList ["second"]) ∧
      resolve? [⟨["x", "y"], ["first"]⟩, ⟨["\x7ba/b,x\x7d", "[a/b/y]"], ["second"]⟩] "y" =
        some (.ofList ["second"]) ∧
      ¬ ∀ (o : Override) (path : String) (os : List Override),
        (∀ c ∈ path.toList, c ∉ ['*', '?', '[', ']', '\x7b', '\x7d', ',', '\\', '!']) →
        path ∈ o.paths → resolve? (o :: os) path = some (.ofList o.allowedValues) := by
  have hChoice : resolve? [⟨["x", "y"], ["first"]⟩,
      ⟨["\x7ba/b,x\x7d", "[a/b/y]"], ["second"]⟩] "x" = some (.ofList ["second"]) := by
    decide +kernel
  have hClass : resolve? [⟨["x", "y"], ["first"]⟩,
      ⟨["\x7ba/b,x\x7d", "[a/b/y]"], ["second"]⟩] "y" = some (.ofList ["second"]) := by
    decide +kernel
  refine ⟨hChoice, hClass, fun hClaim => ?_⟩
  have hFirst := hClaim ⟨["x", "y"], ["first"]⟩ "x"
    [⟨["\x7ba/b,x\x7d", "[a/b/y]"], ["second"]⟩] (by simp) (by simp)
  have hDiffer : AllowList.ofList ["second"] ≠ .ofList ["first"] := by decide
  exact hDiffer (Option.some.inj (hChoice.symm.trans hFirst))

end LiteralLint
