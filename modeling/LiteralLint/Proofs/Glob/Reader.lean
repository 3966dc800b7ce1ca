import LiteralLint.Glob.Parse
import LiteralLint.Proofs.Traversal

/-! # Reading on in a pattern

Tokens ask for slashes, each for one at most. While a pattern is read, the tokens that it has
outside its choices never ask for fewer. A pattern is read step by step; each step takes some
characters and leaves the others. -/

set_option autoImplicit false

namespace LiteralLint.Glob

def Token.slashes : Token → Nat
  | .literal c => if c = '/' then 1 else 0
  | .innerFolders => 1
  | .trailingFolders => 1
  | _ => 0

def leastSlashes : List Token → Nat
  | [] => 0
  | t :: ts => t.slashes + leastSlashes ts

theorem readRanges_eq_append {first inRange : Bool} {ranges found : List (Char × Char)}
    {cs rest : List Char} (h : readRanges first inRange ranges cs = .ok (found, rest)) :
    ∃ inside, cs = inside ++ rest := by
  fun_induction readRanges first inRange ranges cs with
  | case1 => cases h
  | case2 =>
    cases h
    exact ⟨[_], rfl⟩
  | case3 _ _ _ c cs _ _ ih =>
    obtain ⟨inside, rfl⟩ := ih h
    exact ⟨c :: inside, rfl⟩
  | case4 => cases h
  | case5 _ c cs _ _ _ _ _ _ ih =>
    obtain ⟨inside, rfl⟩ := ih h
    exact ⟨c :: inside, rfl⟩
  | case6 _ _ c cs _ _ _ _ ih =>
    obtain ⟨inside, rfl⟩ := ih h
    exact ⟨c :: inside, rfl⟩

theorem readClass_eq_append {t : Token} {cs rest : List Char} (h : readClass cs = .ok (t, rest)) :
    ∃ inside, cs = inside ++ rest := by
  obtain ⟨⟨ranges, tail⟩, hRanges, h⟩ := bind_eq_ok h
  cases h
  obtain ⟨inside, hInside⟩ := readRanges_eq_append hRanges
  split at hInside
  · exact ⟨cs.take 1 ++ inside, by rw [List.append_assoc, ← hInside, List.take_append_drop]⟩
  · exact ⟨inside, hInside⟩

section

variable {t : Token} {ts us : List Token}

theorem Token.slashes_le_one (t : Token) : t.slashes ≤ 1 := by
  cases t with
  | literal c =>
    rw [Token.slashes]
    split <;> omega
  | _ => simp [Token.slashes]

theorem leastSlashes_append (ts us : List Token) :
    leastSlashes (ts ++ us) = leastSlashes ts + leastSlashes us := by
  induction ts with
  | nil => simp [leastSlashes]
  | cons t ts ih => rw [List.cons_append, leastSlashes, ih, leastSlashes, Nat.add_assoc]

theorem leastSlashes_reverse (ts : List Token) : leastSlashes ts.reverse = leastSlashes ts := by
  induction ts with
  | nil => rfl
  | cons t ts ih =>
    rw [List.reverse_cons, leastSlashes_append, ih, leastSlashes, leastSlashes, leastSlashes]
    omega

end

namespace Reader

def outermost (inner : Choice) : List Choice → Choice
  | [] => inner
  | choice :: outer => outermost choice outer

/-- The slashes that everything has that the pattern stands for as far as it is read. -/
def slashes (r : Reader) : Nat := leastSlashes (outermost r.inner r.outer).current

variable {r next : Reader} {t : Token} {cs rest : List Char} {last : Char}
  {previous : Option Char}

theorem slashes_push_of_outer (h : r.outer = []) (t : Token) :
    (r.push t).slashes = t.slashes + r.slashes := by
  simp only [slashes, push, h, outermost, leastSlashes]

theorem slashes_push_of_nested (h : r.outer ≠ []) (t : Token) : (r.push t).slashes = r.slashes := by
  obtain ⟨choice, outer, hOuter⟩ := List.exists_cons_of_ne_nil h
  simp only [slashes, push, hOuter, outermost]

theorem slashes_le_push (r : Reader) (t : Token) : r.slashes ≤ (r.push t).slashes := by
  by_cases hOuter : r.outer = []
  · rw [slashes_push_of_outer hOuter]
    exact Nat.le_add_left _ _
  · exact Nat.le_of_eq (slashes_push_of_nested hOuter t).symm

theorem slashes_le_replace (h : t.slashes = 1) (r : Reader) :
    r.slashes ≤ (r.replace t).slashes := by
  obtain ⟨⟨finished, current⟩, outer⟩ := r
  cases outer with
  | nil =>
    cases current with
    | nil => exact Nat.zero_le _
    | cons last current =>
      have hLast := last.slashes_le_one
      simp only [slashes, replace, outermost, leastSlashes, List.drop_succ_cons, List.drop_zero]
      omega
  | cons choice outer => exact Nat.le_refl _

theorem slashes_nextBranch (h : r.outer ≠ []) : r.nextBranch.slashes = r.slashes := by
  obtain ⟨choice, outer, hOuter⟩ := List.exists_cons_of_ne_nil h
  simp only [slashes, nextBranch, hOuter, outermost]

theorem of_closed (h : r.closed = .ok next) :
    r.slashes ≤ next.slashes ∧ next.outer.length = r.outer.length - 1 := by
  rw [closed] at h
  split at h
  · cases h
  · rename_i choice outer hOuter
    cases h
    refine ⟨?_, ?_⟩
    · rw [slashes, hOuter]
      exact slashes_le_push ⟨choice, outer⟩ _
    · rw [hOuter]
      rfl

/-- The reader goes on within the same choices, and what it has read stays. -/
structure Extends (r next : Reader) : Prop where
  slashes_le : r.slashes ≤ next.slashes
  outer_eq : next.outer = r.outer

theorem Extends.refl (r : Reader) : r.Extends r := ⟨Nat.le_refl _, rfl⟩

theorem extends_push (r : Reader) (t : Token) : r.Extends (r.push t) := ⟨slashes_le_push r t, rfl⟩

theorem extends_replace (h : t.slashes = 1) (r : Reader) : r.Extends (r.replace t) :=
  ⟨slashes_le_replace h r, rfl⟩

theorem extends_pushTwice (r : Reader) : r.Extends r.pushTwice :=
  ⟨Nat.le_trans (slashes_le_push r _) (slashes_le_push _ _), rfl⟩

theorem extends_comma (r : Reader) :
    r.Extends (if r.isNested then r.nextBranch else r.push (.literal ',')) := by
  split
  · rename_i hNested
    have hOuter : r.outer ≠ [] := by simpa [isNested] using hNested
    exact ⟨Nat.le_of_eq (slashes_nextBranch hOuter).symm, rfl⟩
  · exact extends_push r _

theorem slashes_of_not_isNested (h : ¬ r.isNested = true) :
    r.slashes = leastSlashes r.inner.current := by
  have hOuter : r.outer = [] := by simpa [isNested] using h
  rw [slashes, hOuter, outermost]

inductive TakesStars : List Char → List Char → Prop
  | none (rest : List Char) : TakesStars rest rest
  | star (rest : List Char) : TakesStars ('*' :: rest) rest
  | folders (rest : List Char) : TakesStars ('*' :: '/' :: rest) rest

theorem TakesStars.length_le (h : TakesStars cs rest) : rest.length ≤ cs.length := by
  cases h with
  | none => exact Nat.le_refl _
  | star => exact Nat.le_succ _
  | folders => exact Nat.le_add_right _ 2

theorem of_leadingStars (h : r.leadingStars cs = (next, last, rest)) :
    r.Extends next ∧ TakesStars ('*' :: cs) rest := by
  unfold leadingStars at h
  split at h
  · cases h
    exact ⟨extends_push r _, .star []⟩
  · cases h
    exact ⟨extends_push r _, .folders _⟩
  · cases h
    exact ⟨extends_pushTwice r, .star _⟩

theorem of_innerStars (h : r.innerStars cs = (next, last, rest)) :
    r.Extends next ∧ TakesStars ('*' :: cs) rest := by
  unfold innerStars at h
  extract_lets absorb at h
  have hAbsorb : ∀ t : Token, t.slashes = 1 → r.Extends (absorb t) := by
    intro t hSlash
    unfold absorb
    split
    · exact .refl r
    · exact .refl r
    · exact extends_replace hSlash r
  split at h
  · cases h
    exact ⟨hAbsorb _ rfl, .star []⟩
  · cases h
    exact ⟨hAbsorb _ rfl, .folders _⟩
  · split at h
    · cases h
      exact ⟨hAbsorb _ rfl, .star _⟩
    · cases h
      exact ⟨extends_pushTwice r, .star _⟩

theorem of_star (h : r.star previous cs = (next, last, rest)) :
    r.Extends next ∧ TakesStars cs rest := by
  unfold star at h
  split at h
  · split at h
    · exact of_leadingStars h
    · split at h
      · exact of_innerStars h
      · cases h
        exact ⟨extends_pushTwice r, .star _⟩
  · cases h
    exact ⟨extends_push r _, .none _⟩

inductive Step : Reader → List Char → Reader → List Char → Prop
  | anyByte {r : Reader} {cs : List Char} : Step r ('?' :: cs) (r.push .anyByte) cs
  | stars {r next : Reader} {previous : Option Char} {last : Char} {cs rest : List Char} :
      r.star previous cs = (next, last, rest) → Step r ('*' :: cs) next rest
  | oneOf {r : Reader} {t : Token} {cs rest : List Char} :
      readClass cs = .ok (t, rest) → Step r ('[' :: cs) (r.push t) rest
  | opens {r : Reader} {cs : List Char} : Step r ('\x7b' :: cs) r.opened cs
  | closes {r next : Reader} {cs : List Char} : r.closed = .ok next → Step r ('\x7d' :: cs) next cs
  | comma {r : Reader} {cs : List Char} :
      Step r (',' :: cs) (if r.isNested then r.nextBranch else r.push (.literal ',')) cs
  | escape {r : Reader} {c : Char} {cs : List Char} :
      Step r ('\\' :: c :: cs) (r.push (.literal c)) cs
  | literal {r : Reader} {c : Char} {cs : List Char} :
      c ≠ '[' → c ≠ '\x7b' → c ≠ '\x7d' → c ≠ '\\' → Step r (c :: cs) (r.push (.literal c)) cs

inductive Reads : Reader → List Char → List Token → Prop
  | done {r : Reader} : ¬ r.isNested = true → Reads r [] r.inner.current.reverse
  | step {r next : Reader} {cs rest : List Char} {ts : List Token} :
      Step r cs next rest → Reads next rest ts → Reads r cs ts

theorem reads_of_readTokens {fuel : Nat} {ts : List Token}
    (h : readTokens fuel r previous cs = .ok ts) (hFuel : cs.length < fuel) : r.Reads cs ts := by
  fun_induction readTokens fuel r previous cs with
  | case1 r previous fuel cs ih => exact .step .anyByte (ih h (Nat.lt_of_succ_lt_succ hFuel))
  | case2 r previous fuel cs next last rest hStar ih =>
    have hRest := (of_star hStar).2.length_le
    exact .step (.stars hStar) (ih h (Nat.lt_of_le_of_lt hRest (Nat.lt_of_succ_lt_succ hFuel)))
  | case4 r previous fuel cs t rest hClass ih =>
    obtain ⟨inside, rfl⟩ := readClass_eq_append hClass
    rw [List.length_cons, List.length_append] at hFuel
    exact .step (.oneOf hClass) (ih h (by omega))
  | case5 r previous fuel cs ih => exact .step .opens (ih h (Nat.lt_of_succ_lt_succ hFuel))
  | case7 r previous fuel cs next hClosed ih =>
    exact .step (.closes hClosed) (ih h (Nat.lt_of_succ_lt_succ hFuel))
  | case8 r previous fuel cs ih => exact .step .comma (ih h (Nat.lt_of_succ_lt_succ hFuel))
  | case10 r previous fuel c cs ih =>
    exact .step .escape (ih h (Nat.lt_of_succ_lt (Nat.lt_of_succ_lt_succ hFuel)))
  | case11 r previous fuel cs c _ _ hClass hOpen hClose _ hEscape ih =>
    exact .step (.literal hClass hOpen hClose hEscape) (ih h (Nat.lt_of_succ_lt_succ hFuel))
  | case3 | case6 | case9 | case12 => cases h
  | case13 fuel r previous cs hNested hEnd =>
    cases cs with
    | nil =>
      cases h
      exact .done hNested
    | cons c cs =>
      obtain ⟨fuel, rfl⟩ := Nat.exists_eq_add_one_of_ne_zero (Nat.ne_zero_of_lt hFuel)
      exact absurd rfl (hEnd fuel c cs rfl)

end Reader

end LiteralLint.Glob
