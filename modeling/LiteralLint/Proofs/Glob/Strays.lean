import LiteralLint.Glob.Match
import LiteralLint.Proofs.Glob.Reader

/-! # Segments in the text of a pattern

The segments of a pattern are told by its text, where a slash in a choice or a class separates
segments as well. Apart from these strays every segment without a wildcard but one is closed by a
slash that the tokens of the pattern ask for. -/

set_option autoImplicit false

namespace LiteralLint.Glob

def isWildcard (c : Char) : Bool := c = '*' ∨ c = '?' ∨ c = '['

/-- The segments without a wildcard in the rest of a pattern, where `plain` says of what has been
read of the first one that it has none. -/
def plainSegments (plain : Bool) : List Char → Nat
  | [] => plain.toNat
  | c :: cs =>
    if c = '/' then plain.toNat + plainSegments true cs
    else plainSegments (plain && !isWildcard c) cs

/-- The slashes in the rest of a pattern that stand within choices, of which `depth` are open, and
all slashes of its classes but the first of each. -/
def strays (fuel depth : Nat) (cs : List Char) : Nat :=
  match fuel, cs with
  | fuel + 1, c :: cs =>
    match c with
    | '[' =>
      match readClass cs with
      | .error _ => 0
      | .ok (_, rest) =>
        ((cs.take (cs.length - rest.length)).count '/' - 1) + strays fuel depth rest
    | '\x7b' => strays fuel (depth + 1) cs
    | '\x7d' => strays fuel (depth - 1) cs
    | '\\' =>
      match cs with
      | [] => 0
      | c :: cs => (if c = '/' ∧ 0 < depth then 1 else 0) + strays fuel depth cs
    | c => (if c = '/' ∧ 0 < depth then 1 else 0) + strays fuel depth cs
  | _, _ => 0

/-- The slashes of a pattern by which it may show more segments than a path that it matches. -/
def straySlashes (text : String) : Nat := strays (text.length + 1) 0 text.toList

section

variable {plain : Bool} {c : Char} {cs rest : List Char}

theorem plainSegments_of_split {first : List Char} {pieces : List (List Char)}
    (h : Text.split '/' cs = first :: pieces) :
    plainSegments plain cs = (plain && !first.any isWildcard).toNat +
      pieces.countP fun piece => !piece.any isWildcard := by
  induction cs generalizing plain first pieces with
  | nil =>
    cases h
    simp [plainSegments]
  | cons c cs ih =>
    obtain ⟨next, others, hSplit⟩ := List.exists_cons_of_ne_nil (Text.split_ne_nil '/' cs)
    by_cases hSlash : c = '/'
    · rw [Text.split, if_pos hSlash, hSplit] at h
      cases h
      rw [plainSegments, if_pos hSlash, ih hSplit, List.countP_cons]
      cases next.any isWildcard <;> simp [Nat.add_comm]
    · rw [Text.split, if_neg hSlash, hSplit] at h
      cases h
      rw [plainSegments, if_neg hSlash, ih hSplit, List.any_cons, Bool.not_or, Bool.and_assoc]

theorem specificity_eq (g : Glob) : g.specificity = plainSegments true g.text.toList := by
  obtain ⟨first, pieces, hSplit⟩ := List.exists_cons_of_ne_nil (Text.split_ne_nil '/' g.text.toList)
  have hCount : g.specificity = (first :: pieces).countP fun piece => !piece.any isWildcard := by
    rw [specificity, hSplit]
    rfl
  rw [hCount, plainSegments_of_split hSplit, List.countP_cons]
  cases first.any isWildcard <;> simp [Nat.add_comm]

theorem plainSegments_le (plain : Bool) (cs : List Char) :
    plainSegments plain cs ≤ plainSegments true cs := by
  obtain ⟨first, pieces, hSplit⟩ := List.exists_cons_of_ne_nil (Text.split_ne_nil '/' cs)
  rw [plainSegments_of_split hSplit, plainSegments_of_split hSplit]
  cases plain <;> simp

theorem plainSegments_slash (plain : Bool) (cs : List Char) :
    plainSegments plain ('/' :: cs) ≤ plainSegments true cs + 1 := by
  rw [plainSegments, if_pos rfl, Nat.add_comm]
  exact Nat.add_le_add_left (Bool.toNat_le plain) _

theorem plainSegments_of_ne (hSlash : c ≠ '/') (plain : Bool) (cs : List Char) :
    plainSegments plain (c :: cs) = plainSegments (plain && !isWildcard c) cs := by
  rw [plainSegments, if_neg hSlash]

theorem plainSegments_of_isWildcard (h : isWildcard c = true) (plain : Bool) (cs : List Char) :
    plainSegments plain (c :: cs) = plainSegments false cs := by
  have hSlash : c ≠ '/' := by
    rintro rfl
    cases h
  rw [plainSegments_of_ne hSlash, h, Bool.not_true, Bool.and_false]

theorem plainSegments_true_append (cs rest : List Char) :
    plainSegments true (cs ++ rest) ≤ cs.count '/' + plainSegments true rest := by
  induction cs with
  | nil => simp
  | cons c cs ih =>
    by_cases hSlash : c = '/'
    · subst hSlash
      have hStep := plainSegments_slash true (cs ++ rest)
      rw [List.count_cons_self, List.cons_append]
      omega
    · have hStep := plainSegments_le (true && !isWildcard c) (cs ++ rest)
      rw [List.cons_append, plainSegments_of_ne hSlash, List.count_cons_of_ne hSlash]
      omega

theorem plainSegments_false_append (cs rest : List Char) :
    plainSegments false (cs ++ rest) ≤ cs.count '/' - 1 + plainSegments true rest := by
  induction cs with
  | nil => simpa using plainSegments_le false rest
  | cons c cs ih =>
    by_cases hSlash : c = '/'
    · subst hSlash
      have hStep := plainSegments_true_append cs rest
      rw [List.count_cons_self, List.cons_append, plainSegments, if_pos rfl, Nat.add_sub_cancel]
      simpa using hStep
    · rw [List.cons_append, plainSegments_of_ne hSlash, List.count_cons_of_ne hSlash]
      exact ih

end

section

variable {fuel depth : Nat} {c : Char} {cs rest inside : List Char} {t : Token} {ts : List Token}
  {r next : Reader} {previous : Option Char}

theorem strays_class (h : readClass (inside ++ rest) = .ok (t, rest)) :
    strays (fuel + 1) depth ('[' :: (inside ++ rest)) =
      inside.count '/' - 1 + strays fuel depth rest := by
  simp [strays, h]

theorem strays_open (fuel depth : Nat) (cs : List Char) :
    strays (fuel + 1) depth ('\x7b' :: cs) = strays fuel (depth + 1) cs := rfl

theorem strays_close (fuel depth : Nat) (cs : List Char) :
    strays (fuel + 1) depth ('\x7d' :: cs) = strays fuel (depth - 1) cs := rfl

theorem strays_escape (fuel depth : Nat) (c : Char) (cs : List Char) :
    strays (fuel + 1) depth ('\\' :: c :: cs) =
      (if c = '/' ∧ 0 < depth then 1 else 0) + strays fuel depth cs := rfl

theorem strays_of_ne (hClass : c ≠ '[') (hOpen : c ≠ '\x7b') (hClose : c ≠ '\x7d')
    (hEscape : c ≠ '\\') (fuel depth : Nat) (cs : List Char) :
    strays (fuel + 1) depth (c :: cs) =
      (if c = '/' ∧ 0 < depth then 1 else 0) + strays fuel depth cs := by
  rw [strays] <;> assumption

theorem strays_slash_le (fuel depth : Nat) (cs : List Char) :
    strays fuel depth cs ≤ strays (fuel + 1) depth ('/' :: cs) := by
  rw [strays_of_ne (by decide) (by decide) (by decide) (by decide)]
  exact Nat.le_add_left _ _

theorem strays_star (fuel depth : Nat) (cs : List Char) :
    strays (fuel + 1) depth ('*' :: cs) = strays fuel depth cs := by
  rw [strays_of_ne (by decide) (by decide) (by decide) (by decide), if_neg (by simp), Nat.zero_add]

theorem Reader.TakesStars.strays_le (h : Reader.TakesStars cs rest) (hFuel : cs.length < fuel)
    (depth : Nat) : ∃ less, rest.length < less ∧ strays less depth rest ≤ strays fuel depth cs := by
  cases h with
  | none => exact ⟨fuel, hFuel, Nat.le_refl _⟩
  | star =>
    obtain ⟨less, rfl⟩ := Nat.exists_eq_add_one_of_ne_zero (Nat.ne_zero_of_lt hFuel)
    exact ⟨less, Nat.lt_of_succ_lt_succ hFuel, Nat.le_of_eq (strays_star less depth rest).symm⟩
  | folders =>
    obtain ⟨less, rfl⟩ := Nat.exists_eq_add_of_le' (Nat.lt_of_le_of_lt (Nat.le_add_left 1 _) hFuel)
    refine ⟨less, Nat.lt_of_succ_lt_succ (Nat.lt_of_succ_lt_succ hFuel), ?_⟩
    rw [strays_star]
    exact strays_slash_le less depth rest

theorem Reader.TakesStars.plainSegments_le (h : Reader.TakesStars cs rest) :
    plainSegments false cs ≤ plainSegments true rest := by
  cases h with
  | none => exact plainSegments_le false cs
  | star => exact plainSegments_le false rest
  | folders => exact Nat.le_of_eq (Nat.zero_add _)

namespace Reader

/-! ## What a step keeps

The segments without a wildcard that are still to come go down by no more than the slashes of the
tokens go up, but for strays. -/

theorem anyByte_bound (r : Reader) (cs : List Char) (more : Nat) (plain : Bool) :
    r.slashes + plainSegments plain ('?' :: cs) + strays more r.outer.length cs ≤
      (r.push .anyByte).slashes + plainSegments false cs +
        strays (more + 1) r.outer.length ('?' :: cs) := by
  have hPush := r.slashes_le_push .anyByte
  rw [plainSegments_of_isWildcard rfl,
    strays_of_ne (by decide) (by decide) (by decide) (by decide)]
  omega

/-- A segment with a star does not count, nor does the slash behind it that is taken along. -/
theorem stars_bound {last : Char} {more : Nat} (h : r.star previous cs = (next, last, rest))
    (hMore : cs.length < more) (plain : Bool) :
    ∃ less, rest.length < less ∧
      r.slashes + plainSegments plain ('*' :: cs) + strays less next.outer.length rest ≤
        next.slashes + plainSegments true rest + strays (more + 1) r.outer.length ('*' :: cs) := by
  obtain ⟨hExtends, hTakes⟩ := of_star h
  obtain ⟨less, hLess, hStrays⟩ := hTakes.strays_le hMore next.outer.length
  refine ⟨less, hLess, ?_⟩
  have hSlashes := hExtends.slashes_le
  have hSegments := hTakes.plainSegments_le
  rw [plainSegments_of_isWildcard rfl, strays_star, ← hExtends.outer_eq]
  omega

theorem oneOf_bound (h : readClass cs = .ok (t, rest)) (r : Reader) (more : Nat) (plain : Bool) :
    r.slashes + plainSegments plain ('[' :: cs) + strays more r.outer.length rest ≤
      (r.push t).slashes + plainSegments true rest +
        strays (more + 1) r.outer.length ('[' :: cs) := by
  obtain ⟨inside, rfl⟩ := readClass_eq_append h
  have hPush := r.slashes_le_push t
  have hInside := plainSegments_false_append inside rest
  rw [plainSegments_of_isWildcard rfl, strays_class h]
  omega

theorem closes_bound (h : r.closed = .ok next) (cs : List Char) (more : Nat) (plain : Bool) :
    r.slashes + plainSegments plain ('\x7d' :: cs) + strays more next.outer.length cs ≤
      next.slashes + plainSegments (plain && !isWildcard '\x7d') cs +
        strays (more + 1) r.outer.length ('\x7d' :: cs) := by
  obtain ⟨hSlashes, hOuter⟩ := of_closed h
  rw [plainSegments_of_ne (by decide), strays_close, hOuter]
  omega

theorem comma_bound (r : Reader) (cs : List Char) (more : Nat) (plain : Bool) :
    let next := if r.isNested then r.nextBranch else r.push (.literal ',')
    r.slashes + plainSegments plain (',' :: cs) + strays more next.outer.length cs ≤
      next.slashes + plainSegments (plain && !isWildcard ',') cs +
        strays (more + 1) r.outer.length (',' :: cs) := by
  intro next
  have hExtends : r.Extends next := r.extends_comma
  have hSlashes := hExtends.slashes_le
  rw [plainSegments_of_ne (by decide), hExtends.outer_eq,
    strays_of_ne (by decide) (by decide) (by decide) (by decide)]
  omega

theorem exists_push_literal_le (r : Reader) (plain : Bool) (c : Char) (cs : List Char) :
    ∃ behind, r.slashes + plainSegments plain (c :: cs) ≤
      (r.push (.literal c)).slashes + plainSegments behind cs +
        if c = '/' ∧ 0 < r.outer.length then 1 else 0 := by
  by_cases hSlash : c = '/'
  · subst hSlash
    have hStep := plainSegments_slash plain cs
    refine ⟨true, ?_⟩
    by_cases hOuter : r.outer = []
    · have hToken : Token.slashes (.literal '/') = 1 := rfl
      rw [slashes_push_of_outer hOuter, hToken]
      omega
    · rw [slashes_push_of_nested hOuter, if_pos ⟨rfl, List.length_pos_iff.mpr hOuter⟩]
      omega
  · have hPush := slashes_le_push r (.literal c)
    refine ⟨plain && !isWildcard c, ?_⟩
    rw [plainSegments_of_ne hSlash]
    omega

theorem exists_escape_bound (r : Reader) (c : Char) (cs : List Char) (more : Nat) (plain : Bool) :
    ∃ behind,
      r.slashes + plainSegments plain ('\\' :: c :: cs) + strays more r.outer.length cs ≤
        (r.push (.literal c)).slashes + plainSegments behind cs +
          strays (more + 1) r.outer.length ('\\' :: c :: cs) := by
  obtain ⟨behind, hPush⟩ := r.exists_push_literal_le (plain && !isWildcard '\\') c cs
  refine ⟨behind, ?_⟩
  rw [plainSegments_of_ne (by decide), strays_escape]
  omega

theorem exists_literal_bound (hClass : c ≠ '[') (hOpen : c ≠ '\x7b') (hClose : c ≠ '\x7d')
    (hEscape : c ≠ '\\') (r : Reader) (cs : List Char) (more : Nat) (plain : Bool) :
    ∃ behind,
      r.slashes + plainSegments plain (c :: cs) + strays more r.outer.length cs ≤
        (r.push (.literal c)).slashes + plainSegments behind cs +
          strays (more + 1) r.outer.length (c :: cs) := by
  obtain ⟨behind, hPush⟩ := r.exists_push_literal_le plain c cs
  refine ⟨behind, ?_⟩
  rw [strays_of_ne hClass hOpen hClose hEscape]
  omega

theorem Step.bound {more : Nat} (h : r.Step cs next rest) (hMore : cs.length < more)
    (plain : Bool) : ∃ less behind, rest.length < less ∧
      r.slashes + plainSegments plain cs + strays less next.outer.length rest ≤
        next.slashes + plainSegments behind rest + strays more r.outer.length cs := by
  obtain ⟨more, rfl⟩ := Nat.exists_eq_add_one_of_ne_zero (Nat.ne_zero_of_lt hMore)
  cases h with
  | anyByte => exact ⟨more, false, Nat.lt_of_succ_lt_succ hMore, anyByte_bound r rest more plain⟩
  | stars hStar =>
    obtain ⟨less, hLess, hBound⟩ := stars_bound hStar (Nat.lt_of_succ_lt_succ hMore) plain
    exact ⟨less, true, hLess, hBound⟩
  | oneOf hClass =>
    refine ⟨more, true, ?_, oneOf_bound hClass r more plain⟩
    obtain ⟨inside, rfl⟩ := readClass_eq_append hClass
    rw [List.length_cons, List.length_append] at hMore
    omega
  | opens =>
    refine ⟨more, plain && !isWildcard '\x7b', Nat.lt_of_succ_lt_succ hMore, ?_⟩
    rw [plainSegments_of_ne (by decide), strays_open]
    exact Nat.le_refl _
  | closes hClosed => exact ⟨more, _, Nat.lt_of_succ_lt_succ hMore, closes_bound hClosed _ _ _⟩
  | comma => exact ⟨more, _, Nat.lt_of_succ_lt_succ hMore, comma_bound r rest more plain⟩
  | escape =>
    obtain ⟨behind, hBound⟩ := exists_escape_bound r _ rest more plain
    exact ⟨more, behind, Nat.lt_of_succ_lt (Nat.lt_of_succ_lt_succ hMore), hBound⟩
  | literal hClass hOpen hClose hEscape =>
    obtain ⟨behind, hBound⟩ :=
      exists_literal_bound hClass hOpen hClose hEscape r rest more plain
    exact ⟨more, behind, Nat.lt_of_succ_lt_succ hMore, hBound⟩

theorem Reads.slashes_add_plainSegments_le {more : Nat} (h : r.Reads cs ts)
    (hMore : cs.length < more) (plain : Bool) :
    r.slashes + plainSegments plain cs ≤
      leastSlashes ts + strays more r.outer.length cs + 1 := by
  induction h generalizing more plain with
  | done hNested =>
    have hPlain := Bool.toNat_le plain
    rw [slashes_of_not_isNested hNested, leastSlashes_reverse, plainSegments]
    omega
  | step hStep _ ih =>
    obtain ⟨less, behind, hLess, hBound⟩ := hStep.bound hMore plain
    have hRest := ih hLess behind
    omega

end Reader

end

section

variable {g : Glob} {text : String}

theorem length_toList_lt (text : String) : text.toList.length < text.length + 1 := by
  rw [String.length_toList]
  exact Nat.lt_succ_self _

theorem specificity_le_of_parse (h : Glob.parse text = .ok g) :
    g.specificity ≤ leastSlashes g.tokens + straySlashes text + 1 := by
  obtain ⟨ts, hTokens, h⟩ := bind_eq_ok h
  cases h
  have hFuel := length_toList_lt text
  have hReads := Reader.reads_of_readTokens hTokens hFuel
  have hBound := hReads.slashes_add_plainSegments_le hFuel true
  rw [specificity_eq]
  exact Nat.le_trans (Nat.le_add_left _ _) hBound

theorem strays_eq_zero {fuel depth : Nat} {cs : List Char} (hDepth : depth = 0) (hClass : '[' ∉ cs)
    (hOpen : '\x7b' ∉ cs) : strays fuel depth cs = 0 := by
  fun_induction strays fuel depth cs with
  | case1 | case2 => exact absurd List.mem_cons_self hClass
  | case3 => exact absurd List.mem_cons_self hOpen
  | case4 depth fuel cs ih =>
    have hStill : depth - 1 = 0 := by omega
    exact ih hStill (List.not_mem_of_not_mem_cons hClass) (List.not_mem_of_not_mem_cons hOpen)
  | case5 => rfl
  | case6 depth fuel c cs ih =>
    rw [if_neg (by simp [hDepth]), Nat.zero_add]
    refine ih hDepth ?_ ?_
    · exact List.not_mem_of_not_mem_cons (List.not_mem_of_not_mem_cons hClass)
    · exact List.not_mem_of_not_mem_cons (List.not_mem_of_not_mem_cons hOpen)
  | case7 depth fuel cs c _ _ _ _ ih =>
    rw [if_neg (by simp [hDepth]), Nat.zero_add]
    exact ih hDepth (List.not_mem_of_not_mem_cons hClass) (List.not_mem_of_not_mem_cons hOpen)
  | case8 => rfl

theorem straySlashes_eq_zero (hClass : '[' ∉ text.toList) (hOpen : '\x7b' ∉ text.toList) :
    straySlashes text = 0 :=
  strays_eq_zero rfl hClass hOpen

example : straySlashes "src/\x7ba/b,c\x7d/[x/y/]" = 2 := by decide

end

end LiteralLint.Glob
