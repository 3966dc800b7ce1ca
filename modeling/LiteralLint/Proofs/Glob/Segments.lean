import LiteralLint.Proofs.Glob.Language
import LiteralLint.Proofs.Glob.Strays

/-! # Segments of a pattern and of a path

Whatever a pattern stands for has the slashes that its tokens ask for. So the pattern has no more
segments without a wildcard than a path that it matches, but for its strays, and a path without any
special character is a pattern for itself with as many segments. -/

set_option autoImplicit false

namespace LiteralLint.Glob

section

variable {g : Glob} {text path : String} {t : Token} {ts : List Token} {bs : List UInt8}

theorem Token.Spans.slashes_le (h : t.Spans bs) : t.slashes ≤ bs.count slash := by
  cases h with
  | literal c =>
    rw [Token.slashes]
    split
    · rename_i hSlash
      subst hSlash
      decide
    · exact Nat.zero_le _
  | innerSlash => decide
  | innerFolders bs => simp [Token.slashes]
  | trailingFolders bs => simp [Token.slashes]
  | _ => exact Nat.zero_le _

theorem leastSlashes_le (h : SpanAll ts bs) : leastSlashes ts ≤ bs.count slash := by
  induction ts generalizing bs with
  | nil => exact Nat.zero_le _
  | cons t ts ih =>
    obtain ⟨as, cs, hHead, hTail, rfl⟩ := spanAll_cons_iff.mp h
    rw [List.count_append, leastSlashes]
    exact Nat.add_le_add hHead.slashes_le (ih hTail)

theorem ofNat_eq_slash_iff {n : Nat} (h : n < 256) : UInt8.ofNat n = slash ↔ n = 47 := by
  rw [← UInt8.toNat_inj, UInt8.toNat_ofNat_of_lt' h]
  rfl

theorem ofNat_ne_slash {n : Nat} (hLow : 128 ≤ n) (hHigh : n < 256) : UInt8.ofNat n ≠ slash := by
  rw [Ne, ofNat_eq_slash_iff hHigh]
  omega

theorem count_bytesOf (c : Char) : (bytesOf c).count slash = if c = '/' then 1 else 0 := by
  have hSlash : c = '/' ↔ c.val.toNat = 47 := by
    rw [← Char.val_inj, ← UInt32.toNat_inj]
    rfl
  rw [bytesOf, String.utf8EncodeChar]
  split
  · rename_i hAscii
    have hByte : c.val.toNat < 256 := Nat.lt_of_le_of_lt hAscii (by decide)
    simp only [List.count_singleton, beq_iff_eq, hSlash, ofNat_eq_slash_iff hByte]
  · rename_i hBeyond
    have hOther : c ≠ '/' := fun h => hBeyond (by rw [hSlash.mp h]; decide)
    rw [if_neg hOther, List.count_eq_zero]
    split
    · simp only [List.mem_cons, List.not_mem_nil, or_false, not_or]
      refine ⟨?_, ?_⟩ <;> exact (ofNat_ne_slash (by omega) (by omega)).symm
    · split
      · simp only [List.mem_cons, List.not_mem_nil, or_false, not_or]
        refine ⟨?_, ?_, ?_⟩ <;> exact (ofNat_ne_slash (by omega) (by omega)).symm
      · simp only [List.mem_cons, List.not_mem_nil, or_false, not_or]
        refine ⟨?_, ?_, ?_, ?_⟩ <;> exact (ofNat_ne_slash (by omega) (by omega)).symm

theorem count_flatMap_bytesOf (cs : List Char) :
    (cs.flatMap bytesOf).count slash = cs.count '/' := by
  induction cs with
  | nil => rfl
  | cons c cs ih =>
    rw [List.flatMap_cons, List.count_append, ih, count_bytesOf, List.count_cons]
    simp [Nat.add_comm]

/-- The segments of a path, which are told apart by every slash. -/
def segments (path : String) : Nat := (Text.split '/' path.toList).length

theorem specificity_le (h : Glob.parse text = .ok g) (hMatch : g.isMatch path = true) :
    g.specificity ≤ segments path + straySlashes text := by
  have hTokens : leastSlashes g.tokens ≤ path.toList.count '/' := by
    rcases isMatch_iff.mp hMatch with hAlone | hSpans
    · rw [hAlone]
      exact Nat.zero_le _
    · rw [← count_flatMap_bytesOf]
      exact leastSlashes_le hSpans
  have hBound := specificity_le_of_parse h
  rw [segments, Text.length_split]
  omega

end

/-! ### Paths as patterns -/

def metacharacters : List Char := ['*', '?', '[', '\x7b', '\x7d', '\\']

section

variable {cs : List Char} {path : String}

theorem readTokens_cons_of_plain {fuel : Nat} {r : Reader} {c : Char} (hOuter : r.outer = [])
    (hPlain : c ∉ metacharacters) (previous : Option Char) (cs : List Char) :
    readTokens (fuel + 1) r previous (c :: cs) =
      readTokens fuel (r.push (.literal c)) (some c) cs := by
  simp only [metacharacters, List.mem_cons, List.not_mem_nil, or_false, not_or] at hPlain
  by_cases hComma : c = ','
  · subst hComma
    simp [readTokens, Reader.isNested, hOuter]
  · rw [readTokens] <;> simp [hPlain, hComma]

theorem readTokens_plain {fuel : Nat} {r : Reader} (hOuter : r.outer = [])
    (hPlain : ∀ c ∈ cs, c ∉ metacharacters) (hFuel : cs.length < fuel) (previous : Option Char) :
    readTokens fuel r previous cs = .ok (r.inner.current.reverse ++ cs.map .literal) := by
  induction cs generalizing fuel r previous with
  | nil => cases fuel <;> simp [readTokens, Reader.isNested, hOuter]
  | cons c cs ih =>
    obtain ⟨fuel, rfl⟩ := Nat.exists_eq_add_one_of_ne_zero (Nat.ne_zero_of_lt hFuel)
    obtain ⟨hHead, hTail⟩ := List.forall_mem_cons.mp hPlain
    have hRest := ih (r := r.push (.literal c)) hOuter hTail (Nat.lt_of_succ_lt_succ hFuel) (some c)
    rw [readTokens_cons_of_plain hOuter hHead, hRest, List.map_cons]
    simp [Reader.push]

theorem spanAll_literals (cs : List Char) : SpanAll (cs.map .literal) (cs.flatMap bytesOf) := by
  induction cs with
  | nil => exact .nil
  | cons c cs ih => exact .cons (.literal c) ih

theorem plainSegments_of_plain (h : ∀ c ∈ cs, c ∉ metacharacters) :
    plainSegments true cs = cs.count '/' + 1 := by
  induction cs with
  | nil => rfl
  | cons c cs ih =>
    obtain ⟨hHead, hTail⟩ := List.forall_mem_cons.mp h
    by_cases hSlash : c = '/'
    · subst hSlash
      rw [plainSegments, if_pos rfl, ih hTail, List.count_cons_self]
      exact Nat.add_comm _ _
    · have hPlain : isWildcard c = false := by
        simp only [metacharacters, List.mem_cons, List.not_mem_nil, or_false, not_or] at hHead
        simp [isWildcard, hHead]
      rw [plainSegments_of_ne hSlash, hPlain, List.count_cons_of_ne hSlash]
      exact ih hTail

theorem exists_parse_of_plain (h : ∀ c ∈ path.toList, c ∉ metacharacters) :
    ∃ g, Glob.parse path = .ok g ∧ g.isMatch path = true ∧ g.specificity = segments path := by
  have hParse : Glob.parse path = .ok ⟨path, path.toList.map .literal⟩ := by
    rw [Glob.parse, readTokens_plain rfl h (length_toList_lt path) none]
    rfl
  refine ⟨_, hParse, isMatch_iff.mpr (.inr (spanAll_literals _)), ?_⟩
  rw [specificity_eq, plainSegments_of_plain h, segments, Text.length_split]

end

end LiteralLint.Glob
