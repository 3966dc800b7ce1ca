import LiteralLint.Proofs.Glob.Reach

/-! # What a pattern stands for

Every token stands for certain runs of bytes, and a pattern for those that its tokens make up one
after the other. Following a pattern through a path reaches the places that such runs lead to, and
no others, so that a path is matched if the pattern stands for the whole of it. -/

set_option autoImplicit false

namespace LiteralLint

theorem toList_toByteArray (bs : List UInt8) : bs.toByteArray.toList = bs := by
  have hLoop : ∀ (b : ByteArray) (i : Nat) (taken : List UInt8),
      ByteArray.toList.loop b i taken = taken.reverse ++ b.data.toList.drop i := by
    intro b i taken
    fun_induction ByteArray.toList.loop b i taken with
    | case1 i taken hLess ih =>
      have hWithin : i < b.data.toList.length := by simpa using hLess
      rw [ih, List.drop_eq_getElem_cons hWithin]
      simp [ByteArray.get!, hLess]
    | case2 i taken hNotLess =>
      rw [List.drop_eq_nil_of_le (by simpa using Nat.le_of_not_lt hNotLess)]
      simp
  rw [ByteArray.toList, hLoop]
  simp

namespace Glob

mutual

/-- The bytes that a token can stand for. -/
inductive Token.Spans : Token → List UInt8 → Prop
  | literal (c : Char) : Token.Spans (.literal c) (bytesOf c)
  | anyByte (b : UInt8) : Token.Spans .anyByte [b]
  | anything (bs : List UInt8) : Token.Spans .anything bs
  | noFolders : Token.Spans .leadingFolders []
  | leadingFolders (bs : List UInt8) : Token.Spans .leadingFolders (bs ++ [slash])
  | innerSlash : Token.Spans .innerFolders [slash]
  | innerFolders (bs : List UInt8) : Token.Spans .innerFolders (slash :: bs ++ [slash])
  | trailingFolders (bs : List UInt8) : Token.Spans .trailingFolders (slash :: bs)
  | oneOf {negated : Bool} {ranges : List (Char × Char)} {b : UInt8}
      (holds : (ranges.any (fun range => rangeHolds b range.1 range.2) != negated) = true) :
      Token.Spans (.oneOf negated ranges) [b]
  | noBranch : Token.Spans (.either []) []
  | either {branches : List (List Token)} {branch : List Token} {bs : List UInt8}
      (mem : branch ∈ branches) (spans : SpanAll branch bs) : Token.Spans (.either branches) bs

inductive SpanAll : List Token → List UInt8 → Prop
  | nil : SpanAll [] []
  | cons {t : Token} {ts : List Token} {bs cs : List UInt8} (head : t.Spans bs)
      (tail : SpanAll ts cs) : SpanAll (t :: ts) (bs ++ cs)

end

variable {path bs : List UInt8}

mutual

theorem Token.fits_follow : ∀ (t : Token) {r : Reach}, r.Fits path → (t.follow path r).Fits path
  | .literal _, _, h => h.foldl_advance
  | .anyByte, _, h => h.advance
  | .anything, _, h => h.spread
  | .leadingFolders, _, h => h.union (fits_pastFolders h)
  | .innerFolders, _, h => (fits_pastSlash h).union (fits_pastFolders (fits_pastSlash h))
  | .trailingFolders, _, h => (fits_pastSlash h).spread
  | .oneOf _ _, _, h => h.advance
  | .either [], _, h => h
  | .either (branch :: branches), _, h => fits_followAny branches h (fits_followAll branch h)

theorem fits_followAll :
    ∀ (ts : List Token) {r : Reach}, r.Fits path → (followAll path r ts).Fits path
  | [], _, h => h
  | t :: ts, _, h => fits_followAll ts (t.fits_follow h)

theorem fits_followAny : ∀ (branches : List (List Token)) {r found : Reach}, r.Fits path →
    found.Fits path → (followAny path r found branches).Fits path
  | [], _, _, _, h => h
  | branch :: branches, _, _, h, hFound =>
    fits_followAny branches h (hFound.union (fits_followAll branch h))

end

section

variable {t : Token} {ts branch : List Token} {branches : List (List Token)}

theorem spans_literal_iff {c : Char} : (Token.literal c).Spans bs ↔ bs = bytesOf c := by
  constructor
  · rintro ⟨⟩
    rfl
  · rintro rfl
    exact .literal c

theorem spans_anyByte_iff : Token.anyByte.Spans bs ↔ ∃ b, bs = [b] := by
  constructor
  · rintro ⟨⟩
    exact ⟨_, rfl⟩
  · rintro ⟨b, rfl⟩
    exact .anyByte b

theorem spans_leadingFolders_iff :
    Token.leadingFolders.Spans bs ↔ bs = [] ∨ ∃ as, bs = as ++ [slash] := by
  constructor
  · rintro (_ | _ | _ | _ | ⟨as⟩)
    · exact Or.inl rfl
    · exact Or.inr ⟨as, rfl⟩
  · rintro (rfl | ⟨as, rfl⟩)
    · exact .noFolders
    · exact .leadingFolders as

theorem spans_innerFolders_iff :
    Token.innerFolders.Spans bs ↔
      bs = [slash] ∨ ∃ cs, (∃ as, cs = as ++ [slash]) ∧ bs = slash :: cs := by
  constructor
  · rintro (_ | _ | _ | _ | _ | _ | ⟨as⟩)
    · exact Or.inl rfl
    · exact Or.inr ⟨_, ⟨as, rfl⟩, rfl⟩
  · rintro (rfl | ⟨_, ⟨as, rfl⟩, rfl⟩)
    · exact .innerSlash
    · exact .innerFolders as

theorem spans_trailingFolders_iff : Token.trailingFolders.Spans bs ↔ ∃ as, bs = slash :: as := by
  constructor
  · rintro ⟨⟩
    exact ⟨_, rfl⟩
  · rintro ⟨as, rfl⟩
    exact .trailingFolders as

theorem spans_oneOf_iff {negated : Bool} {ranges : List (Char × Char)} :
    (Token.oneOf negated ranges).Spans bs ↔
      ∃ b, (ranges.any (fun range => rangeHolds b range.1 range.2) != negated) = true ∧
        bs = [b] := by
  constructor
  · rintro ⟨⟩
    exact ⟨_, ‹_›, rfl⟩
  · rintro ⟨b, hHolds, rfl⟩
    exact .oneOf hHolds

theorem spans_noBranch_iff : (Token.either []).Spans bs ↔ bs = [] := by
  constructor
  · rintro (_ | _ | _ | _ | _ | _ | _ | _ | _ | _ | ⟨hMem, -⟩)
    · rfl
    · cases hMem
  · rintro rfl
    exact .noBranch

theorem spans_either_iff :
    (Token.either (branch :: branches)).Spans bs ↔ ∃ b ∈ branch :: branches, SpanAll b bs := by
  constructor
  · rintro ⟨⟩
    rename_i b hMem hSpans
    exact ⟨b, hMem, hSpans⟩
  · rintro ⟨b, hMem, hSpans⟩
    exact .either hMem hSpans

theorem spanAll_nil_iff : SpanAll [] bs ↔ bs = [] := by
  constructor
  · rintro ⟨⟩
    rfl
  · rintro rfl
    exact .nil

theorem spanAll_cons_iff :
    SpanAll (t :: ts) bs ↔ ∃ as cs, t.Spans as ∧ SpanAll ts cs ∧ bs = as ++ cs := by
  constructor
  · rintro ⟨⟩
    rename_i as cs hHead hTail
    exact ⟨as, cs, hHead, hTail, rfl⟩
  · rintro ⟨as, cs, hHead, hTail, rfl⟩
    exact .cons hHead hTail

end

-- Tokens, rows of tokens and branches go through each other. Each lemma is about whatever places
-- were reached before, since a branch begins where the choice does.
mutual

theorem Token.holds_follow_iff : ∀ (t : Token) {r : Reach} {j : Nat}, r.Fits path →
    ((t.follow path r).Holds j ↔ r.Past path t.Spans j)
  | .literal c, r, j, _ => by
    rw [Token.follow, Reach.holds_foldl_advance_iff]
    exact Reach.past_congr fun bs => spans_literal_iff.symm
  | .anyByte, r, j, _ => by
    rw [Token.follow, Reach.holds_advance_iff]
    exact Reach.past_congr fun bs => by simp [spans_anyByte_iff]
  | .anything, r, j, h => by
    rw [Token.follow, Reach.holds_spread_iff h]
    exact Reach.past_congr fun bs => iff_of_true trivial (.anything bs)
  | .leadingFolders, r, j, h => by
    rw [Token.follow, Reach.holds_union_iff h (fits_pastFolders h), holds_pastFolders_iff h,
      ← Reach.past_nil_iff path, ← Reach.past_or_iff]
    exact Reach.past_congr fun bs => spans_leadingFolders_iff.symm
  | .innerFolders, r, j, h => by
    have hSlash := fits_pastSlash h
    rw [Token.follow, Reach.holds_union_iff hSlash (fits_pastFolders hSlash),
      holds_pastFolders_iff hSlash, Reach.past_of_holds_iff fun i => holds_pastSlash_iff,
      holds_pastSlash_iff, ← Reach.past_or_iff]
    exact Reach.past_congr fun bs => by simp [spans_innerFolders_iff]
  | .trailingFolders, r, j, h => by
    rw [Token.follow, Reach.holds_spread_iff (fits_pastSlash h),
      Reach.past_of_holds_iff fun i => holds_pastSlash_iff]
    exact Reach.past_congr fun bs => by simp [spans_trailingFolders_iff]
  | .oneOf negated ranges, r, j, _ => by
    rw [Token.follow, Reach.holds_advance_iff]
    exact Reach.past_congr fun bs => spans_oneOf_iff.symm
  | .either [], r, j, _ => by
    rw [Token.follow, ← Reach.past_nil_iff path]
    exact Reach.past_congr fun bs => spans_noBranch_iff.symm
  | .either (branch :: branches), r, j, h => by
    rw [Token.follow, holds_followAny_iff branches h (fits_followAll branch h),
      holds_followAll_iff branch h, Reach.past_congr fun bs => spans_either_iff,
      Reach.past_exists_iff]
    simp

theorem holds_followAll_iff : ∀ (ts : List Token) {r : Reach} {j : Nat}, r.Fits path →
    ((followAll path r ts).Holds j ↔ r.Past path (SpanAll ts) j)
  | [], r, j, _ => by
    rw [followAll, ← Reach.past_nil_iff path]
    exact Reach.past_congr fun bs => spanAll_nil_iff.symm
  | t :: ts, r, j, h => by
    rw [followAll, holds_followAll_iff ts (t.fits_follow h),
      Reach.past_of_holds_iff fun i => t.holds_follow_iff h]
    exact Reach.past_congr fun bs => spanAll_cons_iff.symm

theorem holds_followAny_iff : ∀ (branches : List (List Token)) {r found : Reach} {j : Nat},
    r.Fits path → found.Fits path → ((followAny path r found branches).Holds j ↔
      found.Holds j ∨ ∃ branch ∈ branches, r.Past path (SpanAll branch) j)
  | [], r, found, j, _, _ => by simp [followAny]
  | branch :: branches, r, found, j, h, hFound => by
    have hBranch := fits_followAll branch h
    rw [followAny, holds_followAny_iff branches h (hFound.union hBranch),
      Reach.holds_union_iff hFound hBranch, holds_followAll_iff branch h, or_assoc]
    simp

end

theorem Reach.atEnd_iff {r : Reach} (h : r.Fits path) :
    r.atEnd = true ↔ r.Holds path.length := by
  have hLast : path.length = r.length - 1 := by rw [h, Nat.add_sub_cancel]
  have hSome : r.length - 1 < r.length := by
    rw [h]
    exact Nat.lt_succ_self _
  rw [atEnd, Holds, hLast, List.getLastD_eq_getLast?, List.getLast?_eq_getElem?,
    List.getElem?_eq_getElem hSome]
  simp

theorem followAll_atEnd_iff (ts : List Token) (path : List UInt8) :
    (followAll path (.start path) ts).atEnd = true ↔ SpanAll ts path := by
  have hStart := Reach.fits_start path
  rw [Reach.atEnd_iff (fits_followAll ts hStart), holds_followAll_iff ts hStart]
  constructor
  · rintro ⟨i, bs, hHere, hSpans, hLeads⟩
    obtain rfl := Reach.holds_start_iff.mp hHere
    have hAll := hLeads.drop_eq
    rw [List.drop_zero, List.drop_length, List.append_nil] at hAll
    rw [hAll]
    exact hSpans
  · intro hSpans
    have hAll : path.drop 0 = path ++ [] := by rw [List.drop_zero, List.append_nil]
    have hLeads := leads_of_drop_eq hAll
    rw [Nat.zero_add] at hLeads
    exact ⟨0, path, Reach.holds_start_iff.mpr rfl, hSpans, hLeads⟩

theorem toList_toUTF8 (text : String) : text.toUTF8.toList = text.toList.flatMap bytesOf := by
  rw [String.toUTF8, ← String.utf8Encode_toList, List.utf8Encode, toList_toByteArray]
  rfl

/-- A pattern matches a path that it stands for, and two stars alone match every path. -/
theorem isMatch_iff {g : Glob} {path : String} :
    g.isMatch path = true ↔
      g.tokens = [.leadingFolders] ∨ SpanAll g.tokens (path.toList.flatMap bytesOf) := by
  rw [← toList_toUTF8, isMatch]
  split
  · rename_i hAlone
    exact iff_of_true rfl (Or.inl hAlone)
  · rename_i hOther
    rw [or_iff_right hOther]
    exact followAll_atEnd_iff _ _

end Glob

end LiteralLint
