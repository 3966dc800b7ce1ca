import LiteralLint.Json.Basic
import LiteralLint.Proofs.Json.Spelling
import LiteralLint.Proofs.Text.Digits

/-! # Written JSON is read back

Both ways of writing a value spell the same draft, and two values that are written alike are one
value. -/

set_option autoImplicit false

namespace LiteralLint.Json

def Numeral.ofInt (n : Int) : Numeral where
  negative := n < 0
  whole := Text.decimal n.natAbs
  fraction := none
  exponent := none

mutual

/-- The draft that a value is read back as. -/
def draft : Json → Draft
  | .null => .null
  | .bool b => .bool b
  | .int n => .number (.ofInt n)
  | .str s => .string (some s)
  | .arr items => .array (itemDrafts items) true
  | .obj members => .object (memberDrafts members) true

def itemDrafts : List Json → List Draft
  | [] => []
  | item :: items => item.draft :: itemDrafts items

def memberDrafts : List (String × Json) → List (Option String × Draft)
  | [] => []
  | (key, value) :: members => (some key, value.draft) :: memberDrafts members

end

theorem Numeral.ofInt_injective : Function.Injective Numeral.ofInt := by
  intro n m h
  obtain ⟨hSign, hWhole, -, -⟩ := Numeral.mk.inj h
  have hSize : n.natAbs = m.natAbs := Text.decimal_injective hWhole
  have hSign : n < 0 ↔ m < 0 := decide_eq_decide.mp hSign
  omega

mutual

theorem draft_injective : ∀ {a b : Json}, a.draft = b.draft → a = b
  | .null, b, h => by cases b <;> simp_all [draft]
  | .bool _, b, h => by cases b <;> simp_all [draft]
  | .int _, b, h => by
    cases b <;> simp only [draft, Draft.number.injEq, reduceCtorEq] at h
    rw [Numeral.ofInt_injective h]
  | .str _, b, h => by cases b <;> simp_all [draft]
  | .arr items, b, h => by
    cases b <;> simp only [draft, Draft.array.injEq, reduceCtorEq] at h
    rw [itemDrafts_injective h.1]
  | .obj members, b, h => by
    cases b <;> simp only [draft, Draft.object.injEq, reduceCtorEq] at h
    rw [memberDrafts_injective h.1]

theorem itemDrafts_injective : ∀ {xs ys : List Json}, itemDrafts xs = itemDrafts ys → xs = ys
  | [], [], _ => rfl
  | [], _ :: _, h => by cases h
  | _ :: _, [], h => by cases h
  | x :: xs, y :: ys, h => by
    obtain ⟨hHead, hTail⟩ := List.cons.inj h
    rw [draft_injective hHead, itemDrafts_injective hTail]

theorem memberDrafts_injective :
    ∀ {xs ys : List (String × Json)}, memberDrafts xs = memberDrafts ys → xs = ys
  | [], [], _ => rfl
  | [], _ :: _, h => by cases h
  | _ :: _, [], h => by cases h
  | (key, x) :: xs, (other, y) :: ys, h => by
    obtain ⟨hHead, hTail⟩ := List.cons.inj h
    obtain ⟨hKey, hValue⟩ := Prod.mk.inj hHead
    rw [Option.some.inj hKey, draft_injective hValue, memberDrafts_injective hTail]

end

section

variable {units : List CodeUnit} {cs : List Char} {c : Char} {n : Nat}

theorem hexadecimal4_of_lt (h : n < 32) :
    Text.hexadecimal4 n = ['0', '0', Text.digitChar (n / 16), Text.digitChar (n % 16)] ∧
      Text.natural? 16 ['0', '0', Text.digitChar (n / 16), Text.digitChar (n % 16)] = some n := by
  have hAll : ∀ k : Fin 32,
      Text.hexadecimal4 k = ['0', '0', Text.digitChar (k / 16), Text.digitChar (k % 16)] ∧
        Text.natural? 16 ['0', '0', Text.digitChar (k / 16), Text.digitChar (k % 16)] = some k.val :=
    by decide +kernel
  exact hAll ⟨n, h⟩

theorem CodeUnit.ofNat_toNat (h : c.toNat < 0x20) : CodeUnit.ofNat c.toNat = .whole c := by
  rw [CodeUnit.ofNat, if_neg (by omega), if_neg (by omega), Char.ofNat_toNat]

theorem Units.writeChar_append (h : Units units cs) (c : Char) :
    Units (.whole c :: units) (writeChar c ++ cs) := by
  unfold writeChar
  split
  case h_8 hQuote hBackslash _ _ _ _ _ =>
    split
    · rename_i hControl
      obtain ⟨hSpelled, hRead⟩ := hexadecimal4_of_lt (hControl : c.toNat < 32)
      rw [hSpelled, ← CodeUnit.ofNat_toNat hControl]
      exact .code hRead h
    · rename_i hPrintable
      exact .plain (by omega) hQuote hBackslash h
  all_goals exact .escape rfl h

theorem units_flatMap_writeChar (cs : List Char) :
    Units (cs.map .whole) (cs.flatMap writeChar) := by
  induction cs with
  | nil => exact .nil
  | cons c cs ih =>
    rw [List.map_cons, List.flatMap_cons]
    exact ih.writeChar_append c

theorem joinUnits_map_whole (cs : List Char) : joinUnits (cs.map .whole) = some cs := by
  induction cs with
  | nil => rfl
  | cons c cs ih => rw [List.map_cons, joinUnits, ih, Option.map_some]

theorem textOf_map_whole (s : String) : textOf (s.toList.map .whole) = some s := by
  rw [textOf, joinUnits_map_whole, Option.map_some, String.ofList_toList]

theorem spelling_writeString (s : String) :
    Spelling (.value (.string (some s))) (writeString s) := by
  rw [← textOf_map_whole]
  exact .string (units_flatMap_writeChar s.toList)

theorem unsigned_decimal (n : Int) : Unsigned (.ofInt n) (Text.decimal n.natAbs) where
  whole := ⟨Text.decimal_ne_nil _, fun _ => Text.isDigit_of_mem_decimal⟩
  proper := Text.length_decimal_eq_one_or _
  spelled := ⟨[], [], .none, .none, (List.append_nil _).symm⟩

theorem spelling_integer (n : Int) : Spelling (.value (.number (.ofInt n))) (Text.integer n) := by
  cases n with
  | ofNat k => exact .natural rfl (unsigned_decimal (.ofNat k))
  | negSucc k =>
    exact .negative (decide_eq_true (Int.negSucc_lt_zero k)) (unsigned_decimal (.negSucc k))

theorem spelling_writeBool (b : Bool) : Spelling (.value (.bool b)) (writeBool b) := by
  cases b with
  | true => exact .yes
  | false => exact .no

end

section

variable {d : Draft} {ms : List (Option String × Draft)} {before cs after others : List Char}

theorem Spelling.append_gap (h : Spelling (.value d) cs) (hAfter : Gap after) :
    Spelling (.padded d) (cs ++ after) := .padded .nil h hAfter

theorem Spelling.alone (h : Spelling (.value d) cs) : Spelling (.padded d) cs := by
  rw [← List.append_nil cs]
  exact h.append_gap .nil

theorem writeString_append (s : String) (rest : List Char) :
    writeString s ++ rest = '"' :: (s.toList.flatMap writeChar ++ '"' :: rest) := by
  rw [writeString, List.append_assoc, List.cons_append, List.singleton_append]

theorem Spelling.named (hBefore : Gap before) (key : String) (h : Spelling (.padded d) cs) :
    Spelling (.members [(some key, d)]) (before ++ (writeString key ++ ':' :: cs)) := by
  rw [writeString_append, ← textOf_map_whole key]
  exact .member hBefore (units_flatMap_writeChar key.toList) .nil h

theorem Spelling.named_cons (hBefore : Gap before) (key : String) (h : Spelling (.padded d) cs)
    (hOthers : Spelling (.members ms) others) :
    Spelling (.members ((some key, d) :: ms))
      (before ++ (writeString key ++ ':' :: (cs ++ ',' :: others))) := by
  rw [writeString_append, ← textOf_map_whole key]
  exact .members hBefore (units_flatMap_writeChar key.toList) .nil h hOthers

end

mutual

theorem spelling_compactChars : ∀ j : Json, Spelling (.value j.draft) j.compactChars
  | .null => .null
  | .bool b => spelling_writeBool b
  | .int n => spelling_integer n
  | .str s => spelling_writeString s
  | .arr [] => .emptyArray .nil
  | .arr (item :: items) => .array (spelling_compactItems (item :: items) (List.cons_ne_nil _ _))
  | .obj [] => .emptyObject .nil
  | .obj (member :: members) =>
    .object (spelling_compactMembers (member :: members) (List.cons_ne_nil _ _))

theorem spelling_compactItems :
    ∀ items : List Json, items ≠ [] → Spelling (.items (itemDrafts items)) (compactItems items)
  | [], h => absurd rfl h
  | [item], _ => .item (spelling_compactChars item).alone
  | item :: next :: items, _ =>
    .items (spelling_compactChars item).alone
      (spelling_compactItems (next :: items) (List.cons_ne_nil _ _))

theorem spelling_compactMembers :
    ∀ members : List (String × Json), members ≠ [] →
      Spelling (.members (memberDrafts members)) (compactMembers members)
  | [], h => absurd rfl h
  | [(key, value)], _ => .named .nil key (spelling_compactChars value).alone
  | (key, value) :: next :: members, _ =>
    .named_cons .nil key (spelling_compactChars value).alone
      (spelling_compactMembers (next :: members) (List.cons_ne_nil _ _))

end

theorem gap_newline (depth : Nat) : Gap (newline depth) := by
  intro c hMem
  rcases List.mem_cons.mp hMem with rfl | hMem
  · rfl
  · rw [List.eq_of_mem_replicate hMem]
    rfl

theorem gap_blank : Gap [' '] := List.forall_mem_singleton.mpr rfl

mutual

theorem spelling_prettyChars :
    ∀ (depth : Nat) (j : Json), Spelling (.value j.draft) (j.prettyChars depth)
  | _, .null => .null
  | _, .bool b => spelling_writeBool b
  | _, .int n => spelling_integer n
  | _, .str s => spelling_writeString s
  | _, .arr [] => .emptyArray .nil
  | depth, .arr (item :: items) => by
    have hItems := spelling_prettyItems (depth + 1) (item :: items) (List.cons_ne_nil _ _)
      (gap_newline depth)
    exact .array hItems
  | _, .obj [] => .emptyObject .nil
  | depth, .obj (member :: members) => by
    have hMembers := spelling_prettyMembers (depth + 1) (member :: members) (List.cons_ne_nil _ _)
      (gap_newline depth)
    exact .object hMembers

theorem spelling_prettyItems :
    ∀ (depth : Nat) (items : List Json), items ≠ [] → ∀ {after : List Char}, Gap after →
      Spelling (.items (itemDrafts items)) (prettyItems depth items ++ after)
  | _, [], h, _, _ => absurd rfl h
  | depth, [item], _, after, hAfter => by
    rw [prettyItems, List.append_assoc]
    exact .item (.padded (gap_newline depth) (spelling_prettyChars depth item) hAfter)
  | depth, item :: next :: items, _, after, hAfter => by
    have hPadded := Spelling.padded (gap_newline depth) (spelling_prettyChars depth item) .nil
    have hOthers := spelling_prettyItems depth (next :: items) (List.cons_ne_nil _ _) hAfter
    rw [List.append_nil] at hPadded
    rw [prettyItems, List.append_assoc, List.cons_append]
    · exact .items hPadded hOthers
    · exact List.cons_ne_nil _ _

theorem spelling_prettyMembers :
    ∀ (depth : Nat) (members : List (String × Json)), members ≠ [] →
      ∀ {after : List Char}, Gap after →
        Spelling (.members (memberDrafts members)) (prettyMembers depth members ++ after)
  | _, [], h, _, _ => absurd rfl h
  | depth, [(key, value)], _, after, hAfter => by
    simp only [prettyMembers, List.append_assoc, List.cons_append, List.nil_append]
    exact .named (gap_newline depth) key
      (.padded gap_blank (spelling_prettyChars depth value) hAfter)
  | depth, (key, value) :: next :: members, _, after, hAfter => by
    have hValue := Spelling.padded gap_blank (spelling_prettyChars depth value) .nil
    have hOthers := spelling_prettyMembers depth (next :: members) (List.cons_ne_nil _ _) hAfter
    rw [List.append_nil] at hValue
    rw [prettyMembers]
    · simp only [List.append_assoc, List.cons_append, List.nil_append]
      exact .named_cons (gap_newline depth) key hValue hOthers
    · exact List.cons_ne_nil _ _

end

theorem read_compact (j : Json) : read j.compact.toList = ⟨j.draft, true⟩ := by
  rw [compact, String.toList_ofList]
  exact read_of_spelling (spelling_compactChars j).alone

theorem read_pretty (j : Json) {after : List Char} (hAfter : Gap after) :
    read (j.pretty.toList ++ after) = ⟨j.draft, true⟩ := by
  rw [pretty, String.toList_ofList]
  exact read_of_spelling ((spelling_prettyChars 0 j).append_gap hAfter)

end LiteralLint.Json
