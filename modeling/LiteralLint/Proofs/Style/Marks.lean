import LiteralLint.Proofs.Style.Unstyled

/-! # Marks taken away

A mark is an escape and a bracket, any digits and semicolons, and the letter `m`. Where all marks of
a painted text are taken away, the text is left that was painted, as long as it holds no escape of
its own. -/

set_option autoImplicit false

namespace LiteralLint.Style

def isParameter (c : Char) : Bool := c.isDigit || c == ';'

def behindMark? : List Char → Option (List Char)
  | '\x1b' :: '[' :: cs =>
    match cs.dropWhile isParameter with
    | 'm' :: rest => some rest
    | _ => none
  | _ => none

theorem length_lt_of_behindMark? {cs rest : List Char} (h : behindMark? cs = some rest) :
    rest.length < cs.length := by
  unfold behindMark? at h
  split at h <;> try contradiction
  rename_i cs
  split at h <;> try contradiction
  rename_i hEnd
  obtain rfl := Option.some.inj h
  have hDropped := (List.dropWhile_suffix (l := cs) isParameter).length_le
  rw [hEnd, List.length_cons] at hDropped
  simp only [List.length_cons]
  omega

def withoutMarks : List Char → List Char
  | [] => []
  | c :: cs =>
    match _h : behindMark? (c :: cs) with
    | some rest => withoutMarks rest
    | none => c :: withoutMarks cs
termination_by cs => cs.length
decreasing_by
  · exact length_lt_of_behindMark? _h
  · exact Nat.lt_succ_self _

def strip (text : String) : String := String.ofList (withoutMarks text.toList)

section

variable {cs rest : List Char} {c : Char}

theorem withoutMarks_of_behindMark? (h : behindMark? cs = some rest) :
    withoutMarks cs = withoutMarks rest := by
  cases cs with
  | nil => cases h
  | cons c cs =>
    rw [withoutMarks]
    split
    · rename_i hRest
      rw [h] at hRest
      rw [Option.some.inj hRest]
    · rename_i hNone
      rw [h] at hNone
      cases hNone

theorem withoutMarks_cons (h : c ≠ '\x1b') (cs : List Char) :
    withoutMarks (c :: cs) = c :: withoutMarks cs := by
  have hNone : behindMark? (c :: cs) = none := by
    unfold behindMark?
    split
    · rename_i hEq
      exact absurd (List.cons.inj hEq).1 h
    · rfl
  rw [withoutMarks]
  split
  · rename_i hSome
    rw [hNone] at hSome
    cases hSome
  · rfl

theorem withoutMarks_append (h : '\x1b' ∉ cs) (rest : List Char) :
    withoutMarks (cs ++ rest) = cs ++ withoutMarks rest := by
  induction cs with
  | nil => rfl
  | cons c cs ih =>
    rw [List.mem_cons, not_or] at h
    rw [List.cons_append, withoutMarks_cons (Ne.symm h.1), ih h.2, List.cons_append]

theorem behindMark?_mark (code : Nat) (rest : List Char) :
    behindMark? ((mark code).toList ++ rest) = some rest := by
  have hMark : (mark code).toList ++ rest = '\x1b' :: '[' :: (code.repr.toList ++ 'm' :: rest) := by
    change (("\x1b[" ++ code.repr) ++ "m").toList ++ rest = _
    simp
  have hDigits : (code.repr.toList ++ 'm' :: rest).dropWhile isParameter = 'm' :: rest := by
    have hParameter : ∀ c ∈ code.repr.toList, isParameter c = true := fun c hc => by
      rw [isParameter, Text.isDigit_of_mem_natRepr hc, Bool.true_or]
    rw [List.dropWhile_append_of_pos hParameter]
    rfl
  rw [hMark, behindMark?]
  simp only [hDigits]

end

/-- Once its marks are taken away the painted text is the plain one, whatever follows. -/
def Decorates (painted plain : String) : Prop :=
  ∀ rest, withoutMarks (painted.toList ++ rest) = plain.toList ++ withoutMarks rest

section

variable {painted plain other text : String} {paintedTexts plainTexts : List String}

theorem decorates_self (h : Unstyled text) : Decorates text text :=
  withoutMarks_append h

theorem decorates_mark (code : Nat) : Decorates (mark code) "" :=
  fun rest => withoutMarks_of_behindMark? (behindMark?_mark code rest)

theorem Decorates.append {painted' plain' : String} (h : Decorates painted plain)
    (hNext : Decorates painted' plain') : Decorates (painted ++ painted') (plain ++ plain') := by
  intro rest
  rw [String.toList_append, List.append_assoc, h, hNext, String.toList_append, List.append_assoc]

theorem decorates_paint (style : Style) (h : Unstyled text) :
    Decorates (style.paint text) text := by
  have hAll := ((decorates_mark style.on).append (decorates_self h)).append
    (decorates_mark style.off)
  rwa [String.empty_append, String.append_empty] at hAll

theorem Decorates.line (h : Decorates painted plain) :
    Decorates (Output.line painted) (Output.line plain) :=
  h.append (decorates_self (by decide))

theorem decorates_lines (h : List.Forall₂ Decorates paintedTexts plainTexts) :
    Decorates (Output.lines paintedTexts) (Output.lines plainTexts) := by
  induction h with
  | nil => exact decorates_self (by decide)
  | cons hText _ ih =>
    rw [Output.lines, Output.lines, List.map_cons, List.map_cons, String.join_cons,
      String.join_cons]
    exact hText.line.append ih

theorem Decorates.strip_eq (h : Decorates painted plain) : strip painted = plain := by
  have hAll := h []
  have hNil : withoutMarks [] = [] := by rw [withoutMarks]
  rw [hNil, List.append_nil, List.append_nil] at hAll
  rw [strip, hAll, String.ofList_toList]

end

end LiteralLint.Style
