import LiteralLint.CommandLine.Read
import LiteralLint.Proofs.Traversal

/-! # One more argument

Words that are read with success are still read when one more argument with a value stands among
them, and say the same of everything else. The reader may come to look at that argument late, so
that two readings go side by side: the one without it, and the one in which it waits or is given. -/

set_option autoImplicit false

namespace LiteralLint.CommandLine

namespace Settings

variable {s t : Settings} {key other : Key} {value : String}

def Gains (key : Key) (value : String) (s t : Settings) : Prop :=
  ∃ before after, s = before ++ after ∧ t = before ++ (key, value) :: after

theorem has_append (s t : Settings) (key : Key) : (s ++ t).has key = (s.has key || t.has key) :=
  List.any_append

theorem has_singleton_self (key : Key) (value : String) : has [(key, value)] key = true := by
  simp [has]

theorem has_of_prefix (h : s <+: t) (hLacks : t.has key = false) : s.has key = false := by
  obtain ⟨more, rfl⟩ := h
  rw [has_append, Bool.or_eq_false_iff] at hLacks
  exact hLacks.1

theorem values_eq_nil_iff : s.values key = [] ↔ s.has key = false := by
  simp [has, values]

theorem Gains.concat (s : Settings) (key : Key) (value : String) :
    Gains key value s (s ++ [(key, value)]) := ⟨s, [], (List.append_nil s).symm, rfl⟩

theorem Gains.append (h : Gains key value s t) (more : Settings) :
    Gains key value (s ++ more) (t ++ more) := by
  obtain ⟨before, after, rfl, rfl⟩ := h
  exact ⟨before, after ++ more, by simp, by simp⟩

theorem Gains.values_of_ne (h : Gains key value s t) (hNe : key ≠ other) :
    t.values other = s.values other := by
  obtain ⟨before, after, rfl, rfl⟩ := h
  simp [values, hNe]

theorem Gains.has_of_ne (h : Gains key value s t) (hNe : key ≠ other) :
    t.has other = s.has other := by
  obtain ⟨before, after, rfl, rfl⟩ := h
  simp [has, beq_eq_false_iff_ne.mpr hNe]

theorem Gains.has_self (h : Gains key value s t) : t.has key = true := by
  obtain ⟨before, after, rfl, rfl⟩ := h
  simp [has]

theorem Gains.has_of_has (h : Gains key value s t) (hHas : s.has other = true) :
    t.has other = true := by
  obtain ⟨before, after, rfl, rfl⟩ := h
  rw [has_append, Bool.or_eq_true] at hHas ⊢
  refine hHas.imp_right fun hAfter => ?_
  rw [has, List.any_cons, ← has, hAfter, Bool.or_true]

theorem Gains.values_self (h : Gains key value s t) (hLacks : s.has key = false) :
    t.values key = [value] := by
  have hNone := values_eq_nil_iff.mpr hLacks
  obtain ⟨before, after, rfl, rfl⟩ := h
  simp only [values, List.filter_append, List.map_append, List.append_eq_nil_iff] at hNone
  simp [values, hNone.1, hNone.2]

end Settings

namespace Reading

variable {a b : Argument} {q r q₁ r₁ : Reading} {value word : String} {form : Form}
  {options : List Argument}

theorem give_eq_ok_iff : r.give b word = .ok q ↔
    (b.kind.isRepeatable = true ∨ r.settings.has b.key = false) ∧
      isValidValue b.key word = true ∧
      q = { r with settings := r.settings ++ [(b.key, word)] } := by
  rw [give]
  cases b.kind.isRepeatable <;> cases r.settings.has b.key <;>
    cases isValidValue b.key word <;> simp [eq_comm]

theorem settle_eq_ok_iff : r.settle = .ok q ↔
    (r.pending = none ∧ q = r) ∨
      ∃ b word, r.pending = some ⟨b, some word⟩ ∧
        give { r with pending := none } b word = .ok q := by
  rw [settle]
  rcases hPending : r.pending with _ | ⟨b, _ | word⟩
  · simp [eq_comm]
  · simp
  · simp

theorem settings_of_settle (h : r.settle = .ok q) :
    r.settings <+: q.settings ∧ q.pending = none ∧ q.trailing = r.trailing := by
  rcases settle_eq_ok_iff.mp h with ⟨hPending, rfl⟩ | ⟨b, word, -, hGive⟩
  · exact ⟨List.prefix_rfl, hPending, rfl⟩
  · obtain ⟨-, -, rfl⟩ := give_eq_ok_iff.mp hGive
    exact ⟨List.prefix_append _ _, rfl, rfl⟩

theorem awaitsValue_of_settle (h : r.settle = .ok q) : r.awaitsValue = false := by
  rcases settle_eq_ok_iff.mp h with ⟨hPending, -⟩ | ⟨b, word, hPending, -⟩ <;>
    rw [awaitsValue, hPending]

theorem settle_trailing (h : r.settle = .ok q) :
    settle { r with trailing := true } = .ok { q with trailing := true } := by
  rcases settle_eq_ok_iff.mp h with ⟨hPending, rfl⟩ | ⟨b, word, hPending, hGive⟩
  · exact settle_eq_ok_iff.mpr (Or.inl ⟨hPending, rfl⟩)
  · refine settle_eq_ok_iff.mpr (Or.inr ⟨b, word, hPending, ?_⟩)
    obtain ⟨hRoom, hValid, rfl⟩ := give_eq_ok_iff.mp hGive
    exact give_eq_ok_iff.mpr ⟨hRoom, hValid, rfl⟩

structure Given (a : Argument) (value : String) (q r : Reading) : Prop where
  settings : Settings.Gains a.key value q.settings r.settings
  pending : r.pending = q.pending
  trailing : r.trailing = q.trailing

/-- In the second reading the argument is given too or waits to be looked at. -/
inductive Gains (a : Argument) (value : String) (q r : Reading) : Prop where
  | waiting : q.settle = .ok { r with pending := none } → r.pending = some ⟨a, some value⟩ →
      Gains a value q r
  | given : Given a value q r → Gains a value q r

/-- A step that goes on as before when the argument is given besides, unless it gives that argument
itself. -/
structure Carries (a : Argument) (value : String) (step : Reading → Except Refusal Reading) :
    Prop where
  keeps {q q₁ : Reading} : step q = .ok q₁ → q.settings <+: q₁.settings
  follows {q r q₁ : Reading} : Gains a value q r → step q = .ok q₁ →
    q₁.settings.has a.key = false → ∃ r₁, step r = .ok r₁ ∧ Gains a value q₁ r₁

theorem Given.give (h : Given a value q r) (hGive : q.give b word = .ok q₁)
    (hLacks : q₁.settings.has a.key = false) :
    ∃ r₁, r.give b word = .ok r₁ ∧ Given a value q₁ r₁ := by
  obtain ⟨hRoom, hValid, rfl⟩ := give_eq_ok_iff.mp hGive
  have hNe : a.key ≠ b.key := by
    intro hEq
    rw [Settings.has_append, hEq, Settings.has_singleton_self, Bool.or_true] at hLacks
    cases hLacks
  refine ⟨_, give_eq_ok_iff.mpr ⟨?_, hValid, rfl⟩, h.settings.append _, h.pending, h.trailing⟩
  rwa [h.settings.has_of_ne hNe]

theorem Gains.settle (hValue : isValidValue a.key value = true) (h : Gains a value q r)
    (hSettle : q.settle = .ok q₁) (hLacks : q₁.settings.has a.key = false) :
    ∃ r₁, r.settle = .ok r₁ ∧ Given a value q₁ r₁ := by
  cases h with
  | waiting settled waits =>
    obtain rfl := Except.ok.inj (hSettle.symm.trans settled)
    refine ⟨_, settle_eq_ok_iff.mpr (Or.inr ⟨a, value, waits,
      give_eq_ok_iff.mpr ⟨Or.inr hLacks, hValue, rfl⟩⟩), ?_⟩
    exact ⟨.concat _ _ _, rfl, rfl⟩
  | given hGiven =>
    rcases settle_eq_ok_iff.mp hSettle with ⟨hPending, rfl⟩ | ⟨b, word, hPending, hGive⟩
    · exact ⟨r, settle_eq_ok_iff.mpr (Or.inl ⟨hGiven.pending.trans hPending, rfl⟩), hGiven⟩
    · have hCleared : Given a value { q with pending := none } { r with pending := none } :=
        ⟨hGiven.settings, rfl, hGiven.trailing⟩
      obtain ⟨r₁, hOther, hBoth⟩ := hCleared.give hGive hLacks
      exact ⟨r₁, settle_eq_ok_iff.mpr
        (Or.inr ⟨b, word, hGiven.pending.trans hPending, hOther⟩), hBoth⟩

namespace Carries

variable {step next : Reading → Except Refusal Reading}

theorem error (refusal : Refusal) : Carries a value fun _ => .error refusal where
  keeps h := by cases h
  follows _ h := by cases h

theorem ok : Carries a value .ok where
  keeps h := by
    obtain rfl := Except.ok.inj h
    exact List.prefix_rfl
  follows hGains h _ := by
    obtain rfl := Except.ok.inj h
    exact ⟨_, rfl, hGains⟩

theorem bind (hStep : Carries a value step) (hNext : Carries a value next) :
    Carries a value fun r => step r >>= next where
  keeps h := by
    obtain ⟨middle, hFirst, hSecond⟩ := bind_eq_ok h
    exact (hStep.keeps hFirst).trans (hNext.keeps hSecond)
  follows hGains h hLacks := by
    obtain ⟨middle, hFirst, hSecond⟩ := bind_eq_ok h
    obtain ⟨other, hOther, hMiddle⟩ := hStep.follows hGains hFirst
      (Settings.has_of_prefix (hNext.keeps hSecond) hLacks)
    obtain ⟨r₁, hLast, hBoth⟩ := hNext.follows hMiddle hSecond hLacks
    exact ⟨r₁, (bind_of_ok hOther).trans hLast, hBoth⟩

theorem settle_bind (hValue : isValidValue a.key value = true)
    (hKeeps : ∀ {q q₁}, next q = .ok q₁ → q.settings <+: q₁.settings)
    (hFollows : ∀ {q r q₁}, Given a value q r → next q = .ok q₁ →
      q₁.settings.has a.key = false → ∃ r₁, next r = .ok r₁ ∧ Given a value q₁ r₁) :
    Carries a value fun r => r.settle >>= next where
  keeps h := by
    obtain ⟨middle, hSettle, hNext⟩ := bind_eq_ok h
    exact (settings_of_settle hSettle).1.trans (hKeeps hNext)
  follows hGains h hLacks := by
    obtain ⟨middle, hSettle, hNext⟩ := bind_eq_ok h
    obtain ⟨other, hOther, hGiven⟩ := hGains.settle hValue hSettle
      (Settings.has_of_prefix (hKeeps hNext) hLacks)
    obtain ⟨r₁, hLast, hBoth⟩ := hFollows hGiven hNext hLacks
    exact ⟨r₁, (bind_of_ok hOther).trans hLast, .given hBoth⟩

theorem settle_give (hValue : isValidValue a.key value = true) (b : Argument) (word : String) :
    Carries a value fun r => r.settle >>= fun r => r.give b word := by
  refine settle_bind hValue (fun h => ?_) Given.give
  obtain ⟨-, -, rfl⟩ := give_eq_ok_iff.mp h
  exact List.prefix_append _ _

theorem expect (hValue : isValidValue a.key value = true) (b : Argument) (v : Option String) :
    Carries a value fun r => r.expect b v := by
  refine settle_bind hValue (fun h => ?_) fun hGiven h _ => ?_
  · obtain rfl := Except.ok.inj h
    exact List.prefix_rfl
  · obtain rfl := Except.ok.inj h
    exact ⟨_, rfl, hGiven.settings, rfl, hGiven.trailing⟩

theorem mention (hValue : isValidValue a.key value = true) (b : Argument) :
    Carries a value fun r => r.mention b := by
  have hGive := settle_give hValue b ""
  unfold Reading.mention
  cases b.key with
  | help => exact settle_bind hValue (fun h => by cases h) fun _ h => by cases h
  | version => exact settle_bind hValue (fun h => by cases h) fun _ h => by cases h
  | _ => exact hGive

theorem readLong (hValue : isValidValue a.key value = true) (options : List Argument)
    (body : List Char) : Carries a value fun r => r.readLong options body := by
  unfold Reading.readLong
  dsimp only
  cases options.find? _ with
  | none => exact error _
  | some b =>
    dsimp only
    split
    · exact expect hValue b _
    · split
      · exact error _
      · exact mention hValue b

theorem readShort (hValue : isValidValue a.key value = true) (options : List Argument)
    (letters : List Char) : Carries a value fun r => readShort options r letters := by
  induction letters with
  | nil => exact ok
  | cons letter letters ih =>
    unfold Reading.readShort
    cases options.find? _ with
    | none => exact error _
    | some b =>
      dsimp only
      split
      · exact expect hValue b _
      · exact (mention hValue b).bind ih

theorem readStray (hValue : isValidValue a.key value = true) (form : Form) (word : String) :
    Carries a value fun r => r.readStray form word := by
  unfold Reading.readStray
  cases form.arguments.find? _ with
  | some b => exact settle_give hValue b word
  | none =>
    constructor
    · intro q q₁ h
      dsimp only at h
      split at h <;> cases h
    · intro q r q₁ _ h
      dsimp only at h
      split at h <;> cases h

end Carries

end Reading

def IsPlain (word : String) : Prop := word = "-" ∨ word.toList.head? ≠ some '-'

instance : DecidablePred IsPlain := fun _ => inferInstanceAs (Decidable (_ ∨ _))

inductive Shape (word : String) : Prop where
  | dashes : word.toList = ['-', '-'] → Shape word
  | long {c : Char} {body : List Char} : word.toList = '-' :: '-' :: c :: body → Shape word
  | short {c : Char} {letters : List Char} : c ≠ '-' → word.toList = '-' :: c :: letters →
      Shape word
  | plain : IsPlain word → Shape word

theorem shape (word : String) : Shape word := by
  rcases hChars : word.toList with _ | ⟨first, _ | ⟨second, rest⟩⟩
  · exact .plain (Or.inr (by simp [hChars]))
  · by_cases hDash : first = '-'
    · subst hDash
      exact .plain (Or.inl (String.toList_inj.mp hChars))
    · exact .plain (Or.inr (by simpa [hChars] using hDash))
  · by_cases hDash : first = '-'
    · subst hDash
      by_cases hSecond : second = '-'
      · subst hSecond
        cases rest with
        | nil => exact .dashes hChars
        | cons c body => exact .long hChars
      · exact .short hSecond hChars
    · exact .plain (Or.inr (by simpa [hChars] using hDash))

namespace Reading

variable {a b : Argument} {q r q₁ r₁ : Reading} {value word : String} {form : Form}
  {options : List Argument}

theorem readWord_of_trailing (h : r.trailing = true) :
    r.readWord form options word = r.readStray form word := by
  rw [readWord, if_pos h]

theorem readWord_of_dashes (h : r.trailing = false) (hWord : word.toList = ['-', '-']) :
    r.readWord form options word = .ok { r with trailing := true } := by
  simp [readWord, h, hWord]

theorem readWord_of_long {c : Char} {body : List Char} (h : r.trailing = false)
    (hWord : word.toList = '-' :: '-' :: c :: body) :
    r.readWord form options word = r.readLong options (c :: body) := by
  simp [readWord, h, hWord]

theorem readWord_of_short {c : Char} {letters : List Char} (h : r.trailing = false)
    (hShort : c ≠ '-') (hWord : word.toList = '-' :: c :: letters) :
    r.readWord form options word = readShort options r (c :: letters) := by
  simp [readWord, h, hWord, hShort]

theorem readWord_of_plain (h : r.trailing = false) (hPlain : IsPlain word) :
    r.readWord form options word =
      if r.awaitsValue then
        .ok { r with pending := r.pending.map fun p => { p with value := some word } }
      else r.readStray form word := by
  rcases hPlain with rfl | hHead
  · rcases hPending : r.pending with _ | ⟨b, _ | v⟩ <;>
      simp [readWord, awaitsValue, h, hPending]
  · rcases hChars : word.toList with _ | ⟨c, cs⟩
    · rcases hPending : r.pending with _ | ⟨b, _ | v⟩ <;>
        simp [readWord, awaitsValue, h, hPending, hChars]
    · have hDash : c ≠ '-' := by simpa [hChars] using hHead
      rcases hPending : r.pending with _ | ⟨b, _ | v⟩ <;>
        simp [readWord, awaitsValue, h, hPending, hChars, hDash]

theorem Gains.trailing (h : Gains a value q r) : r.trailing = q.trailing := by
  cases h with
  | waiting settled waits => exact (settings_of_settle settled).2.2
  | given hGiven => exact hGiven.trailing

theorem Gains.awaitsValue (h : Gains a value q r) : r.awaitsValue = q.awaitsValue := by
  cases h with
  | waiting settled waits =>
    rw [awaitsValue_of_settle settled, Reading.awaitsValue, waits]
  | given hGiven => rw [Reading.awaitsValue, Reading.awaitsValue, hGiven.pending]

theorem Gains.withTrailing (h : Gains a value q r) :
    Gains a value { q with trailing := true } { r with trailing := true } := by
  cases h with
  | waiting settled waits => exact .waiting (settle_trailing settled) waits
  | given hGiven => exact .given ⟨hGiven.settings, hGiven.pending, rfl⟩

theorem Gains.given_of_awaitsValue (h : Gains a value q r) (hAwaits : q.awaitsValue = true) :
    Given a value q r := by
  cases h with
  | waiting settled _ =>
    rw [awaitsValue_of_settle settled] at hAwaits
    cases hAwaits
  | given hGiven => exact hGiven

namespace Carries

variable {step next : Reading → Except Refusal Reading}

theorem branch {test : Reading → Bool}
    (hSame : ∀ {q r : Reading}, Gains a value q r → test r = test q) (hStep : Carries a value step)
    (hNext : Carries a value next) :
    Carries a value fun r => if test r then step r else next r where
  keeps {q q₁} h := by
    split at h
    · exact hStep.keeps h
    · exact hNext.keeps h
  follows {q r q₁} hGains h hLacks := by
    rw [hSame hGains]
    split at h
    · rename_i hTest
      rw [if_pos hTest]
      exact hStep.follows hGains h hLacks
    · rename_i hTest
      rw [if_neg hTest]
      exact hNext.follows hGains h hLacks

theorem trail : Carries a value fun r => .ok { r with trailing := true } where
  keeps h := by
    obtain rfl := Except.ok.inj h
    exact List.prefix_rfl
  follows hGains h _ := by
    obtain rfl := Except.ok.inj h
    exact ⟨_, rfl, hGains.withTrailing⟩

theorem readPlain (hValue : isValidValue a.key value = true) (form : Form) (word : String) :
    Carries a value fun r =>
      if r.awaitsValue then
        .ok { r with pending := r.pending.map fun p => { p with value := some word } }
      else r.readStray form word where
  keeps {q q₁} h := by
    split at h
    · obtain rfl := Except.ok.inj h
      exact List.prefix_rfl
    · exact (readStray hValue form word).keeps h
  follows {q r q₁} hGains h hLacks := by
    rw [hGains.awaitsValue]
    split at h
    · rename_i hAwaits
      have hGiven := hGains.given_of_awaitsValue hAwaits
      obtain rfl := Except.ok.inj h
      rw [if_pos hAwaits]
      refine ⟨_, rfl, .given ⟨hGiven.settings, ?_, hGiven.trailing⟩⟩
      rw [hGiven.pending]
    · rename_i hAwaits
      rw [if_neg hAwaits]
      exact (readStray hValue form word).follows hGains h hLacks

theorem readWord_of_step (hValue : isValidValue a.key value = true)
    (h : ∀ r : Reading, r.trailing = false → r.readWord form options word = step r)
    (hStep : Carries a value step) : Carries a value fun r => r.readWord form options word := by
  have hEq : (fun r : Reading => r.readWord form options word) =
      fun r => if r.trailing then r.readStray form word else step r := by
    funext r
    cases hTrailing : r.trailing with
    | true => exact readWord_of_trailing hTrailing
    | false => exact h r hTrailing
  rw [hEq]
  exact branch Gains.trailing (readStray hValue form word) hStep

theorem readWord (hValue : isValidValue a.key value = true) (form : Form)
    (options : List Argument) (word : String) :
    Carries a value fun r => r.readWord form options word := by
  cases shape word with
  | dashes hWord => exact readWord_of_step hValue (fun _ h => readWord_of_dashes h hWord) trail
  | long hWord =>
    exact readWord_of_step hValue (fun _ h => readWord_of_long h hWord) (readLong hValue options _)
  | short hShort hWord =>
    exact readWord_of_step hValue (fun _ h => readWord_of_short h hShort hWord)
      (readShort hValue options _)
  | plain hPlain =>
    exact readWord_of_step hValue (fun _ h => readWord_of_plain h hPlain)
      (readPlain hValue form word)

theorem readWords (hValue : isValidValue a.key value = true) (form : Form)
    (options : List Argument) (words : List String) :
    Carries a value fun r => words.foldlM (Reading.readWord form options) r := by
  induction words with
  | nil => exact ok
  | cons word words ih =>
    simp only [List.foldlM_cons]
    exact (readWord hValue form options word).bind ih

end Carries

end Reading

end LiteralLint.CommandLine
