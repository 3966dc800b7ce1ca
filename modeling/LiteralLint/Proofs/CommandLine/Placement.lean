import LiteralLint.Proofs.CommandLine.Boundary
import Mathlib.Data.List.TakeWhile

/-! # Where one more argument may stand

An argument with a value may be put between any two words of a command line where another argument
may begin, in front of the name of the command or behind it. Its value may follow as a word of its
own if that word is no option. -/

set_option autoImplicit false

namespace LiteralLint.CommandLine

inductive Argument.Written (a : Argument) : Option String → String → Prop where
  | short {letter : Char} : a.short = some letter →
      Written a none (String.ofList ['-', letter])
  | long {name : String} : a.long = some name → Written a none ("--" ++ name)
  | shortWith {letter : Char} {value : String} : a.short = some letter → value ≠ "" →
      value.toList.head? ≠ some '=' →
      Written a (some value) (String.ofList ['-', letter] ++ value)
  | shortEquals {letter : Char} {value : String} : a.short = some letter →
      Written a (some value) (String.ofList ['-', letter, '='] ++ value)
  | longEquals {name value : String} : a.long = some name →
      Written a (some value) ("--" ++ name ++ "=" ++ value)

inductive Argument.Spelled (a : Argument) (value : String) : List String → Prop where
  | joined {word : String} : a.Written (some value) word → Spelled a value [word]
  | apart {word : String} : a.Written none word → IsPlain value → Spelled a value [word, value]

/-- The first words with an argument put between two of them. -/
def Argument.Joins (a : Argument) (value : String) (words more : List String) : Prop :=
  ∃ before given after, words = before ++ after ∧ more = before ++ (given ++ after) ∧
    Boundary before ∧ a.Spelled value given

structure Argument.IsOffered (a : Argument) (options : List Argument) : Prop where
  takesValue : a.kind.takesValue = true
  short : ∀ letter ∈ a.short, letter ≠ '-' ∧ options.find? (·.short == some letter) = some a
  long : ∀ name ∈ a.long, name.toList ≠ [] ∧ '=' ∉ name.toList ∧
    options.find? (·.long == some name) = some a

/-! ## The words of an argument -/

section

variable {a : Argument} {v : Option String} {value word : String} {form : Form}
  {options : List Argument} {given : List String} {q q₁ : Reading}

theorem Argument.Written.head? (h : a.Written v word) : word.toList.head? = some '-' := by
  cases h <;> simp

theorem isCommandWord_eq_false (h : word.toList.head? = some '-') : isCommandWord word = false := by
  rw [isCommandWord, Bool.or_eq_false_iff]
  constructor
  · refine beq_eq_false_iff_ne.mpr ?_
    rintro rfl
    cases h
  · rw [Option.isSome_eq_false_iff, Option.isNone_iff_eq_none, CommandName.ofText?,
      List.find?_eq_none]
    intro command _ hName
    obtain rfl := beq_iff_eq.mp hName
    cases command <;> cases h

theorem Reading.readLong_of_find {name : String} (hNoEquals : '=' ∉ name.toList)
    (hFind : options.find? (·.long == some name) = some a) :
    q.readLong options name.toList =
      if a.kind.takesValue then q.expect a none else q.mention a := by
  have hPasses : ∀ c ∈ name.toList, decide (c ≠ '=') = true := fun c hMem =>
    decide_eq_true fun hEq => hNoEquals (hEq ▸ hMem)
  simp only [readLong, List.takeWhile_eq_self_iff.mpr hPasses,
    List.dropWhile_eq_nil_iff.mpr hPasses, String.ofList_toList, hFind]
  rfl

section

variable (hOffered : a.IsOffered options) {name : String} {letter : Char}
include hOffered

theorem Reading.readLong_name (hLong : a.long = some name) :
    q.readLong options name.toList = q.expect a none := by
  obtain ⟨-, hNoEquals, hFind⟩ := hOffered.long _ hLong
  rw [readLong_of_find hNoEquals hFind, if_pos hOffered.takesValue]

theorem Reading.readLong_name_equals (hLong : a.long = some name) (value : List Char) :
    q.readLong options (name.toList ++ '=' :: value) = q.expect a (some (String.ofList value)) := by
  obtain ⟨-, hNoEquals, hFind⟩ := hOffered.long _ hLong
  have hPasses : ∀ c ∈ name.toList, decide (c ≠ '=') = true := fun c hMem =>
    decide_eq_true fun hEq => hNoEquals (hEq ▸ hMem)
  have hName : (name.toList ++ '=' :: value).takeWhile (· ≠ '=') = name.toList := by
    rw [List.takeWhile_append_of_pos hPasses]
    simp
  have hValue : (name.toList ++ '=' :: value).dropWhile (· ≠ '=') = '=' :: value := by
    rw [List.dropWhile_append_of_pos hPasses]
    simp
  simp only [readLong, hName, hValue, String.ofList_toList, hFind, hOffered.takesValue, if_true]

theorem Argument.Written.readWord (h : a.Written v word) (hTrailing : q.trailing = false) :
    q.readWord form options word = q.expect a v := by
  have hLongWord {name : String} (hLong : a.long = some name) {rest : List Char}
      (hWord : word.toList = '-' :: '-' :: (name.toList ++ rest)) :
      q.readWord form options word = q.readLong options (name.toList ++ rest) := by
    obtain ⟨hNonempty, -⟩ := hOffered.long _ hLong
    obtain ⟨c, cs, hName⟩ := List.exists_cons_of_ne_nil hNonempty
    rw [hName] at hWord ⊢
    exact Reading.readWord_of_long hTrailing hWord
  cases h with
  | short hShort =>
    obtain ⟨hNoDash, hFind⟩ := hOffered.short _ hShort
    rw [Reading.readWord_of_short hTrailing hNoDash String.toList_ofList]
    simp only [Reading.readShort, hFind, hOffered.takesValue, if_true]
  | @long name hLong =>
    have hWord : ("--" ++ name).toList = '-' :: '-' :: (name.toList ++ []) := by simp
    rw [hLongWord hLong hWord, List.append_nil, Reading.readLong_name hOffered hLong]
  | @shortWith letter value hShort hNonempty hNoEquals =>
    obtain ⟨hNoDash, hFind⟩ := hOffered.short _ hShort
    have hWord : (String.ofList ['-', letter] ++ value).toList = '-' :: letter :: value.toList := by
      simp
    rw [Reading.readWord_of_short hTrailing hNoDash hWord]
    simp only [Reading.readShort, hFind, hOffered.takesValue, if_true]
    split
    · exact absurd (String.toList_eq_nil_iff.mp ‹_›) hNonempty
    · rename_i hEquals
      exact absurd (by rw [hEquals]; rfl) hNoEquals
    · rw [String.ofList_toList]
  | @shortEquals letter value hShort =>
    obtain ⟨hNoDash, hFind⟩ := hOffered.short _ hShort
    have hWord : (String.ofList ['-', letter, '='] ++ value).toList =
        '-' :: letter :: '=' :: value.toList := by simp
    rw [Reading.readWord_of_short hTrailing hNoDash hWord]
    simp only [Reading.readShort, hFind, hOffered.takesValue, if_true, String.ofList_toList]
  | @longEquals name value hLong =>
    have hWord : ("--" ++ name ++ "=" ++ value).toList =
        '-' :: '-' :: (name.toList ++ '=' :: value.toList) := by simp
    rw [hLongWord hLong hWord, Reading.readLong_name_equals hOffered hLong, String.ofList_toList]

end

theorem Reading.readWords_spelled (form : Form) (hOffered : a.IsOffered options)
    (h : a.Spelled value given) (hTrailing : q.trailing = false)
    (hSettle : q.settle = .ok q₁) :
    given.foldlM (Reading.readWord form options) q =
      .ok { q₁ with pending := some ⟨a, some value⟩ } := by
  have hExpect (v : Option String) : q.expect a v = .ok { q₁ with pending := some ⟨a, v⟩ } :=
    expect_eq_ok_iff.mpr ⟨q₁, hSettle, rfl⟩
  cases h with
  | joined hWritten =>
    rw [List.foldlM_cons, hWritten.readWord hOffered hTrailing, hExpect]
    rfl
  | apart hWritten hPlain =>
    have hOpen : ({ q₁ with pending := some ⟨a, none⟩ } : Reading).trailing = false :=
      (settings_of_settle hSettle).2.2.trans hTrailing
    rw [List.foldlM_cons, hWritten.readWord hOffered hTrailing, hExpect]
    refine (bind_of_ok rfl).trans ?_
    rw [List.foldlM_cons, readWord_of_plain hOpen hPlain]
    rfl

theorem Reading.gains_spelled (h : q.settle = .ok q₁) :
    Gains a value q { q₁ with pending := some ⟨a, some value⟩ } := by
  refine .waiting ?_ rfl
  rw [h, ← (settings_of_settle h).2.1]

end

/-! ## The words in front of the name of a command -/

/-- The words up to the name of a command are read one after the other. The name is found only where
a word does not belong to what stands in front of it. -/
inductive ReadsTo :
    Reading → List String → Reading → Option (CommandName × List String) → Prop where
  | all (q : Reading) : ReadsTo q [] q none
  | command {q : Reading} {word : String} {words : List String} {command : CommandName} :
      (q.trailing || q.awaitsValue) = false → word ≠ helpWord →
      CommandName.ofText? word = some command → ReadsTo q (word :: words) q (some (command, words))
  | word {q next last : Reading} {word : String} {words : List String}
      {rest : Option (CommandName × List String)} :
      (q.trailing || q.awaitsValue) = true ∨ isCommandWord word = false →
      q.readWord rootForm rootOptions word = .ok next → ReadsTo next words last rest →
      ReadsTo q (word :: words) last rest

section

variable {a : Argument} {value word : String} {q q₁ q₂ r : Reading}
  {words before after : List String} {rest : Option (CommandName × List String)}

theorem isCommandWord_eq_false_iff :
    isCommandWord word = false ↔ word ≠ helpWord ∧ CommandName.ofText? word = none := by
  rw [isCommandWord, Bool.or_eq_false_iff, beq_eq_false_iff_ne, Option.isSome_eq_false_iff,
    Option.isNone_iff_eq_none]

theorem readRoot_eq_ok_iff : readRoot q words = .ok (q₁, rest) ↔ ReadsTo q words q₁ rest := by
  constructor
  · intro h
    induction words generalizing q with
    | nil =>
      obtain ⟨rfl, rfl⟩ := Prod.mk.inj (Except.ok.inj h)
      exact .all q
    | cons word words ih =>
      rw [readRoot] at h
      split at h
      · rename_i hOwn
        obtain ⟨next, hWord, hWords⟩ := bind_eq_ok h
        exact .word (Or.inl hOwn) hWord (ih hWords)
      · rename_i hOwn
        split at h
        · cases h
        · rename_i hHelp
          split at h
          · obtain ⟨rfl, rfl⟩ := Prod.mk.inj (Except.ok.inj h)
            exact .command (Bool.eq_false_iff.mpr hOwn) hHelp ‹_›
          · obtain ⟨next, hWord, hWords⟩ := bind_eq_ok h
            exact .word (Or.inr (isCommandWord_eq_false_iff.mpr ⟨hHelp, ‹_›⟩)) hWord (ih hWords)
  · intro h
    induction h with
    | all q => rfl
    | command hOwn hHelp hName =>
      rw [readRoot, if_neg (Bool.eq_false_iff.mp hOwn), if_neg hHelp]
      simp only [hName]
    | @word q next last word words rest hOwn hWord _ ih =>
      rw [readRoot]
      by_cases hHere : (q.trailing || q.awaitsValue) = true
      · rw [if_pos hHere, bind_of_ok hWord, ih]
      · obtain ⟨hHelp, hNone⟩ := isCommandWord_eq_false_iff.mp (hOwn.resolve_left hHere)
        rw [if_neg hHere, if_neg hHelp]
        simp only [hNone]
        rw [bind_of_ok hWord, ih]

namespace ReadsTo

theorem settings (h : ReadsTo q words q₁ rest) (hValue : isValidValue a.key value = true) :
    q.settings <+: q₁.settings := by
  induction h with
  | all q => exact List.prefix_rfl
  | command _ _ _ => exact List.prefix_rfl
  | word _ hWord _ ih => exact ((Reading.Carries.readWord hValue _ _ _).keeps hWord).trans ih

theorem follows (h : ReadsTo q words q₁ rest) (hValue : isValidValue a.key value = true)
    (hGains : Reading.Gains a value q r) (hLacks : q₁.settings.has a.key = false) :
    ∃ r₁, ReadsTo r words r₁ rest ∧ Reading.Gains a value q₁ r₁ := by
  induction h generalizing r with
  | all q => exact ⟨r, .all r, hGains⟩
  | command hOwn hHelp hName =>
    rw [← hGains.trailing, ← hGains.awaitsValue] at hOwn
    exact ⟨r, .command hOwn hHelp hName, hGains⟩
  | word hOwn hWord hWords ih =>
    rw [← hGains.trailing, ← hGains.awaitsValue] at hOwn
    obtain ⟨next, hOther, hBoth⟩ := (Reading.Carries.readWord hValue _ _ _).follows hGains hWord
      (Settings.has_of_prefix (hWords.settings hValue) hLacks)
    obtain ⟨r₁, hOthers, hAll⟩ := ih hBoth hLacks
    exact ⟨r₁, .word hOwn hOther hOthers, hAll⟩

theorem settles (h : ReadsTo q words q₁ rest) (hSettle : q₁.settle = .ok q₂)
    (hClosed : q.awaitsValue = false) : ∃ q₃, q.settle = .ok q₃ := by
  induction h with
  | all q => exact ⟨q₂, hSettle⟩
  | command _ _ _ => exact ⟨q₂, hSettle⟩
  | word _ hWord _ ih => exact Reading.settles_before hWord hClosed (ih hSettle)

theorem split (h : ReadsTo q (before ++ after) q₁ rest) :
    (∃ q₂, before.foldlM (Reading.readWord rootForm rootOptions) q = .ok q₂ ∧
      ReadsTo q₂ after q₁ rest ∧
      ∀ words last rest, ReadsTo q₂ words last rest → ReadsTo q (before ++ words) last rest) ∨
    ∃ command inner, inner <:+ before ∧ rest = some (command, inner ++ after) ∧
      ∀ words, ReadsTo q (before ++ words) q₁ (some (command, inner ++ words)) := by
  induction before generalizing q with
  | nil => exact Or.inl ⟨q, rfl, h, fun _ _ _ => id⟩
  | cons word before ih =>
    cases h with
    | command hOwn hHelp hName =>
      exact Or.inr ⟨_, before, List.suffix_cons word before, rfl,
        fun _ => .command hOwn hHelp hName⟩
    | word hOwn hWord hWords =>
      rcases ih hWords with ⟨q₂, hRun, hAfter, hSame⟩ | ⟨command, inner, hSuffix, hRest, hSame⟩
      · refine Or.inl ⟨q₂, ?_, hAfter, fun words last rest hLast => ?_⟩
        · rw [List.foldlM_cons, bind_of_ok hWord, hRun]
        · exact .word hOwn hWord (hSame words last rest hLast)
      · exact Or.inr ⟨command, inner, hSuffix.trans (List.suffix_cons word before), hRest,
          fun words => .word hOwn hWord (hSame words)⟩

theorem spelled (hOffered : a.IsOffered rootOptions) {given : List String}
    (hSpelled : a.Spelled value given) (hTrailing : q.trailing = false)
    (hSettle : q.settle = .ok q₁)
    (h : ReadsTo { q₁ with pending := some ⟨a, some value⟩ } words r rest) :
    ReadsTo q (given ++ words) r rest := by
  have hExpect (v : Option String) : q.expect a v = .ok { q₁ with pending := some ⟨a, v⟩ } :=
    Reading.expect_eq_ok_iff.mpr ⟨q₁, hSettle, rfl⟩
  cases hSpelled with
  | joined hWritten =>
    exact .word (Or.inr (isCommandWord_eq_false hWritten.head?))
      ((hWritten.readWord hOffered hTrailing).trans (hExpect _)) h
  | apart hWritten hPlain =>
    have hOpen : ({ q₁ with pending := some ⟨a, none⟩ } : Reading).trailing = false :=
      (Reading.settings_of_settle hSettle).2.2.trans hTrailing
    refine .word (Or.inr (isCommandWord_eq_false hWritten.head?))
      ((hWritten.readWord hOffered hTrailing).trans (hExpect _)) (.word (Or.inl ?_) ?_ h)
    · exact Bool.or_true _
    · exact (Reading.readWord_of_plain hOpen hPlain).trans rfl

end ReadsTo

end

/-! ## Whole command lines -/

section

variable {a : Argument} {value : String} {words more before given after : List String}
  {q q₁ q₂ : Reading} {rest : Option (CommandName × List String)} {command : CommandName}
  {inner : Settings} {i : Invocation}

theorem readRoot_insert (hOffered : a.IsOffered rootOptions)
    (hValue : isValidValue a.key value = true) (hSpelled : a.Spelled value given)
    (hBoundary : Boundary before) (h : readRoot {} (before ++ after) = .ok (q₁, rest))
    (hSettle : q₁.settle = .ok q₂) (hLacks : q₂.settings.has a.key = false) :
    (∃ r₁, readRoot {} (before ++ (given ++ after)) = .ok (r₁, rest) ∧
      Reading.Gains a value q₁ r₁) ∨
    ∃ command inner, Boundary inner ∧ rest = some (command, inner ++ after) ∧
      readRoot {} (before ++ (given ++ after)) =
        .ok (q₁, some (command, inner ++ (given ++ after))) := by
  simp only [readRoot_eq_ok_iff] at h ⊢
  rcases h.split with ⟨q, hBefore, hAfter, hSame⟩ | ⟨command, inner, hSuffix, hRest, hSame⟩
  · left
    obtain ⟨hTrailing, hClosed⟩ :=
      Reading.closed_of_boundary hBefore hBoundary rootOptions_mem_vocabularies
    obtain ⟨q₃, hSettles⟩ := hAfter.settles hSettle hClosed
    obtain ⟨r₁, hGiven, hGains⟩ := hAfter.follows hValue (Reading.gains_spelled hSettles)
      (Settings.has_of_prefix (Reading.settings_of_settle hSettle).1 hLacks)
    exact ⟨r₁, hSame _ _ _ (.spelled hOffered hSpelled hTrailing hSettles hGiven), hGains⟩
  · exact Or.inr ⟨command, inner, hBoundary.of_suffix hSuffix, hRest, hSame _⟩

theorem readCommand_eq_ok_iff : readCommand command words = .ok inner ↔
    ∃ q₁ q₂, words.foldlM (Reading.readWord command.form command.options) {} = .ok q₁ ∧
      q₁.settle = .ok q₂ ∧ (∀ b ∈ command.form.arguments, b.isRequired = true →
        q₂.settings.has b.key = true) ∧ q₂.settings = inner := by
  have hAll (s : Settings) :
      (command.form.arguments.all fun b => !b.isRequired || s.has b.key) = true ↔
        ∀ b ∈ command.form.arguments, b.isRequired = true → s.has b.key = true := by
    simp [List.all_eq_true, imp_iff_not_or]
  constructor
  · intro h
    obtain ⟨q₁, hWords, h⟩ := bind_eq_ok h
    obtain ⟨q₂, hSettle, h⟩ := bind_eq_ok h
    split at h
    · exact ⟨q₁, q₂, hWords, hSettle, (hAll _).mp ‹_›, Except.ok.inj h⟩
    · cases h
  · rintro ⟨q₁, q₂, hWords, hSettle, hGiven, rfl⟩
    rw [readCommand, bind_of_ok hWords, bind_of_ok hSettle, if_pos ((hAll _).mpr hGiven)]
    rfl

theorem readCommand_insert (hOffered : a.IsOffered command.options)
    (hValue : isValidValue a.key value = true) (hSpelled : a.Spelled value given)
    (hBoundary : Boundary before) (h : readCommand command (before ++ after) = .ok inner)
    (hLacks : inner.has a.key = false) :
    ∃ gained, readCommand command (before ++ (given ++ after)) = .ok gained ∧
      Settings.Gains a.key value inner gained := by
  obtain ⟨q₁, q₂, hWords, hSettle, hGiven, rfl⟩ := readCommand_eq_ok_iff.mp h
  rw [List.foldlM_append] at hWords
  obtain ⟨q, hBefore, hAfter⟩ := bind_eq_ok hWords
  obtain ⟨hTrailing, hClosed⟩ :=
    Reading.closed_of_boundary hBefore hBoundary (options_mem_vocabularies command)
  obtain ⟨q₃, hSettles⟩ := Reading.settles_of_readWords hAfter hSettle hClosed
  have hSpelledRun := Reading.readWords_spelled command.form hOffered hSpelled hTrailing
    hSettles
  obtain ⟨r₁, hOthers, hGains⟩ := (Reading.Carries.readWords hValue _ _ after).follows
    (Reading.gains_spelled hSettles) hAfter
    (Settings.has_of_prefix (Reading.settings_of_settle hSettle).1 hLacks)
  obtain ⟨r₂, hLast, hBoth⟩ := hGains.settle hValue hSettle hLacks
  refine ⟨r₂.settings, readCommand_eq_ok_iff.mpr ⟨r₁, r₂, ?_, hLast, ?_, rfl⟩, hBoth.settings⟩
  · rw [List.foldlM_append, bind_of_ok hBefore, List.foldlM_append, bind_of_ok hSpelledRun]
    exact hOthers
  · exact fun b hMem hRequired => hBoth.settings.has_of_has (hGiven b hMem hRequired)

theorem read_eq_ok_iff : read words = .ok i ↔
    (∃ q root, readRoot {} words = .ok (q, none) ∧ q.settle = .ok root ∧ root.settings ≠ [] ∧
      i = .ofSettings root.settings [] none) ∨
    ∃ q root name behind inner, readRoot {} words = .ok (q, some (name, behind)) ∧
      readCommand name behind = .ok inner ∧ q.settle = .ok root ∧
      i = .ofSettings root.settings inner (some (.ofSettings name inner)) := by
  constructor
  · intro h
    obtain ⟨⟨q, rest⟩, hRoot, h⟩ := bind_eq_ok h
    rcases rest with _ | ⟨name, behind⟩
    · left
      obtain ⟨root, hSettle, h⟩ := bind_eq_ok h
      split at h
      · cases h
      · rename_i hNonempty
        exact ⟨q, root, hRoot, hSettle, fun hNil => hNonempty (List.isEmpty_iff.mpr hNil),
          (Except.ok.inj h).symm⟩
    · right
      obtain ⟨inner, hCommand, h⟩ := bind_eq_ok h
      obtain ⟨root, hSettle, h⟩ := bind_eq_ok h
      exact ⟨q, root, name, behind, inner, hRoot, hCommand, hSettle, (Except.ok.inj h).symm⟩
  · rintro (⟨q, root, hRoot, hSettle, hNonempty, rfl⟩ |
      ⟨q, root, name, behind, inner, hRoot, hCommand, hSettle, rfl⟩)
    · rw [read, bind_of_ok hRoot]
      simp only [bind_of_ok hSettle, List.isEmpty_eq_false_iff.mpr hNonempty]
      rfl
    · rw [read, bind_of_ok hRoot]
      simp only [bind_of_ok hCommand, bind_of_ok hSettle]
      rfl

end

end LiteralLint.CommandLine
