import LiteralLint.Proofs.CommandLine.Acceptance
import LiteralLint.Proofs.Program.Directory

/-! # The order of the arguments of a check

A check reads the same from every order of its words that keeps the files in order and the values to
allow. Its options may stand on either side of its name, as long as what is counted stands on one
side. -/

set_option autoImplicit false

namespace LiteralLint.CommandLine

def sharedOptions : List Argument := rootForm.arguments.filter (·.isGlobal)

def checkOptions : List Argument := CommandName.check.form.arguments ++ sharedOptions

/-- Some words give arguments their values, one after the other. A flag may share its dash with the
letters behind it. -/
inductive Spells (options : List Argument) : Settings → List String → Prop where
  | nothing : Spells options [] []
  | positional {a : Argument} {word : String} {given : Settings} {words : List String} :
      a ∈ options → a.isPositional = true → IsPlain word → Spells options given words →
      Spells options ((a.key, word) :: given) (word :: words)
  | flag {a : Argument} {word : String} {given : Settings} {words : List String} :
      a ∈ options → a.IsFlag → a.Written none word → Spells options given words →
      Spells options ((a.key, "") :: given) (word :: words)
  | cluster {a : Argument} {letter c : Char} {letters : List Char} {given : Settings}
      {words : List String} :
      a ∈ options → a.IsFlag → a.short = some letter → c ≠ '-' →
      Spells options given (String.ofList ('-' :: c :: letters) :: words) →
      Spells options ((a.key, "") :: given) (String.ofList ('-' :: letter :: c :: letters) :: words)
  | value {a : Argument} {value : String} {own : List String} {given : Settings}
      {words : List String} :
      a ∈ options → a.kind.takesValue = true → a.Spelled value own → Spells options given words →
      Spells options ((a.key, value) :: given) (own ++ words)

structure Choice where
  json : Bool := false
  quiet : Bool := false
  verbose : Nat := 0
  color : Option ColorChoice := none
  config : Option String := none
  chdir : Option String := none
deriving DecidableEq

namespace Choice

def values (choice : Choice) : Key → List String
  | .json => if choice.json then [""] else []
  | .quiet => if choice.quiet then [""] else []
  | .verbose => List.replicate choice.verbose ""
  | .color => (choice.color.map ColorChoice.name).toList
  | .config => choice.config.toList
  | .chdir => choice.chdir.toList
  | _ => []

end Choice

/-- Some files, values to allow and options are distributed over the two sides of the name of a
check. The order is free except among the files and among the values to allow. -/
structure Arrangement (choice : Choice) (files allowed : List String) (front behind : Settings) :
    Prop where
  files : behind.values .files = files
  allowed : behind.values .allow = allowed
  shared : ∀ a ∈ sharedOptions, (front ++ behind).values a.key = choice.values a.key
  counted : front.has .verbose = false ∨ behind.has .verbose = false

/-! ## What the words say -/

section

variable {options all : List Argument} {form : Form} {given : Settings} {words : List String}
  {a : Argument} {v : Option String} {word : String}

theorem not_isPlain_of_cons {c : Char} {letters : List Char}
    (h : word.toList = '-' :: c :: letters) : ¬ IsPlain word := by
  rintro (rfl | hHead)
  · cases h
  · exact hHead (by rw [h]; rfl)

theorem Spells.exists_says (h : Spells options given words) (hNamed : options ⊆ all)
    (hPositional : ∀ a ∈ options, a.isPositional = true →
      form.arguments.find? (·.isPositional) = some a) :
    ∃ es : Entries, Says form all none words es ∧ es.settings = given ∧
      ∀ e ∈ es, e.1 ∈ options := by
  induction h with
  | nothing => exact ⟨[], .nothing, rfl, List.forall_mem_nil _⟩
  | @positional a word _ _ ha hYes hPlain _ ih =>
    obtain ⟨es, hSays, rfl, hAll⟩ := ih
    exact ⟨(a, word) :: es, .positional (hPositional a ha hYes) hPlain hSays, rfl,
      List.forall_mem_cons.mpr ⟨ha, hAll⟩⟩
  | @flag a word _ _ ha hFlag hWritten _ ih =>
    obtain ⟨es, hSays, rfl, hAll⟩ := ih
    exact ⟨(a, "") :: es, .named (.flag (hNamed ha) hFlag hWritten) hSays, rfl,
      List.forall_mem_cons.mpr ⟨ha, hAll⟩⟩
  | @cluster a letter c letters _ words ha hFlag hShort hNoDash _ ih =>
    obtain ⟨es, hSays, rfl, hAll⟩ := ih
    refine ⟨(a, "") :: es, ?_, rfl, List.forall_mem_cons.mpr ⟨ha, hAll⟩⟩
    generalize hWord : String.ofList ('-' :: c :: letters) = word at hSays
    have hChars : word.toList = '-' :: c :: letters := by rw [← hWord, String.toList_ofList]
    cases hSays with
    | named hNames hSays =>
      exact .named (.cluster (hNamed ha) hFlag hShort hNoDash (hWord ▸ hNames)) hSays
    | positional _ hPlain _ => exact absurd hPlain (not_isPlain_of_cons hChars)
    | trailing _ =>
      obtain ⟨-, hDash⟩ := List.cons.inj hChars
      exact absurd (List.cons.inj hDash).1.symm hNoDash
  | @value a value _ _ _ ha hTakes hSpelled _ ih =>
    obtain ⟨es, hSays, rfl, hAll⟩ := ih
    refine ⟨(a, value) :: es, ?_, rfl, List.forall_mem_cons.mpr ⟨ha, hAll⟩⟩
    cases hSpelled with
    | joined hWritten => exact .named (.value (hNamed ha) hTakes hWritten) hSays
    | apart hWritten hPlain =>
      exact .named (.opens (hNamed ha) hTakes hWritten) (.value hPlain hSays)

theorem Argument.Written.ne_dashes (h : a.Written v word) (hFound : a.IsFound all) :
    word ≠ "--" := by
  intro hWord
  have hChars := congrArg String.toList hWord
  cases h with
  | short hShort =>
    have hNoDash := (hFound.short _ hShort).1
    simp [hNoDash] at hChars
  | long hLong =>
    have hNonempty := (hFound.long _ hLong).1
    simp [String.toList_eq_nil_iff] at hChars hNonempty
    exact hNonempty hChars
  | shortWith hShort _ _ =>
    have hNoDash := (hFound.short _ hShort).1
    simp [hNoDash] at hChars
  | shortEquals hShort => simp at hChars
  | longEquals hLong => simp at hChars

theorem Spells.dashes_not_mem (h : Spells options given words)
    (hFound : ∀ a ∈ options, a.IsFound all) : "--" ∉ words := by
  have hPlainNe {word : String} (hPlain : IsPlain word) : "--" ≠ word := by
    rintro rfl
    exact absurd hPlain (by decide)
  induction h with
  | nothing => exact List.not_mem_nil
  | positional _ _ hPlain _ ih =>
    exact List.not_mem_cons_of_ne_of_not_mem (hPlainNe hPlain) ih
  | flag ha _ hWritten _ ih =>
    exact List.not_mem_cons_of_ne_of_not_mem (hWritten.ne_dashes (hFound _ ha)).symm ih
  | cluster _ _ _ _ _ ih =>
    refine List.not_mem_cons_of_ne_of_not_mem (fun hWord => ?_) (List.not_mem_of_not_mem_cons ih)
    have hChars := congrArg String.toList hWord
    simp at hChars
  | value ha _ hSpelled _ ih =>
    rw [List.mem_append, not_or]
    refine ⟨?_, ih⟩
    cases hSpelled with
    | joined hWritten =>
      rw [List.mem_singleton]
      exact (hWritten.ne_dashes (hFound _ ha)).symm
    | apart hWritten hPlain =>
      exact List.not_mem_cons_of_ne_of_not_mem (hWritten.ne_dashes (hFound _ ha)).symm
        (mt List.mem_singleton.mp (hPlainNe hPlain))

end

/-! ## What is given fits -/

section

variable {es : Entries} {key : Key} {s t front behind : Settings} {value : String} {choice : Choice}
  {files allowed : List String} {a : Argument}

theorem Settings.values_append (s t : Settings) (key : Key) :
    (s ++ t).values key = s.values key ++ t.values key := by
  rw [values, List.filter_append, List.map_append]
  rfl

theorem Settings.mem_values_iff : value ∈ s.values key ↔ (key, value) ∈ s := by
  simp [values]

theorem Entries.has_eq_false (h : ∀ e ∈ es, e.1.key ≠ key) : es.settings.has key = false := by
  rw [Settings.has, List.any_eq_false, settings, List.forall_mem_map]
  exact fun e he hKey => h e he (beq_iff_eq.mp hKey)

theorem Entries.apart_of_values
    (h : ∀ e ∈ es, e.1.kind.isRepeatable = true ∨ (es.settings.values e.1.key).length ≤ 1) :
    es.Pairwise fun d e => e.1.kind.isRepeatable = true ∨ d.1.key ≠ e.1.key := by
  induction es with
  | nil => exact .nil
  | cons d es ih =>
    have hSettings : settings (d :: es) = [(d.1.key, d.2)] ++ settings es := rfl
    rw [List.pairwise_cons]
    constructor
    · intro e hMem
      refine (h e (List.mem_cons_of_mem d hMem)).imp_right fun hLength hKey => ?_
      have hValue : e.2 ∈ (settings es).values e.1.key :=
        Settings.mem_values_iff.mpr (List.mem_map_of_mem hMem)
      have hOne := List.length_pos_of_mem hValue
      rw [hSettings, Settings.values_append, List.length_append] at hLength
      have hHead : (Settings.values [(d.1.key, d.2)] e.1.key).length = 1 := by
        simp [Settings.values, hKey]
      omega
    · refine ih fun e hMem => (h e (List.mem_cons_of_mem d hMem)).imp_right fun hLength => ?_
      rw [hSettings, Settings.values_append, List.length_append] at hLength
      omega

namespace Choice

theorem length_values_le (choice : Choice) (h : key ≠ .verbose) :
    (choice.values key).length ≤ 1 := by
  have hFlag (given : Bool) : (if given then [""] else []).length ≤ 1 := by cases given <;> decide
  cases key with
  | verbose => exact absurd rfl h
  | json => exact hFlag choice.json
  | quiet => exact hFlag choice.quiet
  | color | config | chdir => exact Option.length_toList_le
  | _ => exact Nat.zero_le 1

theorem isValidValue_of_mem_values (hConfig : choice.config ≠ some "")
    (hChdir : choice.chdir ≠ some "") (h : value ∈ choice.values key) :
    isValidValue key value = true := by
  cases key with
  | config =>
    have hValue : choice.config = some value := by simpa [values] using h
    rw [hValue] at hConfig
    simpa [isValidValue] using hConfig
  | chdir =>
    have hValue : choice.chdir = some value := by simpa [values] using h
    rw [hValue] at hChdir
    simpa [isValidValue] using hChdir
  | color =>
    obtain ⟨color, -, rfl⟩ : ∃ color, choice.color = some color ∧ color.name = value := by
      simpa [values] using h
    cases color <;> rfl
  | _ => rfl

end Choice

theorem checkOptions_cases (h : a ∈ checkOptions) :
    a ∈ sharedOptions ∨ a.kind.isRepeatable = true ∧ ∀ value, isValidValue a.key value = true := by
  rcases List.mem_append.mp h with hOwn | hShared
  · have hKind : ∀ a ∈ CommandName.check.form.arguments, a.kind.isRepeatable = true ∧
        (a.key = .files ∨ a.key = .allow) := by decide
    obtain ⟨hRepeatable, hKey⟩ := hKind a hOwn
    refine Or.inr ⟨hRepeatable, fun value => ?_⟩
    rcases hKey with hKey | hKey <;> rw [hKey] <;> rfl
  · exact Or.inl hShared

namespace Arrangement

variable (h : Arrangement choice files allowed front behind)
include h

theorem fit (hConfig : choice.config ≠ some "") (hChdir : choice.chdir ≠ some "")
    (hOptions : ∀ e ∈ es, e.1 ∈ checkOptions) (hSide : es.settings.Sublist (front ++ behind)) :
    es.Fit [] := by
  have hCount : ∀ a ∈ sharedOptions, a.kind.isRepeatable = true ∨ a.key ≠ .verbose := by decide
  have hValues (a : Argument) (ha : a ∈ sharedOptions) :
      (es.settings.values a.key).Sublist (choice.values a.key) := by
    rw [← h.shared a ha]
    exact (hSide.filter _).map _
  refine ⟨fun e hMem => ?_, fun _ _ => Or.inr rfl, Entries.apart_of_values fun e hMem => ?_⟩
  · rcases checkOptions_cases (hOptions e hMem) with hShared | ⟨-, hAny⟩
    · refine Choice.isValidValue_of_mem_values hConfig hChdir ((hValues _ hShared).subset ?_)
      exact Settings.mem_values_iff.mpr (List.mem_map_of_mem hMem)
    · exact hAny e.2
  · rcases checkOptions_cases (hOptions e hMem) with hShared | ⟨hRepeatable, -⟩
    · exact (hCount _ hShared).imp_right fun hNe =>
        Nat.le_trans (hValues _ hShared).length_le (choice.length_values_le hNe)
    · exact Or.inl hRepeatable

theorem values_chosen (ha : a ∈ sharedOptions) :
    (chosen front behind a.key).values a.key = choice.values a.key := by
  have hBoth := h.shared a ha
  rw [Settings.values_append] at hBoth
  have hSide : front.values a.key = [] ∨ behind.values a.key = [] := by
    by_cases hKey : a.key = .verbose
    · rw [hKey, Settings.values_eq_nil_iff, Settings.values_eq_nil_iff]
      exact h.counted
    · have hLength := choice.length_values_le hKey
      rw [← hBoth, List.length_append] at hLength
      rw [← List.length_eq_zero_iff, ← List.length_eq_zero_iff]
      omega
  rw [chosen]
  split
  · rename_i hBehind
    have hFront := hSide.resolve_right fun hNil => by
      rw [Settings.values_eq_nil_iff.mp hNil] at hBehind
      cases hBehind
    rw [← hBoth, hFront, List.nil_append]
  · rename_i hBehind
    rw [← hBoth, Settings.values_eq_nil_iff.mpr (Bool.eq_false_iff.mpr hBehind), List.append_nil]

end Arrangement

end

section

variable {choice : Choice} {files allowed : List String} {front behind : Settings}
  {before after : List String}

theorem Choice.flag_values (given : Bool) : (!(if given then [""] else []).isEmpty) = given := by
  cases given <;> rfl

theorem Choice.color_values (color : Option ColorChoice) :
    ((color.map ColorChoice.name).bind ColorChoice.ofName?).getD .auto = color.getD .auto := by
  rcases color with _ | color
  · rfl
  · cases color <;> rfl

theorem Arrangement.ofSettings_eq (h : Arrangement choice files allowed front behind)
    (hFront : front.has .versionOnly = false) :
    Invocation.ofSettings front behind (some (.ofSettings .check behind)) =
      { command := some (.check ⟨files, allowed⟩)
        versionOnly := false
        config := choice.config
        chdir := choice.chdir
        quiet := choice.quiet
        verbose := min greatestCount choice.verbose
        json := choice.json
        color := choice.color.getD .auto } := by
  have hValues (key : Key) (hShared : ∃ a ∈ sharedOptions, a.key = key) :
      (chosen front behind key).values key = choice.values key := by
    obtain ⟨a, ha, rfl⟩ := hShared
    exact h.values_chosen ha
  have hCommand : Command.ofSettings .check behind = .check ⟨files, allowed⟩ := by
    rw [Command.ofSettings, h.files, h.allowed]
  simp only [CommandLine.ofSettings_eq, hCommand, hFront, hValues .config (by decide),
    hValues .chdir (by decide), hValues .quiet (by decide), hValues .verbose (by decide),
    hValues .json (by decide), hValues .color (by decide), Choice.values, Choice.flag_values,
    Choice.color_values, Option.head?_toList, List.length_replicate]

/-- However the words of a check are arranged, it reads the same. -/
theorem read_arranged (h : Arrangement choice files allowed front behind) (hFiles : files ≠ [])
    (hConfig : choice.config ≠ some "") (hChdir : choice.chdir ≠ some "")
    (hFront : Spells sharedOptions front before) (hBehind : Spells checkOptions behind after) :
    read (before ++ "check" :: after) =
      .ok {
        command := some (.check ⟨files, allowed⟩)
        versionOnly := false
        config := choice.config
        chdir := choice.chdir
        quiet := choice.quiet
        verbose := min greatestCount choice.verbose
        json := choice.json
        color := choice.color.getD .auto } := by
  have hRoot : sharedOptions ⊆ rootOptions := by decide
  have hCheck : checkOptions ⊆ CommandName.check.options := by decide
  have hNone : ∀ a ∈ sharedOptions, a.isPositional = true →
      rootForm.arguments.find? (·.isPositional) = some a := by decide
  have hFile : ∀ a ∈ checkOptions, a.isPositional = true →
      CommandName.check.form.arguments.find? (·.isPositional) = some a := by decide
  have hVersionOnly : ∀ a ∈ sharedOptions, a.key ≠ .versionOnly := by decide
  have hRequired : ∀ b ∈ CommandName.check.form.arguments, b.isRequired = true →
      b.key = .files := by decide
  have hVocabulary := vocabulary rootOptions_mem_vocabularies
  obtain ⟨es, hSays, rfl, hShared⟩ := hFront.exists_says hRoot hNone
  obtain ⟨fs, hSaysMore, rfl, hOwn⟩ := hBehind.exists_says hCheck hFile
  have hDashes : "--" ∉ before :=
    hFront.dashes_not_mem fun a ha => hVocabulary.found a (hRoot ha)
  have hNoVersion : es.settings.has .versionOnly = false :=
    Entries.has_eq_false fun e he => hVersionOnly e.1 (hShared e he)
  have hGiven : ∀ b ∈ CommandName.check.form.arguments, b.isRequired = true →
      fs.settings.has b.key = true := by
    intro b hb hYes
    rw [hRequired b hb hYes]
    refine Bool.not_eq_false _ ▸ fun hLacks => hFiles ?_
    rw [← h.files, Settings.values_eq_nil_iff.mpr hLacks]
  refine read_eq_ok_iff_says.mpr (Or.inr ⟨.check, before, after, es, fs, rfl, hDashes, hSays, ?_,
    hSaysMore, ?_, hGiven, (h.ofSettings_eq hNoVersion).symm⟩)
  · exact h.fit hConfig hChdir (fun e he => List.mem_append_right _ (hShared e he))
      (List.sublist_append_left _ _)
  · exact h.fit hConfig hChdir hOwn (List.sublist_append_right _ _)

def checkArgument (key : Key) : Argument :=
  (checkOptions.find? (·.key == key)).getD helpArgument

/-- Options on both sides, a file that bears the name of the command, and both spellings of a value
to allow. -/
theorem read_arranged_scattered :
    Arrangement { json := true, verbose := 2, chdir := some "sub" } ["check", "b.ts"] ["png", "a"]
        [(.verbose, ""), (.verbose, "")]
        [(.allow, "png"), (.files, "check"), (.json, ""), (.allow, "a"), (.chdir, "sub"),
          (.files, "b.ts")] ∧
      read ["-vv", "check", "--allow=png", "check", "--json", "--allow", "a", "-C", "sub",
          "b.ts"] =
        .ok {
          command := some (.check ⟨["check", "b.ts"], ["png", "a"]⟩)
          versionOnly := false
          config := none
          chdir := some "sub"
          quiet := false
          verbose := 2
          json := true
          color := .auto } := by
  have hArrangement : Arrangement { json := true, verbose := 2, chdir := some "sub" }
      ["check", "b.ts"] ["png", "a"] [(.verbose, ""), (.verbose, "")]
      [(.allow, "png"), (.files, "check"), (.json, ""), (.allow, "a"), (.chdir, "sub"),
        (.files, "b.ts")] := ⟨rfl, rfl, by decide, Or.inr rfl⟩
  have hJson : (checkArgument .json).Written none "--json" :=
    @Argument.Written.long _ "json" rfl
  have hAllow : (checkArgument .allow).Written none "--allow" :=
    @Argument.Written.long _ "allow" rfl
  have hPng : (checkArgument .allow).Written (some "png") "--allow=png" :=
    @Argument.Written.longEquals _ "allow" "png" rfl
  have hLast : Spells sharedOptions [(.verbose, "")] ["-v"] :=
    .flag (a := checkArgument .verbose) (by decide) (Or.inr rfl) (.short rfl) .nothing
  have hFront : Spells sharedOptions [(.verbose, ""), (.verbose, "")] ["-vv"] :=
    .cluster (a := checkArgument .verbose) (by decide) (Or.inr rfl) rfl (by decide) hLast
  have hBehind : Spells checkOptions
      [(.allow, "png"), (.files, "check"), (.json, ""), (.allow, "a"), (.chdir, "sub"),
        (.files, "b.ts")]
      ["--allow=png", "check", "--json", "--allow", "a", "-C", "sub", "b.ts"] :=
    .value (by decide) rfl (.joined hPng) <|
    .positional (a := checkArgument .files) (by decide) rfl (by decide) <|
    .flag (by decide) (Or.inl rfl) hJson <|
    .value (by decide) rfl (.apart hAllow (by decide)) <|
    .value (a := checkArgument .chdir) (by decide) rfl (.apart (.short rfl) (by decide)) <|
    .positional (a := checkArgument .files) (by decide) rfl (by decide) .nothing
  exact ⟨hArrangement,
    read_arranged hArrangement (by decide) (by decide) (by decide) hFront hBehind⟩

end

end LiteralLint.CommandLine
