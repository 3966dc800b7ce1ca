import LiteralLint.Proofs.CommandLine.Entries

/-! # The grammar of command lines

Which entries some words spell, whatever is done with them: the words alone decide it, and the
reader accepts them exactly if what they spell fits. -/

set_option autoImplicit false

namespace LiteralLint.CommandLine

structure Argument.IsFound (a : Argument) (options : List Argument) : Prop where
  short : ∀ letter ∈ a.short, letter ≠ '-' ∧ options.find? (·.short == some letter) = some a
  long : ∀ name ∈ a.long, name.toList ≠ [] ∧ '=' ∉ name.toList ∧
    options.find? (·.long == some name) = some a

def Argument.IsFlag (a : Argument) : Prop := a.kind = .flag ∨ a.kind = .counter

structure Vocabulary (options : List Argument) : Prop where
  found : ∀ a ∈ options, a.IsFound options
  request : ∀ a ∈ options, a.kind = .request ↔ a.key = .help ∨ a.key = .version

theorem vocabulary {options : List Argument} (h : options ∈ vocabularies) :
    Vocabulary options := by
  have hShort : ∀ options ∈ vocabularies, ∀ a ∈ options, (a.short.all fun letter =>
      letter ≠ '-' ∧ options.find? (·.short == some letter) = some a) = true := by decide
  have hLong : ∀ options ∈ vocabularies, ∀ a ∈ options, (a.long.all fun name =>
      name.toList ≠ [] ∧ '=' ∉ name.toList ∧ options.find? (·.long == some name) = some a) =
        true := by decide
  have hRequest : ∀ options ∈ vocabularies, ∀ a ∈ options,
      (a.kind = .request ↔ a.key = .help ∨ a.key = .version) := by decide
  refine ⟨fun a ha => ⟨fun letter hLetter => ?_, fun name hName => ?_⟩, hRequest options h⟩
  · simpa [Option.mem_def.mp hLetter] using hShort options h a ha
  · simpa [Option.mem_def.mp hName] using hLong options h a ha

/-- A word that names arguments: the entries it gives, and the argument whose value it leaves to the
next word. -/
inductive Names (options : List Argument) : String → Entries → Option Argument → Prop where
  | flag {a : Argument} {word : String} : a ∈ options → a.IsFlag → a.Written none word →
      Names options word [(a, "")] none
  | value {a : Argument} {word value : String} : a ∈ options → a.kind.takesValue = true →
      a.Written (some value) word → Names options word [(a, value)] none
  | opens {a : Argument} {word : String} : a ∈ options → a.kind.takesValue = true →
      a.Written none word → Names options word [] (some a)
  | cluster {a : Argument} {letter c : Char} {letters : List Char} {es : Entries}
      {open? : Option Argument} : a ∈ options → a.IsFlag → a.short = some letter → c ≠ '-' →
      Names options (String.ofList ('-' :: c :: letters)) es open? →
      Names options (String.ofList ('-' :: letter :: c :: letters)) ((a, "") :: es) open?

/-- Words that give some entries, behind an argument whose value is the next word or behind none. -/
inductive Says (form : Form) (options : List Argument) :
    Option Argument → List String → Entries → Prop where
  | nothing : Says form options none [] []
  | named {word : String} {words : List String} {es more : Entries} {open? : Option Argument} :
      Names options word es open? → Says form options open? words more →
      Says form options none (word :: words) (es ++ more)
  | value {a : Argument} {word : String} {words : List String} {es : Entries} : IsPlain word →
      Says form options none words es → Says form options (some a) (word :: words) ((a, word) :: es)
  | positional {a : Argument} {word : String} {words : List String} {es : Entries} :
      form.arguments.find? (·.isPositional) = some a → IsPlain word →
      Says form options none words es → Says form options none (word :: words) ((a, word) :: es)
  | trailing {es : Entries} :
      (∀ e ∈ es, form.arguments.find? (·.isPositional) = some e.1) →
      Says form options none ("--" :: es.map Prod.snd) es

/-! ## Words that name arguments -/

section

variable {options : List Argument} {a : Argument} {word : String} {q next : Reading}
  {es : Entries} {open? : Option Argument} {form : Form} {letter : Char} {letters body : List Char}

theorem Argument.IsFound.isOffered (h : a.IsFound options) (hTakes : a.kind.takesValue = true) :
    a.IsOffered options := ⟨hTakes, h.short, h.long⟩

theorem Argument.IsFlag.takesValue (h : a.IsFlag) : a.kind.takesValue = false := by
  rcases h with h | h <;> rw [h] <;> rfl

theorem Vocabulary.isFlag_iff (h : Vocabulary options) (ha : a ∈ options) :
    a.IsFlag ↔ a.kind.takesValue = false ∧ a.key ≠ .help ∧ a.key ≠ .version := by
  have hRequest := (h.request a ha).not
  rw [not_or] at hRequest
  rw [← hRequest, Argument.IsFlag]
  cases a.kind <;> simp [Kind.takesValue]

namespace Reading

theorem mention_of_key (hHelp : a.key ≠ .help) (hVersion : a.key ≠ .version) :
    q.mention a = q.settle >>= fun q => q.give a "" := by
  rw [mention]
  cases hKey : a.key <;> first | rfl | contradiction

theorem key_of_mention (h : q.mention a = .ok next) : a.key ≠ .help ∧ a.key ≠ .version := by
  obtain ⟨q₂, -, hGive⟩ := bind_eq_ok h
  constructor <;> intro hKey <;> rw [hKey] at hGive <;> cases hGive

theorem readWord_flag (hFound : a.IsFound options) (hFlag : a.kind.takesValue = false)
    (h : a.Written none word) (hTrailing : q.trailing = false) :
    q.readWord form options word = q.mention a := by
  have hRefuses : ¬ a.kind.takesValue = true := Bool.eq_false_iff.mp hFlag
  cases h with
  | @short letter hShort =>
    obtain ⟨hNoDash, hFind⟩ := hFound.short _ hShort
    rw [readWord_of_short hTrailing hNoDash String.toList_ofList]
    simp only [readShort, hFind, if_neg hRefuses]
    exact bind_pure _
  | @long name hLong =>
    obtain ⟨hNonempty, hNoEquals, hFind⟩ := hFound.long _ hLong
    obtain ⟨c, cs, hName⟩ := List.exists_cons_of_ne_nil hNonempty
    have hWord : ("--" ++ name).toList = '-' :: '-' :: c :: cs := by simp [hName]
    rw [readWord_of_long hTrailing hWord, ← hName, readLong_of_find hNoEquals hFind,
      if_neg hRefuses]

theorem gives_of_names (hVocabulary : Vocabulary options) (h : Names options word es open?)
    (hTrailing : q.trailing = false) (hOpened : q.opened? = none) :
    Gives (q.readWord form options word) q es open? := by
  have hFlagGives {a : Argument} {q : Reading} (ha : a ∈ options) (hFlag : a.IsFlag)
      (hOpened : q.opened? = none) : Gives (q.mention a) q [(a, "")] none := by
    obtain ⟨-, hHelp, hVersion⟩ := (hVocabulary.isFlag_iff ha).mp hFlag
    rw [mention_of_key hHelp hVersion]
    exact gives_settle_give hOpened a ""
  induction h generalizing q with
  | flag ha hFlag hWritten =>
    rw [readWord_flag (hVocabulary.found _ ha) hFlag.takesValue hWritten hTrailing]
    exact hFlagGives ha hFlag hOpened
  | value ha hTakes hWritten =>
    rw [hWritten.readWord ((hVocabulary.found _ ha).isOffered hTakes) hTrailing]
    exact gives_expect_some hOpened _ _
  | opens ha hTakes hWritten =>
    rw [hWritten.readWord ((hVocabulary.found _ ha).isOffered hTakes) hTrailing]
    exact gives_expect_none hOpened _
  | @cluster a letter c letters es open? ha hFlag hShort hNoDash _ ih =>
    obtain ⟨hLetter, hFind⟩ := (hVocabulary.found _ ha).short _ hShort
    have hRefuses : ¬ a.kind.takesValue = true := Bool.eq_false_iff.mp hFlag.takesValue
    have hWord : q.readWord form options (String.ofList ('-' :: letter :: c :: letters)) =
        q.mention a >>= fun next => readShort options next (c :: letters) := by
      rw [readWord_of_short hTrailing hLetter String.toList_ofList]
      simp only [readShort, hFind, if_neg hRefuses]
    rw [hWord]
    refine (hFlagGives ha hFlag hOpened).bind fun next hNext => ?_
    have hRest := hNext.trailing.trans hTrailing
    have hLetters := ih hRest hNext.opened
    rwa [readWord_of_short hRest hNoDash String.toList_ofList] at hLetters

theorem opened?_of_mention (h : q.mention a = .ok next) : q.opened? = none := by
  obtain ⟨q₂, hSettle, -⟩ := mention_eq_ok h
  exact opened?_of_settle hSettle

theorem opened?_of_expect {v : Option String} (h : q.expect a v = .ok next) :
    q.opened? = none := by
  obtain ⟨q₂, hSettle, -⟩ := expect_eq_ok_iff.mp h
  exact opened?_of_settle hSettle

theorem exists_names_of_readShort (hVocabulary : Vocabulary options)
    (h : readShort options q (letter :: letters) = .ok next) :
    q.opened? = none ∧ letter ≠ '-' ∧
      ∃ es open?, Names options (String.ofList ('-' :: letter :: letters)) es open? := by
  induction letters generalizing q letter with
  | nil =>
    obtain ⟨b, hb, hShort, ⟨hFlag, q₂, hMention, -⟩ | ⟨hTakes, v, hExpect, -⟩⟩ :=
      readShort_cons_eq_ok h
    · have hIsFlag := (hVocabulary.isFlag_iff hb).mpr ⟨hFlag, key_of_mention hMention⟩
      exact ⟨opened?_of_mention hMention, ((hVocabulary.found b hb).short _ hShort).1,
        _, _, .flag hb hIsFlag (.short hShort)⟩
    · exact ⟨opened?_of_expect hExpect, ((hVocabulary.found b hb).short _ hShort).1,
        _, _, .opens hb hTakes (.short hShort)⟩
  | cons c letters ih =>
    obtain ⟨b, hb, hShort, ⟨hFlag, q₂, hMention, hRest⟩ | ⟨hTakes, v, hExpect, -⟩⟩ :=
      readShort_cons_eq_ok h
    · have hIsFlag := (hVocabulary.isFlag_iff hb).mpr ⟨hFlag, key_of_mention hMention⟩
      obtain ⟨-, hNoDash, es, open?, hNames⟩ := ih hRest
      exact ⟨opened?_of_mention hMention, ((hVocabulary.found b hb).short _ hShort).1,
        _, _, .cluster hb hIsFlag hShort hNoDash hNames⟩
    · refine ⟨opened?_of_expect hExpect, ((hVocabulary.found b hb).short _ hShort).1, ?_⟩
      by_cases hEquals : c = '='
      · subst hEquals
        have hWritten : b.Written (some (String.ofList letters))
            (String.ofList ['-', letter, '='] ++ String.ofList letters) := .shortEquals hShort
        rw [← String.ofList_append] at hWritten
        exact ⟨_, _, .value hb hTakes hWritten⟩
      · have hWritten : b.Written (some (String.ofList (c :: letters)))
            (String.ofList ['-', letter] ++ String.ofList (c :: letters)) :=
          .shortWith hShort (by simp) (by simpa using hEquals)
        rw [← String.ofList_append] at hWritten
        exact ⟨_, _, .value hb hTakes hWritten⟩

theorem written_of_equals {rest : List Char}
    (hRest : body.dropWhile (· ≠ '=') = '=' :: rest)
    (hLong : a.long = some (String.ofList (body.takeWhile (· ≠ '=')))) :
    a.Written (some (String.ofList rest)) (String.ofList ('-' :: '-' :: body)) := by
  have hBody : body.takeWhile (· ≠ '=') ++ '=' :: rest = body := by
    rw [← hRest, List.takeWhile_append_dropWhile]
  generalize body.takeWhile (· ≠ '=') = name at hLong hBody
  subst hBody
  have hWord : String.ofList ('-' :: '-' :: (name ++ '=' :: rest)) =
      "--" ++ String.ofList name ++ "=" ++ String.ofList rest := String.toList_inj.mp (by simp)
  rw [hWord]
  exact .longEquals hLong

theorem written_of_no_equals (hNoEquals : ∀ rest, body.dropWhile (· ≠ '=') = '=' :: rest → False)
    (hLong : a.long = some (String.ofList (body.takeWhile (· ≠ '=')))) :
    a.Written none (String.ofList ('-' :: '-' :: body)) := by
  rw [takeWhile_eq_self hNoEquals] at hLong
  have hWord : String.ofList ('-' :: '-' :: body) = "--" ++ String.ofList body :=
    String.toList_inj.mp (by simp)
  rw [hWord]
  exact .long hLong

theorem exists_names_of_readLong (hVocabulary : Vocabulary options)
    (h : q.readLong options body = .ok next) :
    q.opened? = none ∧
      ∃ es open?, Names options (String.ofList ('-' :: '-' :: body)) es open? := by
  unfold readLong at h
  dsimp only at h
  split at h
  · cases h
  · rename_i b hFind
    have hb := List.mem_of_find?_eq_some hFind
    have hLong : b.long = some (String.ofList (body.takeWhile (· ≠ '='))) := by
      simpa using List.find?_some hFind
    split at h
    · rename_i hTakes
      refine ⟨opened?_of_expect h, ?_⟩
      split at h
      · exact ⟨_, _, .value hb hTakes (written_of_equals ‹_› hLong)⟩
      · exact ⟨_, _, .opens hb hTakes (written_of_no_equals ‹_› hLong)⟩
    · rename_i hRefuses
      split at h
      · cases h
      · have hFlag := (hVocabulary.isFlag_iff hb).mpr
          ⟨Bool.eq_false_iff.mpr hRefuses, key_of_mention h⟩
        exact ⟨opened?_of_mention h, _, _, .flag hb hFlag (written_of_no_equals ‹_› hLong)⟩

end Reading

end

/-! ## The words of one command -/

section

variable {options : List Argument} {a : Argument} {word : String} {words : List String}
  {q r next : Reading} {es more : Entries} {open? : Option Argument} {form : Form} {t : Settings}

def Reading.EndsIn (form : Form) (options : List Argument) (r : Reading) (words : List String)
    (t : Settings) : Prop :=
  ∃ last q, words.foldlM (Reading.readWord form options) r = .ok last ∧ last.settle = .ok q ∧
    q.settings = t

namespace Reading

theorem endsIn_nil_iff : r.EndsIn form options [] t ↔ r.opened? = none ∧ r.Reaches [] t := by
  constructor
  · rintro ⟨last, q, hRead, hSettle, rfl⟩
    obtain rfl := Except.ok.inj hRead
    obtain ⟨hOpened, hWaiting, rfl⟩ := settle_eq_ok_iff_fit.mp hSettle
    exact ⟨hOpened, (List.append_nil r.waiting).symm ▸ hWaiting, by rw [List.append_nil]⟩
  · rintro ⟨hOpened, hFit, rfl⟩
    rw [List.append_nil] at hFit ⊢
    exact ⟨r, _, rfl, settle_eq_ok_iff_fit.mpr ⟨hOpened, hFit, rfl⟩, rfl⟩

theorem endsIn_cons_iff : r.EndsIn form options (word :: words) t ↔
    ∃ next, r.readWord form options word = .ok next ∧ next.EndsIn form options words t := by
  constructor
  · rintro ⟨last, q, hRead, hEnd⟩
    rw [List.foldlM_cons] at hRead
    obtain ⟨next, hWord, hWords⟩ := bind_eq_ok hRead
    exact ⟨next, hWord, last, q, hWords, hEnd⟩
  · rintro ⟨next, hWord, last, q, hWords, hEnd⟩
    refine ⟨last, q, ?_, hEnd⟩
    rw [List.foldlM_cons]
    exact (bind_of_ok hWord).trans hWords

/-! ### Words that name nothing -/

theorem gives_readStray (hPositional : form.arguments.find? (·.isPositional) = some a)
    (hOpened : r.opened? = none) : Gives (r.readStray form word) r [(a, word)] none := by
  rw [readStray, hPositional]
  exact gives_settle_give hOpened a word

theorem positional_of_readStray (h : r.readStray form word = .ok next) :
    r.opened? = none ∧ ∃ a, form.arguments.find? (·.isPositional) = some a := by
  obtain ⟨b, q, hSettle, -⟩ := readStray_eq_ok h
  refine ⟨opened?_of_settle hSettle, ?_⟩
  cases hPositional : form.arguments.find? (·.isPositional) with
  | some a => exact ⟨a, rfl⟩
  | none =>
    rw [readStray, hPositional] at h
    dsimp only at h
    split at h <;> cases h

theorem pending_of_opened? (h : r.opened? = some a) : r.pending = some ⟨a, none⟩ := by
  rw [opened?] at h
  split at h
  · rename_i hPending
    cases h
    exact hPending
  · cases h

theorem readWord_of_opened (hTrailing : r.trailing = false) (hPlain : IsPlain word)
    (hOpened : r.opened? = some a) :
    r.readWord form options word = .ok { r with pending := some ⟨a, some word⟩ } := by
  rw [readWord_of_plain hTrailing hPlain, awaitsValue, pending_of_opened? hOpened]
  rfl

theorem readWord_of_closed (hTrailing : r.trailing = false) (hPlain : IsPlain word)
    (hOpened : r.opened? = none) :
    r.readWord form options word = r.readStray form word := by
  have hClosed : r.awaitsValue = false := by
    rw [awaitsValue]
    split
    · rename_i hPending
      rw [opened?, hPending] at hOpened
      cases hOpened
    · rfl
  rw [readWord_of_plain hTrailing hPlain, hClosed, if_neg Bool.false_ne_true]

theorem reaches_of_opened (hOpened : r.opened? = some a) :
    Reaches { r with pending := some ⟨a, some word⟩ } es t ↔ r.Reaches ((a, word) :: es) t := by
  have hWaiting : r.waiting = [] := by rw [waiting, pending_of_opened? hOpened]
  constructor
  · rintro ⟨hFit, rfl⟩
    exact ⟨by rw [hWaiting]; exact hFit, by rw [hWaiting]; rfl⟩
  · rintro ⟨hFit, rfl⟩
    rw [hWaiting] at hFit ⊢
    exact ⟨hFit, rfl⟩

theorem endsIn_of_trailing_iff (hTrailing : r.trailing = true) :
    r.EndsIn form options words t ↔ r.opened? = none ∧
      ∃ es : Entries, (∀ e ∈ es, form.arguments.find? (·.isPositional) = some e.1) ∧
        words = es.map Prod.snd ∧ r.Reaches es t := by
  induction words generalizing r with
  | nil =>
    rw [endsIn_nil_iff]
    refine and_congr_right fun _ => ⟨fun h => ⟨[], List.forall_mem_nil _, rfl, h⟩, ?_⟩
    rintro ⟨es, -, hWords, h⟩
    obtain rfl := List.map_eq_nil_iff.mp hWords.symm
    exact h
  | cons word words ih =>
    rw [endsIn_cons_iff, readWord_of_trailing hTrailing]
    constructor
    · rintro ⟨next, hWord, hWords⟩
      obtain ⟨hOpened, a, hPositional⟩ := positional_of_readStray hWord
      have hPasses := (gives_readStray hPositional hOpened).passes hWord
      obtain ⟨-, es, hAll, rfl, hReaches⟩ := (ih (hPasses.trailing.trans hTrailing)).mp hWords
      exact ⟨hOpened, (a, word) :: es, List.forall_mem_cons.mpr ⟨hPositional, hAll⟩, rfl,
        hPasses.reaches.mp hReaches⟩
    · rintro ⟨hOpened, es, hAll, hWords, hReaches⟩
      obtain ⟨⟨a, value⟩, es, rfl, rfl, rfl⟩ := List.map_eq_cons_iff.mp hWords.symm
      obtain ⟨hPositional, hAll⟩ := List.forall_mem_cons.mp hAll
      have hGives : Gives (r.readStray form value) r [(a, value)] none :=
        gives_readStray hPositional hOpened
      have hNext : r.Reaches ([(a, value)] ++ es) t := hReaches
      obtain ⟨next, hWord⟩ := hGives.succeeds hNext
      have hPasses := hGives.passes hWord
      exact ⟨next, hWord, (ih (hPasses.trailing.trans hTrailing)).mpr
        ⟨hPasses.opened, es, hAll, rfl, hPasses.reaches.mpr hReaches⟩⟩

theorem endsIn_of_gives (hGives : Gives (r.readWord form options word) r es open?)
    (hReaches : r.Reaches (es ++ more) t)
    (hWords : ∀ {next : Reading}, next.trailing = r.trailing → next.opened? = open? →
      next.Reaches more t → next.EndsIn form options words t) :
    r.EndsIn form options (word :: words) t := by
  obtain ⟨next, hWord⟩ := hGives.succeeds hReaches
  have hPasses := hGives.passes hWord
  exact endsIn_cons_iff.mpr ⟨next, hWord,
    hWords hPasses.trailing hPasses.opened (hPasses.reaches.mpr hReaches)⟩

theorem endsIn_of_says (hVocabulary : Vocabulary options)
    (h : Says form options open? words es) (hTrailing : r.trailing = false)
    (hOpened : r.opened? = open?) (hReaches : r.Reaches es t) : r.EndsIn form options words t := by
  induction h generalizing r with
  | nothing => exact endsIn_nil_iff.mpr ⟨hOpened, hReaches⟩
  | named hNames _ ih =>
    exact endsIn_of_gives (gives_of_names hVocabulary hNames hTrailing hOpened) hReaches
      fun hSame => ih (hSame.trans hTrailing)
  | value hPlain _ ih =>
    refine endsIn_cons_iff.mpr ⟨_, readWord_of_opened hTrailing hPlain hOpened, ?_⟩
    exact ih hTrailing rfl ((reaches_of_opened hOpened).mpr hReaches)
  | @positional a word words es hPositional hPlain _ ih =>
    have hStray : Gives (r.readWord form options word) r [(a, word)] none := by
      rw [readWord_of_closed hTrailing hPlain hOpened]
      exact gives_readStray hPositional hOpened
    exact endsIn_of_gives hStray hReaches fun hSame => ih (hSame.trans hTrailing)
  | trailing hAll =>
    refine endsIn_cons_iff.mpr ⟨_, readWord_of_dashes hTrailing rfl, ?_⟩
    exact (endsIn_of_trailing_iff rfl).mpr
      ⟨hOpened, _, hAll, rfl, hReaches.fit, hReaches.settings⟩

theorem exists_names (hVocabulary : Vocabulary options)
    (h : r.readWord form options word = .ok next) (hTrailing : r.trailing = false)
    (hPlain : ¬ IsPlain word) (hDashes : word ≠ "--") :
    r.opened? = none ∧ ∃ es open?, Names options word es open? := by
  cases shape word with
  | dashes hChars => exact absurd (String.toList_inj.mp hChars) hDashes
  | long hChars =>
    rw [readWord_of_long hTrailing hChars] at h
    obtain ⟨hOpened, hNames⟩ := exists_names_of_readLong hVocabulary h
    rw [← hChars, String.ofList_toList] at hNames
    exact ⟨hOpened, hNames⟩
  | short hNoDash hChars =>
    rw [readWord_of_short hTrailing hNoDash hChars] at h
    obtain ⟨hOpened, -, hNames⟩ := exists_names_of_readShort hVocabulary h
    rw [← hChars, String.ofList_toList] at hNames
    exact ⟨hOpened, hNames⟩
  | plain hYes => exact absurd hYes hPlain

theorem exists_says (hVocabulary : Vocabulary options) (hTrailing : r.trailing = false)
    (h : r.EndsIn form options words t) :
    ∃ es, Says form options r.opened? words es ∧ r.Reaches es t := by
  -- A value may wait between two words, so the induction is over all readings and not only over
  -- those where nothing waits.
  induction words generalizing r with
  | nil =>
    obtain ⟨hOpened, hReaches⟩ := endsIn_nil_iff.mp h
    exact ⟨[], hOpened ▸ .nothing, hReaches⟩
  | cons word words ih =>
    obtain ⟨next, hWord, hWords⟩ := endsIn_cons_iff.mp h
    have hBehind {es : Entries} {open? : Option Argument} (hPasses : Passes r es open? next) :
        ∃ more, Says form options open? words more ∧ r.Reaches (es ++ more) t := by
      obtain ⟨more, hSays, hReaches⟩ := ih (hPasses.trailing.trans hTrailing) hWords
      exact ⟨more, hPasses.opened ▸ hSays, hPasses.reaches.mp hReaches⟩
    by_cases hDashes : word = "--"
    · subst hDashes
      obtain rfl := Except.ok.inj ((readWord_of_dashes hTrailing rfl).symm.trans hWord)
      obtain ⟨hOpened, es, hAll, rfl, hReaches⟩ := (endsIn_of_trailing_iff rfl).mp hWords
      have hBefore : r.opened? = none := hOpened
      exact ⟨es, hBefore ▸ .trailing hAll, hReaches.fit, hReaches.settings⟩
    by_cases hPlain : IsPlain word
    · cases hOpened : r.opened? with
      | some a =>
        obtain rfl :=
          Except.ok.inj ((readWord_of_opened hTrailing hPlain hOpened).symm.trans hWord)
        have hTrailingStill : Reading.trailing { r with pending := some ⟨a, some word⟩ } = false :=
          hTrailing
        obtain ⟨es, hSays, hReaches⟩ := ih hTrailingStill hWords
        exact ⟨(a, word) :: es, .value hPlain hSays, (reaches_of_opened hOpened).mp hReaches⟩
      | none =>
        rw [readWord_of_closed hTrailing hPlain hOpened] at hWord
        obtain ⟨-, a, hPositional⟩ := positional_of_readStray hWord
        obtain ⟨es, hSays, hReaches⟩ :=
          hBehind ((gives_readStray hPositional hOpened).passes hWord)
        exact ⟨(a, word) :: es, .positional hPositional hPlain hSays, hReaches⟩
    · obtain ⟨hOpened, es, open?, hNames⟩ := exists_names hVocabulary hWord hTrailing hPlain hDashes
      obtain ⟨more, hSays, hReaches⟩ :=
        hBehind ((gives_of_names hVocabulary hNames hTrailing hOpened).passes hWord)
      exact ⟨es ++ more, hOpened ▸ .named hNames hSays, hReaches⟩

theorem endsIn_iff_says (hVocabulary : Vocabulary options) :
    EndsIn form options {} words t ↔
      ∃ es : Entries, Says form options none words es ∧ es.Fit [] ∧ t = es.settings := by
  constructor
  · intro h
    obtain ⟨es, hSays, hFit, hSettings⟩ := exists_says hVocabulary rfl h
    exact ⟨es, hSays, hFit, hSettings⟩
  · rintro ⟨es, hSays, hFit, hSettings⟩
    exact endsIn_of_says hVocabulary hSays rfl rfl ⟨hFit, hSettings⟩

end Reading

end

end LiteralLint.CommandLine
