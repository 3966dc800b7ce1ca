import LiteralLint.Proofs.Check.Run
import LiteralLint.Proofs.Text.Digits
import LiteralLint.Proofs.Text.Lines

/-! # The lines of a check

A check without colours prints each diagnostic behind the path of its file and its place. The
message repeats the value and the allow-list as they are, so that it is one line unless one of them
has a line feed, and then it goes on over the lines that follow. -/

set_option autoImplicit false

namespace LiteralLint

section

variable {allow : AllowList} {value : String} {range : Range}

theorem AllowList.feed_mem_describe_iff :
    '\n' ∈ allow.describe.toList ↔ ∃ value ∈ allow.values, '\n' ∈ value.toList := by
  rw [describe]
  split
  · rename_i hEmpty
    rw [isEmpty, List.isEmpty_iff] at hEmpty
    simp [hEmpty]
  · exact mem_toList_intercalate_iff (by decide)

theorem feed_mem_message_iff :
    '\n' ∈ (Diagnostic.invalidFormat value range allow).message.toList ↔
      '\n' ∈ value.toList ∨ ∃ value ∈ allow.values, '\n' ∈ value.toList := by
  rw [← AllowList.feed_mem_describe_iff]
  change '\n' ∈ ("Invalid format '" ++ value ++ "'. Allowed formats: " ++ allow.describe ++
    ".").toList ↔ _
  simp

end

namespace Check

open Output

/-- The line begins with one of the paths, the place of a diagnostic and its kind. -/
def Announces (paths : List String) (line : String) : Prop :=
  ∃ path ∈ paths, ∃ (row column : Nat) (message : String),
    line = path ++ ":" ++ toString row ++ ":" ++ toString column ++ ": warning[invalid-format]: " ++
      message

def located (results : List Outcome) : List (String × Diagnostic) :=
  (reports results).flatMap fun report => report.diagnostics.map fun d => (report.uri, d)

def heading (path : String) (d : Diagnostic) : String :=
  path ++ ":" ++ toString (d.range.start.line + 1) ++ ":" ++
    toString (d.range.start.character + 1) ++
    ": warning[invalid-format]: "

/-- The last line, if every file could be checked and has no diagnostics. -/
def closing (results : List Outcome) : List String :=
  if diagnosticCount results = 0 ∧ failedCount results = 0 then
    ["OK: " ++ toString results.length ++ " file(s) checked, no invalid format values"]
  else []

/-- There is one line for each diagnostic, which announces it, and no other but the last one. -/
def OneLineEach (stdout : String) (paths : List String) (results : List Outcome) : Prop :=
  ∃ ls, HasLines stdout (ls ++ closing results) ∧ ls.length = diagnosticCount results ∧
    (∀ l ∈ ls, Announces paths l) ∧ ∀ l ∈ closing results, ¬ Announces paths l

section

variable {results : List Outcome} {paths : List String} {line path stdout : String} {d : Diagnostic}
  {value : String} {range : Range} {allow : AllowList}

theorem length_located (results : List Outcome) :
    (located results).length = diagnosticCount results := by
  rw [← findingCount_eq, findingCount, located, List.length_flatMap, List.length_flatMap]
  simp

theorem not_mem_natRepr {c : Char} (h : c.isDigit = false) (n : Nat) : c ∉ (toString n).toList :=
  fun hMem => Bool.false_ne_true (h.symm.trans (Text.isDigit_of_mem_natRepr hMem))

theorem not_mem_closing {c : Char} (h : c.isDigit = false)
    (hWords : c ∉ "OK: ".toList ∧ c ∉ " file(s) checked, no invalid format values".toList)
    (hLine : line ∈ closing results) : c ∉ line.toList := by
  unfold closing at hLine
  split at hLine
  · rw [List.mem_singleton.mp hLine, String.toList_append, String.toList_append, List.mem_append,
      List.mem_append, not_or, not_or]
    exact ⟨⟨hWords.1, not_mem_natRepr h _⟩, hWords.2⟩
  · cases hLine

theorem not_announces_of_mem_closing (h : line ∈ closing results) : ¬ Announces paths line := by
  rintro ⟨path, -, row, column, message, rfl⟩
  exact not_mem_closing (c := '[') (by decide) (by decide) h (by simp)

theorem announces_heading (hPath : path ∈ paths) (d : Diagnostic) (text : String) :
    Announces paths (heading path d ++ text) :=
  ⟨path, hPath, _, _, text, rfl⟩

theorem feed_not_mem_heading (h : '\n' ∉ path.toList) (d : Diagnostic) :
    '\n' ∉ (heading path d).toList := by
  simp only [heading, String.toList_append, List.mem_append, not_or]
  exact ⟨⟨⟨⟨⟨h, by decide⟩, not_mem_natRepr (by decide) _⟩, by decide⟩,
    not_mem_natRepr (by decide) _⟩, by decide⟩

theorem diagnosticText_invalidFormat (path value : String) (range : Range) (allow : AllowList) :
    let d := Diagnostic.invalidFormat value range allow
    diagnosticText false path d = heading path d ++ d.message := by
  have hKind : ": warning[invalid-format]: " = ": " ++ ("warning" ++ ("[" ++ ("invalid-format" ++
    "]: "))) := rfl
  have hSeverity : (Diagnostic.invalidFormat value range allow).severity.name = "warning" := rfl
  have hCode : (Diagnostic.invalidFormat value range allow).code = "invalid-format" := rfl
  simp only [diagnosticText, Style.paintIf_false, heading, toString_text, hSeverity, hCode, hKind,
    String.append_assoc]

theorem texts_eq (h : ∀ result ∈ results, result.Coherent)
    (hFormat : ∀ f ∈ located results, ∃ value range allow,
      f.2 = Diagnostic.invalidFormat value range allow) :
    texts false results =
      (located results).map (fun f => heading f.1 f.2 ++ f.2.message) ++ closing results := by
  have hTexts : (reports results).flatMap (reportTexts false) =
      (located results).map fun f => heading f.1 f.2 ++ f.2.message := by
    have hPlain : (located results).map (fun f => heading f.1 f.2 ++ f.2.message) =
        (located results).map fun f => diagnosticText false f.1 f.2 := by
      refine List.map_congr_left fun f hf => ?_
      obtain ⟨value, range, allow, hDiagnostic⟩ := hFormat f hf
      rw [hDiagnostic, diagnosticText_invalidFormat]
    rw [hPlain, located, List.map_flatMap]
    refine congrArg (List.flatMap · (reports results)) (funext fun report => ?_)
    rw [List.map_map]
    rfl
  have hCount := length_reports_add results
  rw [texts, hTexts, failure_text h, closing]
  refine congrArg _ ?_
  split
  · rename_i hClean
    rw [hClean.2, Nat.add_zero] at hCount
    rw [Option.isNone_none, if_pos rfl, successText_eq, hCount]
  · rfl

end

section

variable {s : Surroundings} {config : Config} {arguments : Arguments} {f : String × Diagnostic}

theorem mem_located_outcomes_iff : f ∈ located (outcomes s config arguments) ↔
    ∃ path ∈ arguments.files, ∃ text, s.readInput path config.inputLimit = .ok text ∧
      ∃ l ∈ refused text (allowList config arguments path),
        f = (path, Diagnostic.invalidFormat l.value (l.rangeIn text.toList)
          (allowList config arguments path)) := by
  simp only [located, reports, outcomes, List.mem_flatMap, List.mem_filterMap, List.mem_map,
    exists_exists_and_eq_and]
  constructor
  · rintro ⟨report, ⟨path, hPath, hReport⟩, d, hd, rfl⟩
    cases hRead : s.readInput path config.inputLimit with
    | error e =>
      rw [outcome_of_checkFile_error (checkFile_of_readInput_error hRead)] at hReport
      cases hReport
    | ok text =>
      rw [outcome_of_checkFile_ok (checkFile_of_readInput_ok hRead (checkText_eq_map_refused _ _))]
        at hReport
      cases hReport
      obtain ⟨l, hl, rfl⟩ := List.mem_map.mp hd
      exact ⟨path, hPath, text, hRead, l, hl, rfl⟩
  · rintro ⟨path, hPath, text, hRead, l, hl, rfl⟩
    have hChecked : outcome s config arguments path = .checked _ :=
      outcome_of_checkFile_ok (checkFile_of_readInput_ok hRead (checkText_eq_map_refused _ _))
    exact ⟨_, ⟨path, hPath, by rw [hChecked]; rfl⟩, _, List.mem_map_of_mem hl, rfl⟩

theorem texts_outcomes_eq (s : Surroundings) (config : Config) (arguments : Arguments) :
    texts false (outcomes s config arguments) =
      (located (outcomes s config arguments)).map (fun f => heading f.1 f.2 ++ f.2.message) ++
        closing (outcomes s config arguments) := by
  refine texts_eq (fun _ h => coherent_of_mem_outcomes h) fun f hf => ?_
  obtain ⟨path, -, text, -, l, -, rfl⟩ := mem_located_outcomes_iff.mp hf
  exact ⟨_, _, _, rfl⟩

/-- A message that begins on the line of its heading goes on over lines of its own. -/
theorem hasLines_stdout (s : Surroundings) (config : Config) (arguments : Arguments) :
    HasLines (run s config false .never arguments).stdout
      ((located (outcomes s config arguments)).flatMap
          (fun f => linesOf (heading f.1 f.2 ++ f.2.message)) ++
        closing (outcomes s config arguments)) := by
  have hAll := hasLines_lines (texts false (outcomes s config arguments))
  have hClosing : (closing (outcomes s config arguments)).flatMap linesOf =
      closing (outcomes s config arguments) := by
    have hPlain : ∀ l ∈ closing (outcomes s config arguments), linesOf l = [l] := fun l hl =>
      linesOf_of_not_mem (not_mem_closing (by decide) (by decide) hl)
    rw [List.flatMap_congr hPlain, List.flatMap_singleton']
  rw [texts_outcomes_eq, List.flatMap_append, List.flatMap_map, hClosing,
    ← texts_outcomes_eq] at hAll
  exact hAll

theorem mem_files_of_mem_located (h : f ∈ located (outcomes s config arguments)) :
    f.1 ∈ arguments.files := by
  obtain ⟨path, hPath, -, -, -, -, rfl⟩ := mem_located_outcomes_iff.mp h
  exact hPath

theorem length_flatMap_located_eq_iff (hPaths : ∀ path ∈ arguments.files, '\n' ∉ path.toList) :
    ((located (outcomes s config arguments)).flatMap
        fun f => linesOf (heading f.1 f.2 ++ f.2.message)).length =
        diagnosticCount (outcomes s config arguments) ↔
      ∀ f ∈ located (outcomes s config arguments), '\n' ∉ f.2.message.toList := by
  have hTexts := @length_flatMap_eq_iff
    ((located (outcomes s config arguments)).map fun f => heading f.1 f.2 ++ f.2.message)
  rw [List.flatMap_map, List.length_map, length_located, List.forall_mem_map] at hTexts
  refine hTexts.trans (forall₂_congr fun f hf => not_congr ?_)
  have hHeading := feed_not_mem_heading (hPaths _ (mem_files_of_mem_located hf)) f.2
  rw [String.toList_append, List.mem_append, or_iff_right hHeading]

theorem oneLineEach_iff (hPaths : ∀ path ∈ arguments.files, '\n' ∉ path.toList) :
    OneLineEach (run s config false .never arguments).stdout arguments.files
        (outcomes s config arguments) ↔
      ∀ f ∈ located (outcomes s config arguments), '\n' ∉ f.2.message.toList := by
  have hStdout := hasLines_stdout s config arguments
  have hCount := @length_flatMap_located_eq_iff s config arguments hPaths
  constructor
  · rintro ⟨ls, hLines, hLength, -, -⟩
    rw [← hCount, ← List.append_cancel_right (hLines.unique hStdout), hLength]
  · intro hPlain
    refine ⟨_, hStdout, hCount.mpr hPlain, ?_, fun l hl => not_announces_of_mem_closing hl⟩
    intro l hl
    obtain ⟨f, hf, hLine⟩ := List.mem_flatMap.mp hl
    have hPath := mem_files_of_mem_located hf
    obtain ⟨first, rest, hMessage, hBoth⟩ :=
      linesOf_append (feed_not_mem_heading (hPaths _ hPath) f.2) f.2.message
    rw [linesOf_of_not_mem (hPlain f hf)] at hMessage
    obtain ⟨rfl, rfl⟩ := List.cons.inj hMessage
    rw [hBoth, List.mem_singleton] at hLine
    exact hLine ▸ announces_heading hPath f.2 f.2.message

/-- The diagnostics are printed one after the other, each on a line that begins with the path of
its file, its place and its kind. A message goes on over further lines where it has line feeds, and
they come from the value or from the allow-list, which it repeats: there is one line for each
diagnostic, and none besides but the last one, exactly if neither has any. -/
theorem run_lines (hPaths : ∀ path ∈ arguments.files, '\n' ∉ path.toList) :
    let results := outcomes s config arguments
    let stdout := (run s config false .never arguments).stdout
    (∃ blocks : List (List String), HasLines stdout (blocks.flatten ++ closing results) ∧
      List.Forall₂ (fun f block => f.1 ∈ arguments.files ∧ ∃ first rest,
          linesOf f.2.message = first :: rest ∧ block = (heading f.1 f.2 ++ first) :: rest)
        (located results) blocks) ∧
    (located results).length = diagnosticCount results ∧
    (OneLineEach stdout arguments.files results ↔
      ∀ path ∈ arguments.files, ∀ text, s.readInput path config.inputLimit = .ok text →
        ∀ l ∈ refused text (allowList config arguments path), '\n' ∉ l.value.toList ∧
          ∀ value ∈ (allowList config arguments path).values, '\n' ∉ value.toList) := by
  intro results stdout
  refine ⟨⟨_, hasLines_stdout s config arguments, ?_⟩, length_located results, ?_⟩
  · rw [List.forall₂_map_right_iff, List.forall₂_same]
    intro f hf
    have hPath := mem_files_of_mem_located hf
    obtain ⟨first, rest, hMessage, hBoth⟩ :=
      linesOf_append (feed_not_mem_heading (hPaths _ hPath) f.2) f.2.message
    exact ⟨hPath, first, rest, hMessage, hBoth⟩
  · refine (oneLineEach_iff hPaths).trans ?_
    simp only [mem_located_outcomes_iff]
    constructor
    · intro h path hPath text hRead l hl
      have hMessage := h _ ⟨path, hPath, text, hRead, l, hl, rfl⟩
      rw [feed_mem_message_iff, not_or, not_exists] at hMessage
      exact ⟨hMessage.1, fun value hValue hFeed => hMessage.2 value ⟨hValue, hFeed⟩⟩
    · rintro h _ ⟨path, hPath, text, hRead, l, hl, rfl⟩
      obtain ⟨hValue, hValues⟩ := h path hPath text hRead l hl
      rw [feed_mem_message_iff, not_or]
      exact ⟨hValue, fun ⟨value, hMem, hFeed⟩ => hValues value hMem hFeed⟩

end

def holding (text : String) : Surroundings where
  tree := ⟨[(["a.ts"], .file text.toUTF8)]⟩
  directory := []
  environment := []
  today := "2026-01-01"

/-- The two findings have a line each, although the second literal goes over a line. -/
theorem run_lines_twoFindings :
    (∀ path ∈ ["a.ts"], '\n' ∉ path.toList) ∧
    OneLineEach
      (run (holding "format: 'gif', format\n: 'bmp'") .standard false .never ⟨["a.ts"], []⟩).stdout
      ["a.ts"] (outcomes (holding "format: 'gif', format\n: 'bmp'") .standard ⟨["a.ts"], []⟩) := by
  have hPaths : ∀ path ∈ ["a.ts"], '\n' ∉ path.toList := by decide
  obtain ⟨-, -, hLines⟩ :=
    @run_lines (holding "format: 'gif', format\n: 'bmp'") .standard ⟨["a.ts"], []⟩ hPaths
  refine ⟨hPaths, hLines.mpr ?_⟩
  rw [List.forall_mem_singleton]
  intro text hRead
  have hText : (holding "format: 'gif', format\n: 'bmp'").readInput "a.ts"
      Config.standard.inputLimit = .ok "format: 'gif', format\n: 'bmp'" := by rfl
  rw [hText] at hRead
  obtain rfl := Except.ok.inj hRead
  decide +kernel

/-- A value that goes over a line is repeated in the message, which takes two lines then. -/
theorem not_oneLineEach_spanning :
    ¬ ∀ (s : Surroundings) (config : Config) (arguments : Arguments),
      (∀ path ∈ arguments.files, '\n' ∉ path.toList) →
      OneLineEach (run s config false .never arguments).stdout arguments.files
        (outcomes s config arguments) := by
  intro h
  have hPaths : ∀ path ∈ ["a.ts"], '\n' ∉ path.toList := by decide
  have hPlain := (oneLineEach_iff hPaths).mp
    (h (holding "format: 'a\nb'") .standard ⟨["a.ts"], []⟩ hPaths)
  have hSpans : ((located (outcomes (holding "format: 'a\nb'") .standard ⟨["a.ts"], []⟩)).any
      fun f => f.2.message.toList.contains '\n') = true := by decide +kernel
  obtain ⟨f, hf, hFeed⟩ := List.any_eq_true.mp hSpans
  exact hPlain f hf (List.contains_iff_mem.mp hFeed)

end Check

end LiteralLint
