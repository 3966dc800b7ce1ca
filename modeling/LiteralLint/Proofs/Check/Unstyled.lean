import LiteralLint.Info
import LiteralLint.Proofs.AllowList.Construction
import LiteralLint.Proofs.Check.Verdict
import LiteralLint.Proofs.Config.Messages

/-! # Unstyled outcomes

A check without colours prints nothing but paths, parts of the files, allowed values and fixed
texts, and it prints unstyled text if none of these is styled. The text about the configuration is
styled even so. -/

set_option autoImplicit false

namespace LiteralLint

def AllowList.Unstyled (allow : AllowList) : Prop :=
  ∀ value ∈ allow.values, LiteralLint.Unstyled value

section

variable {allow : AllowList} {value : String} {values : List String}

theorem AllowList.unstyled_ofList (h : ∀ value ∈ values, LiteralLint.Unstyled value) :
    (AllowList.ofList values).Unstyled :=
  fun value hMem => h value (mem_values_ofList.mp hMem)

theorem AllowList.unstyled_describe (h : allow.Unstyled) :
    LiteralLint.Unstyled allow.describe := by
  rw [describe]
  split
  · decide
  · exact unstyled_intercalate (by decide) h

theorem Literal.WrittenIn.unstyled_value {l : Literal} {text : String} (h : l.WrittenIn text.toList)
    (hText : Unstyled text) : Unstyled l.value := by
  obtain ⟨s, hPrefix, hValue, -⟩ := h
  rw [hValue, unstyled_ofList]
  intro hMem
  have hChars : '\x1b' ∈ s.chars := by simp [Spelling.chars, hMem]
  exact hText (List.mem_of_mem_drop (hPrefix.subset hChars))

theorem unstyled_invalidFormat {range : Range} (hValue : Unstyled value) (h : allow.Unstyled) :
    Unstyled (Diagnostic.invalidFormat value range allow).message := by
  simp only [Diagnostic.invalidFormat, unstyled_append, unstyled_toString, hValue,
    AllowList.unstyled_describe h]
  decide

end

theorem InputError.unstyled_message {e : InputError} (h : Unstyled e.path) :
    Unstyled e.message := by
  obtain ⟨path, fault⟩ := e
  cases fault with
  | unreadable cause =>
    change Unstyled s!"failed to read {path}: {cause.message}"
    simp [h, Config.unstyled_accessFault]
    decide
  | tooLarge cause =>
    have hCause : Unstyled cause.message := by
      change Unstyled s!"input too large: {cause.size} bytes (limit: {cause.limit} bytes)"
      simp
      decide
    change Unstyled s!"cannot check {path}: {cause.message}"
    simp [h, hCause]
    decide
  | outOfBounds cause =>
    have hCause : Unstyled cause.message := by
      change Unstyled
        s!"offset {cause.offset} is out of bounds for text of {cause.length} characters"
      simp
      decide
    change Unstyled s!"failed to check {path}: {cause.message}"
    simp [h, hCause]
    decide

namespace Check

def Outcome.Unstyled : Outcome → Prop
  | .checked report => LiteralLint.Unstyled report.uri ∧
      ∀ d ∈ report.diagnostics, LiteralLint.Unstyled d.code ∧ LiteralLint.Unstyled d.message
  | .failed e => LiteralLint.Unstyled e.path

section

variable {found : Except AccessFault Node} {limit : Option Nat} {allow : AllowList} {path : String}
  {result : Outcome} {results : List Outcome} {d : Diagnostic} {e : InputError}

theorem Verdict.unstyled (h : Verdict found limit allow path result) (hPath : Unstyled path)
    (hAllow : allow.Unstyled)
    (hFound : ∀ text : String, found = .ok (.file text.toUTF8) → Unstyled text) :
    result.Unstyled := by
  cases h with
  | unreachable | oversized | directory | undecodable => exact hPath
  | @checked text diagnostics at_path admitted found_in =>
    have hText := hFound text at_path
    rw [checkText_eq_map_refused] at found_in
    cases found_in
    refine ⟨hPath, fun d hd => ?_⟩
    obtain ⟨l, hl, rfl⟩ := List.mem_map.mp hd
    exact ⟨(by decide : Unstyled Diagnostic.invalidFormatCode),
      unstyled_invalidFormat ((written_of_mem_refused hl).unstyled_value hText) hAllow⟩

theorem unstyled_diagnosticText (hPath : Unstyled path) (hCode : Unstyled d.code)
    (hMessage : Unstyled d.message) : Unstyled (diagnosticText false path d) := by
  have hSeverity : Unstyled d.severity.name := by cases d.severity <;> decide
  simp [diagnosticText, hPath, hCode, hMessage, hSeverity]
  decide

theorem unstyled_errorText (h : Unstyled e.path) : Unstyled (errorText false e) := by
  simp [errorText, h, InputError.unstyled_message h]
  decide

theorem unstyled_of_mem_problems {json : Bool} {problem : String}
    (h : problem ∈ problems json results) : Unstyled problem := by
  have hUnchecked : ∀ problem ∈ unchecked results, Unstyled problem := by
    unfold unchecked
    split
    · exact List.forall_mem_nil _
    · rw [List.forall_mem_singleton, uncheckedText]
      simp
      decide
  have hFindings : ∀ problem ∈ findings results, Unstyled problem := by
    unfold findings
    split
    · exact List.forall_mem_nil _
    · rw [List.forall_mem_singleton, findingsText]
      split <;> simp <;> decide
  unfold problems at h
  split at h
  · exact hUnchecked problem h
  · exact (List.mem_append.mp h).elim (hFindings problem) (hUnchecked problem)

theorem unstyled_of_mem_reports (h : ∀ r ∈ results, r.Unstyled) {report : Report}
    (hReport : report ∈ reports results) : (Outcome.checked report).Unstyled := by
  obtain ⟨r, hr, hChecked⟩ := List.mem_filterMap.mp hReport
  cases r with
  | failed e => cases hChecked
  | checked report =>
    cases hChecked
    exact h _ hr

theorem unstyled_of_mem_texts (h : ∀ r ∈ results, r.Unstyled) :
    ∀ text ∈ texts false results, Unstyled text := by
  unfold texts
  rw [List.forall_mem_append]
  refine ⟨fun text hText => ?_, ?_⟩
  · obtain ⟨report, hReport, hText⟩ := List.mem_flatMap.mp hText
    obtain ⟨d, hd, rfl⟩ := List.mem_map.mp hText
    obtain ⟨hPath, hAll⟩ := unstyled_of_mem_reports h hReport
    exact unstyled_diagnosticText hPath (hAll d hd).1 (hAll d hd).2
  · split
    · rw [List.forall_mem_singleton, successText]
      simp
      decide
    · exact List.forall_mem_nil _

theorem unstyled_of_mem_errors (h : ∀ r ∈ results, r.Unstyled) (he : e ∈ errors results) :
    Unstyled e.path := by
  obtain ⟨r, hr, hFailed⟩ := List.mem_filterMap.mp he
  cases r with
  | checked report => cases hFailed
  | failed e =>
    cases hFailed
    exact h _ hr

theorem unstyled_output (json : Bool) (h : ∀ r ∈ results, r.Unstyled) :
    Unstyled (output json false results).stdout ∧ Unstyled (output json false results).stderr ∧
      ∀ reason ∈ (output json false results).failure, Unstyled reason := by
  refine ⟨?_, ?_, fun reason hReason => ?_⟩
  · change Unstyled
      (if json then Output.line (jsonText results) else Output.lines (texts false results))
    split
    · exact unstyled_line.mpr (Json.unstyled_pretty _)
    · exact unstyled_lines.mpr (unstyled_of_mem_texts h)
  · change Unstyled (Output.lines ((errors results).map (errorText false)))
    rw [unstyled_lines, List.forall_mem_map]
    exact fun e he => unstyled_errorText (unstyled_of_mem_errors h he)
  · change failure json results = some reason at hReason
    unfold failure at hReason
    split at hReason
    · cases hReason
    · cases hReason
      exact unstyled_intercalate (by decide) fun _ hMem => unstyled_of_mem_problems hMem

end

section

variable {config : Config} {arguments : Arguments}

theorem unstyled_allowList (hConfig : config.AllowsUnstyled)
    (hGiven : ∀ value ∈ arguments.allow, Unstyled value) (path : String) :
    (allowList config arguments path).Unstyled := by
  obtain ⟨allow, hGoverns⟩ := exists_governs config arguments path
  rw [hGoverns.allowList_eq]
  cases hGoverns with
  | given => exact AllowList.unstyled_ofList hGiven
  | overridden _ decides =>
    exact AllowList.unstyled_ofList (hConfig.overrides _ decides.mem)
  | configured => exact AllowList.unstyled_ofList hConfig.fallback

end

end Check

theorem Info.unstyled_stdout_iff (config : Config) (sources : Sources) (json : Bool) :
    Unstyled (run config sources json).stdout ↔ json = true := by
  cases json with
  | true => simp [run]
  | false =>
    have hHeading : ¬ Unstyled (heading "Configuration") := Style.not_unstyled_paint _ _
    refine iff_of_false (fun h => hHeading (unstyled_lines.mp h _ ?_)) (by decide)
    simp [texts]

end LiteralLint
