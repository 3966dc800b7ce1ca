import LiteralLint.Proofs.Check.Verdict
import Mathlib.Data.List.Forall2

/-! # A check of many files

Each file has its own outcome, and how the command ends is counted from the outcomes: from those
that failed and from the diagnostics of the others. -/

set_option autoImplicit false

namespace LiteralLint.Check

namespace Outcome

def isFailed : Outcome → Bool
  | checked _ => false
  | failed _ => true

def diagnostics : Outcome → List Diagnostic
  | checked report => report.diagnostics
  | failed _ => []

def Coherent : Outcome → Prop
  | checked report => report.pass = report.diagnostics.isEmpty
  | failed _ => True

theorem isFailed_iff {result : Outcome} : result.isFailed = true ↔ ∃ e, result = failed e := by
  cases result <;> simp [isFailed]

theorem clean_iff {result : Outcome} : result.isFailed = false ∧ result.diagnostics = [] ↔
    ∃ report, result = checked report ∧ report.diagnostics = [] := by
  cases result <;> simp [isFailed, diagnostics]

end Outcome

theorem Verdict.coherent {found : Except AccessFault Node} {limit : Option Nat} {allow : AllowList}
    {path : String} {result : Outcome} (h : Verdict found limit allow path result) :
    result.Coherent := by
  cases h with
  | checked => rfl
  | _ => trivial

def failedCount (results : List Outcome) : Nat := results.countP Outcome.isFailed

def diagnosticCount : List Outcome → Nat
  | [] => 0
  | result :: results => result.diagnostics.length + diagnosticCount results

def flaggedCount (results : List Outcome) : Nat :=
  results.countP fun result => !result.diagnostics.isEmpty

section

variable {results : List Outcome}

theorem failedCount_eq_zero_iff :
    failedCount results = 0 ↔ ∀ result ∈ results, result.isFailed = false := by
  simp only [failedCount, List.countP_eq_zero, Bool.not_eq_true]

theorem diagnosticCount_eq_zero_iff :
    diagnosticCount results = 0 ↔ ∀ result ∈ results, result.diagnostics = [] := by
  induction results with
  | nil => simp [diagnosticCount]
  | cons result results ih =>
    rw [diagnosticCount, Nat.add_eq_zero_iff, List.length_eq_zero_iff, ih, List.forall_mem_cons]

theorem length_errors (results : List Outcome) :
    (errors results).length = failedCount results := by
  induction results with
  | nil => rfl
  | cons result results ih =>
    rw [failedCount, List.countP_cons, ← failedCount, ← ih]
    cases result <;> rfl

theorem length_reports_add (results : List Outcome) :
    (reports results).length + failedCount results = results.length := by
  induction results with
  | nil => rfl
  | cons result results ih =>
    rw [failedCount, List.countP_cons, ← failedCount, List.length_cons, ← ih]
    cases result with
    | checked report => exact Nat.add_right_comm _ 1 _
    | failed e => rfl

theorem findingCount_eq (results : List Outcome) :
    findingCount results = diagnosticCount results := by
  induction results with
  | nil => rfl
  | cons result results ih =>
    rw [diagnosticCount, ← ih]
    cases result with
    | checked report =>
      have hReports : reports (.checked report :: results) = report :: reports results := rfl
      rw [findingCount, hReports, List.flatMap_cons, List.length_append]
      rfl
    | failed e => exact (Nat.zero_add _).symm

theorem length_not_pass (h : ∀ result ∈ results, result.Coherent) :
    ((reports results).filter (!·.pass)).length = flaggedCount results := by
  induction results with
  | nil => rfl
  | cons result results ih =>
    rw [List.forall_mem_cons] at h
    rw [flaggedCount, List.countP_cons, ← flaggedCount, ← ih h.2]
    cases result with
    | checked report =>
      have hPass : report.pass = report.diagnostics.isEmpty := h.1
      have hReports : reports (.checked report :: results) = report :: reports results := rfl
      rw [hReports, List.filter_cons, hPass]
      cases hEmpty : report.diagnostics.isEmpty <;> simp [Outcome.diagnostics, hEmpty]
    | failed e => rfl

theorem toString_text (text : String) : toString text = text := rfl

theorem successText_eq (count : Nat) : successText false count =
    "OK: " ++ toString count ++ " file(s) checked, no invalid format values" := by
  have hLabel : "OK: " = "OK:" ++ " " := rfl
  simp only [successText, Style.paintIf_false, toString_text, hLabel, String.append_assoc]

theorem unchecked_eq (results : List Outcome) :
    unchecked results =
      if failedCount results = 0 then [] else [uncheckedText (failedCount results)] := by
  rw [unchecked, length_errors]
  cases failedCount results <;> rfl

theorem findings_eq (h : ∀ result ∈ results, result.Coherent) :
    findings results = if diagnosticCount results = 0 then []
      else [findingsText (diagnosticCount results) (flaggedCount results)] := by
  rw [findings, findingCount_eq, length_not_pass h]
  cases diagnosticCount results <;> rfl

theorem unchecked_eq_nil_iff : unchecked results = [] ↔ failedCount results = 0 := by
  rw [unchecked_eq]
  by_cases hFailed : failedCount results = 0 <;> simp [hFailed]

theorem findings_eq_nil_iff (h : ∀ result ∈ results, result.Coherent) :
    findings results = [] ↔ diagnosticCount results = 0 := by
  rw [findings_eq h]
  by_cases hFound : diagnosticCount results = 0 <;> simp [hFound]

theorem problems_json (results : List Outcome) : problems true results = unchecked results := rfl

theorem problems_text (results : List Outcome) :
    problems false results = findings results ++ unchecked results := rfl

theorem failure_eq (json : Bool) (results : List Outcome) :
    failure json results = if problems json results = [] then none
      else some ("; ".intercalate (problems json results)) := by
  rw [failure]
  cases problems json results <;> rfl

theorem failure_eq_none_iff {json : Bool} :
    failure json results = none ↔ problems json results = [] := by
  rw [failure_eq]
  by_cases hProblems : problems json results = [] <;> simp [hProblems]

theorem failure_json (results : List Outcome) :
    failure true results = if failedCount results = 0 then none
      else some (uncheckedText (failedCount results)) := by
  rw [failure_eq, problems_json, unchecked_eq]
  by_cases hFailed : failedCount results = 0
  · simp only [hFailed, if_true]
  · simp only [hFailed, if_false]
    rfl

theorem failure_json_ne_none_iff :
    failure true results ≠ none ↔ ∃ e, Outcome.failed e ∈ results := by
  rw [Ne, failure_eq_none_iff, problems_json, unchecked_eq_nil_iff, ← Ne, ← Nat.pos_iff_ne_zero,
    failedCount, List.countP_pos_iff]
  constructor
  · rintro ⟨result, hMem, hFailed⟩
    obtain ⟨e, rfl⟩ := Outcome.isFailed_iff.mp hFailed
    exact ⟨e, hMem⟩
  · rintro ⟨e, hMem⟩
    exact ⟨_, hMem, rfl⟩

theorem failure_text (h : ∀ result ∈ results, result.Coherent) :
    failure false results =
      if diagnosticCount results = 0 ∧ failedCount results = 0 then none
      else some ("; ".intercalate
        ((if diagnosticCount results = 0 then []
          else [findingsText (diagnosticCount results) (flaggedCount results)]) ++
        if failedCount results = 0 then [] else [uncheckedText (failedCount results)])) := by
  rw [failure_eq, problems_text, ← findings_eq h, ← unchecked_eq]
  refine if_congr ?_ rfl rfl
  rw [List.append_eq_nil_iff, findings_eq_nil_iff h, unchecked_eq_nil_iff]

theorem failure_text_eq_none_iff (h : ∀ result ∈ results, result.Coherent) :
    failure false results = none ↔
      ∀ result ∈ results, ∃ report, result = .checked report ∧ report.diagnostics = [] := by
  rw [failure_eq_none_iff, problems_text, List.append_eq_nil_iff, findings_eq_nil_iff h,
    unchecked_eq_nil_iff, diagnosticCount_eq_zero_iff, failedCount_eq_zero_iff, ← forall₂_and]
  refine forall₂_congr fun result _ => ?_
  rw [and_comm, Outcome.clean_iff]

end

section

variable {s t : Surroundings} {config other : Config} {arguments request : Arguments}

theorem outcome_congr {path : String}
    (hFile : t.tree.find t.directory path = s.tree.find s.directory path)
    (hLimit : other.inputLimit = config.inputLimit)
    (hAllow : allowList other request path = allowList config arguments path) :
    outcome t other request path = outcome s config arguments path := by
  have hVerdict := verdict_iff.mpr (Eq.refl (outcome t other request path))
  rw [hFile, hLimit, hAllow] at hVerdict
  exact verdict_iff.mp hVerdict

theorem coherent_of_mem_outcomes {result : Outcome} (h : result ∈ outcomes s config arguments) :
    result.Coherent := by
  obtain ⟨path, _, rfl⟩ := List.mem_map.mp h
  exact (verdict_iff.mpr rfl).coherent

theorem outcomes_get? {i : Nat} {path : String} (h : arguments.files[i]? = some path) :
    (outcomes s config arguments)[i]? = some (outcome s config arguments path) := by
  rw [outcomes, List.getElem?_map, h]
  rfl

end

/-- A check in full: the outcomes of its files, that each depends on its own file only, and how the
command ends in either mode. -/
theorem run_exact (s : Surroundings) (config : Config) (color : ColorChoice)
    (arguments : Arguments) :
    let results := outcomes s config arguments
    (∀ json, run s config json color arguments =
      output json (color.isColored s.getVariable) results) ∧
    List.Forall₂
      (fun path result => ∀ r : Outcome,
        (∃ allow, Governs config arguments path allow ∧
          Verdict (s.tree.find s.directory path) config.inputLimit allow path r) ↔ r = result)
      arguments.files results ∧
    (∀ (t : Surroundings) (other : Config) (request : Arguments) (i j : Nat) (path : String),
      arguments.files[i]? = some path → request.files[j]? = some path →
      t.tree.find t.directory path = s.tree.find s.directory path →
      other.inputLimit = config.inputLimit →
      (∀ allow, Governs other request path allow ↔ Governs config arguments path allow) →
      (outcomes t other request)[j]? = results[i]?) ∧
    ((run s config true color arguments).failure ≠ none ↔ ∃ e, Outcome.failed e ∈ results) ∧
    (run s config true color arguments).failure =
      (if failedCount results = 0 then none
      else some (toString (failedCount results) ++ " file(s) could not be checked")) ∧
    ((run s config false color arguments).failure = none ↔
      ∀ result ∈ results, ∃ report, result = .checked report ∧ report.diagnostics = []) ∧
    (run s config false color arguments).failure =
      if diagnosticCount results = 0 ∧ failedCount results = 0 then none
      else some ("; ".intercalate
        ((if diagnosticCount results = 0 then []
          else [toString (diagnosticCount results) ++ " invalid format value" ++
            (if diagnosticCount results = 1 then "" else "s") ++ " found in " ++
            toString (flaggedCount results) ++ " file(s)"]) ++
        if failedCount results = 0 then []
        else [toString (failedCount results) ++ " file(s) could not be checked"])) := by
  intro results
  have hCoherent : ∀ result ∈ results, result.Coherent := fun _ h => coherent_of_mem_outcomes h
  refine ⟨fun _ => rfl, ?_, ?_, failure_json_ne_none_iff, failure_json results,
    failure_text_eq_none_iff hCoherent, failure_text hCoherent⟩
  · refine List.forall₂_map_right_iff.mpr (List.forall₂_same.mpr fun path _ r => ?_)
    simp only [governs_iff, exists_eq_left, verdict_iff]
  · intro t other request i j path hi hj hFile hLimit hGoverns
    have hAllow := (hGoverns _).mp (governs_iff.mpr rfl)
    rw [outcomes_get? hi, outcomes_get? hj]
    exact congrArg some (outcome_congr hFile hLimit (governs_iff.mp hAllow))

end LiteralLint.Check
