import LiteralLint.Proofs.Program.Unstyled
import LiteralLint.Proofs.Style.Marks

/-! # Checks with and without colours

Colours only decorate: a check that always uses them prints what one prints that never does, with
marks around some of the texts, and comes to the same in every other respect. -/

set_option autoImplicit false

namespace LiteralLint

namespace Check

open Style

section

variable {results : List Outcome} {path : String} {d : Diagnostic} {e : InputError}

theorem decorates_diagnosticText (hPath : Unstyled path) (hCode : Unstyled d.code)
    (hMessage : Unstyled d.message) :
    Decorates (diagnosticText true path d) (diagnosticText false path d) := by
  have hSeverity : Unstyled d.severity.name := by cases d.severity <;> decide
  have hPlace : Unstyled s!"{d.range.start.line + 1}:{d.range.start.character + 1}" := by
    simp
    decide
  exact (decorates_paint .bold hPath)
    |>.append (decorates_self (by decide))
    |>.append (decorates_self hPlace)
    |>.append (decorates_self (by decide))
    |>.append (decorates_paint .yellow hSeverity)
    |>.append (decorates_self (by decide))
    |>.append (decorates_paint .dimmed hCode)
    |>.append (decorates_self (by decide))
    |>.append (decorates_self hMessage)

theorem decorates_errorText (h : Unstyled e.path) :
    Decorates (errorText true e) (errorText false e) :=
  (decorates_paint .bold h)
    |>.append (decorates_self (by decide))
    |>.append (decorates_paint .red (by decide))
    |>.append (decorates_self (by decide))
    |>.append (decorates_self (InputError.unstyled_message h))

theorem decorates_successText (count : Nat) :
    Decorates (successText true count) (successText false count) :=
  (decorates_paint .green (by decide))
    |>.append (decorates_self (by decide))
    |>.append (decorates_self (unstyled_natRepr count))
    |>.append (decorates_self (by decide))

theorem decorates_reportTexts {report : Report} (h : (Outcome.checked report).Unstyled) :
    List.Forall₂ Decorates (reportTexts true report) (reportTexts false report) := by
  rw [reportTexts, reportTexts, List.forall₂_map_left_iff, List.forall₂_map_right_iff,
    List.forall₂_same]
  exact fun d hd => decorates_diagnosticText h.1 (h.2 d hd).1 (h.2 d hd).2

theorem decorates_texts (h : ∀ r ∈ results, r.Unstyled) :
    List.Forall₂ Decorates (texts true results) (texts false results) := by
  have hReports : List.Forall₂ (fun a b : Report => a = b ∧ (Outcome.checked a).Unstyled)
      (reports results) (reports results) :=
    List.forall₂_same.mpr fun _ hReport => ⟨rfl, unstyled_of_mem_reports h hReport⟩
  refine List.rel_append (List.rel_flatMap hReports ?_) ?_
  · rintro report _ ⟨rfl, hReport⟩
    exact decorates_reportTexts hReport
  · split
    · exact .cons (decorates_successText _) .nil
    · exact .nil

theorem decorates_errorTexts (h : ∀ r ∈ results, r.Unstyled) :
    List.Forall₂ Decorates ((errors results).map (errorText true))
      ((errors results).map (errorText false)) := by
  rw [List.forall₂_map_left_iff, List.forall₂_map_right_iff, List.forall₂_same]
  exact fun e he => decorates_errorText (unstyled_of_mem_errors h he)

theorem decorates_stdout (json : Bool) (h : ∀ r ∈ results, r.Unstyled) :
    Decorates (output json true results).stdout (output json false results).stdout := by
  cases json with
  | true => exact decorates_self (unstyled_output true h).1
  | false => exact decorates_lines (decorates_texts h)

theorem decorates_stderr (json : Bool) (h : ∀ r ∈ results, r.Unstyled) :
    Decorates (output json true results).stderr (output json false results).stderr :=
  decorates_lines (decorates_errorTexts h)

end

end Check

def Output.stripped (output : Output) : Output :=
  { output with stdout := Style.strip output.stdout, stderr := Style.strip output.stderr }

namespace Program

def Result.stripped (result : Result) : Result :=
  { result with stdout := Style.strip result.stdout, stderr := Style.strip result.stderr }

namespace Job

def withColor (job : Job) (color : ColorChoice) : Job :=
  { job with invocation := { job.invocation with color } }

variable {job : Job} {arguments : Check.Arguments}

theorem stripped_finish {painted plain : Output} {failure : Option Failure}
    (hOut : Style.Decorates painted.stdout plain.stdout)
    (hErr : Style.Decorates painted.stderr plain.stderr)
    (hFailure : ∀ f ∈ failure, f.Unstyled) :
    (job.finish painted failure).stripped = job.finish plain failure := by
  have hText : Unstyled ((failure.map Failure.text).getD "") := by
    cases failure with
    | none => exact (by decide : Unstyled "")
    | some f => exact (hFailure f rfl).text
  have hBoth := (hErr.append (Style.decorates_self hText)).strip_eq
  simp only [Result.stripped, finish, hOut.strip_eq, hBoth]

theorem run_withColor (hCommand : job.command = .check arguments) (color : ColorChoice)
    (input : List String) :
    let output :=
      Check.run job.surroundings job.config job.invocation.json color arguments
    (job.withColor color).run input =
      job.finish output (output.failure.map fun message => { message }) := by
  obtain ⟨command, invocation, s, config, sources, filter, log⟩ := job
  cases hCommand
  rfl

/-- A check with colours is one without, but for the marks of the styles: stdout, stderr, how it
ends and what it fails with are the same once the marks are taken away, and so is the run with all
that it leaves behind. JSON has no marks. -/
theorem run_painted (hCommand : job.command = .check arguments)
    (hWords : ∀ word ∈ arguments.files ++ arguments.allow, Unstyled word)
    (hConfig : job.config.AllowsUnstyled)
    (hContents : ∀ path ∈ arguments.files, ∀ text : String,
      job.surroundings.tree.find job.surroundings.directory path = .ok (.file text.toUTF8) →
        Unstyled text)
    (input : List String) :
    let output (color : ColorChoice) :=
      Check.run job.surroundings job.config job.invocation.json color arguments
    let result (color : ColorChoice) := (job.withColor color).run input
    (output .always).stripped = output .never ∧
    (result .always).stripped = result .never ∧
    (job.invocation.json = true → (output .always).stdout = (output .never).stdout ∧
      (result .always).stdout = (result .never).stdout) := by
  intro output result
  rw [List.forall_mem_append] at hWords
  have hOutcomes : ∀ r ∈ Check.outcomes job.surroundings job.config arguments, r.Unstyled := by
    rw [Check.outcomes, List.forall_mem_map]
    intro path hPath
    exact (Check.verdict_iff.mpr rfl).unstyled (hWords.1 path hPath)
      (Check.unstyled_allowList hConfig hWords.2 path) (hContents path hPath)
  have hOut : Style.Decorates (output .always).stdout (output .never).stdout :=
    Check.decorates_stdout job.invocation.json hOutcomes
  have hErr : Style.Decorates (output .always).stderr (output .never).stderr :=
    Check.decorates_stderr job.invocation.json hOutcomes
  have hResult (color : ColorChoice) : result color = job.finish (output color)
      ((output color).failure.map fun message => { message }) :=
    run_withColor hCommand color input
  refine ⟨?_, ?_, fun hJson => ?_⟩
  · rw [Output.stripped, hOut.strip_eq, hErr.strip_eq]
    rfl
  · rw [hResult, hResult]
    refine stripped_finish hOut hErr fun f hFailed => ?_
    obtain ⟨reason, hReason, rfl⟩ := Option.mem_map.mp hFailed
    obtain ⟨-, -, hMessage⟩ := Check.unstyled_output job.invocation.json hOutcomes
    exact Failure.unstyled_of_message (hMessage reason hReason)
  · have hSame : (output .always).stdout = (output .never).stdout := by
      simp only [output, hJson]
      rfl
    exact ⟨hSame, by rw [hResult, hResult]; exact hSame⟩

def inStudio : Job :=
  jobOf studio {} (.check ⟨["a.ts", "b.ts"], ["gif"]⟩) .standard {}

theorem run_painted_inStudio :
    ((inStudio.withColor .always).run []).stripped = (inStudio.withColor .never).run [] ∧
      ((inStudio.withColor .always).run []).stdout ≠ ((inStudio.withColor .never).run []).stdout ∧
      ((inStudio.withColor .always).run []).stderr ≠
        ((inStudio.withColor .never).run []).stderr := by
  have hContents : ∀ path ∈ ["a.ts", "b.ts"], ∀ text : String,
      inStudio.surroundings.tree.find inStudio.surroundings.directory path =
        .ok (.file text.toUTF8) → Unstyled text := by
    simp only [List.forall_mem_cons, List.not_mem_nil, false_implies, implies_true, and_true]
    constructor
    · intro text hFound
      have hFile : inStudio.surroundings.tree.find inStudio.surroundings.directory "a.ts" =
          .ok (.file "format: 'bmp'".toUTF8) := rfl
      rw [hFile] at hFound
      have hText := String.toByteArray_inj.mp (Node.file.inj (Except.ok.inj hFound))
      exact hText ▸ (by decide : Unstyled "format: 'bmp'")
    · intro text hFound
      have hMissing : inStudio.surroundings.tree.find inStudio.surroundings.directory "b.ts" =
          .error .notFound := rfl
      rw [hMissing] at hFound
      cases hFound
  have hConfig : inStudio.config.AllowsUnstyled := ⟨by decide, List.forall_mem_nil _⟩
  obtain ⟨-, hStripped, -⟩ := @run_painted inStudio _ rfl (by decide) hConfig hContents []
  exact ⟨hStripped, by decide +kernel, by decide +kernel⟩

end Job

end Program

end LiteralLint
