import LiteralLint.Proofs.CommandLine.Acceptance
import LiteralLint.Proofs.Program.Running

/-! # Runs that do nothing

The name of a command can be left out. A command line of options alone is accepted, and unless one
of them asks for the bare version, the run ends at once and in silence. -/

set_option autoImplicit false

namespace LiteralLint.Program

open CommandLine

variable {words : List String} {invocation : Invocation}

/-- The words spell options that can stand in front of a command, at least one and no other words;
none of them asks for the bare version. -/
def Idle (words : List String) : Prop :=
  ∃ es : Entries, Says rootForm rootOptions none words es ∧ es.Fit [] ∧ es ≠ [] ∧
    es.settings.has .versionOnly = false

theorem idle_of_read (hRead : CommandLine.read words = .ok invocation)
    (hVersion : invocation.versionOnly = false) (hCommand : invocation.command = none) :
    Idle words := by
  rcases read_eq_ok_iff_says.mp hRead with
    ⟨es, hSays, hFit, hNonempty, rfl⟩ | ⟨_, _, _, _, _, -, -, -, -, -, -, -, rfl⟩
  · exact ⟨es, hSays, hFit, hNonempty, hVersion⟩
  · cases hCommand

theorem read_of_idle (h : Idle words) : ∃ invocation, CommandLine.read words = .ok invocation ∧
    invocation.versionOnly = false ∧ invocation.command = none := by
  obtain ⟨es, hSays, hFit, hNonempty, hVersion⟩ := h
  exact ⟨_, read_eq_ok_iff_says.mpr (Or.inl ⟨es, hSays, hFit, hNonempty, rfl⟩), hVersion, rfl⟩

/-- A command line that is accepted prints the bare version, begins its command or is idle; and the
idle ones, which are accepted all, have runs that print nothing, change nothing and succeed. -/
theorem run_accepted (words : List String) :
    (∀ invocation, CommandLine.read words = .ok invocation → ∀ s input,
      (invocation.versionOnly = true ∧
        run s words input = { stdout := Output.line About.version, tree := s.tree }) ∨
      (invocation.versionOnly = false ∧ ∃ command, invocation.command = some command ∧
        run s words input =
          match prepare s invocation command with
          | .ok job => job.run input
          | .error failure => { exitCode := 1, stderr := failure.text, tree := s.tree }) ∨
      (invocation.versionOnly = false ∧ invocation.command = none ∧ Idle words ∧
        run s words input = { exitCode := 0, stdout := "", stderr := "", tree := s.tree })) ∧
    (Idle words ↔ ∃ invocation, CommandLine.read words = .ok invocation ∧
      invocation.versionOnly = false ∧ invocation.command = none) := by
  refine ⟨fun invocation hRead s input => ?_, read_of_idle, fun ⟨_, hRead, hVersion, hCommand⟩ =>
    idle_of_read hRead hVersion hCommand⟩
  cases hVersion : invocation.versionOnly with
  | true => exact Or.inl ⟨rfl, run_of_versionOnly hRead hVersion⟩
  | false =>
    right
    cases hCommand : invocation.command with
    | none =>
      exact Or.inr ⟨rfl, rfl, idle_of_read hRead hVersion hCommand,
        run_of_no_command hRead hVersion hCommand⟩
    | some command =>
      refine Or.inl ⟨rfl, command, rfl, ?_⟩
      cases hPrepare : prepare s invocation command with
      | ok job => exact run_of_ready hRead hVersion hCommand hPrepare
      | error failure => exact run_of_failure hRead hVersion hCommand hPrepare

/-- The directory bears the name of a command, and no command follows. -/
theorem run_accepted_directory :
    Idle ["-qv", "--chdir", "info"] ∧
      run { tree := .empty, directory := [], environment := [], today := "2026-01-01" }
        ["-qv", "--chdir", "info"] [] = { tree := .empty } := by
  have hRead : CommandLine.read ["-qv", "--chdir", "info"] =
      .ok { chdir := some "info", quiet := true, verbose := 1 } := rfl
  obtain ⟨hOutcome, hIdle⟩ := run_accepted ["-qv", "--chdir", "info"]
  refine ⟨hIdle.mpr ⟨_, hRead, rfl, rfl⟩, ?_⟩
  rcases hOutcome _ hRead _ [] with ⟨hVersion, -⟩ | ⟨-, _, hCommand, -⟩ | ⟨-, -, -, hRun⟩
  · cases hVersion
  · cases hCommand
  · exact hRun

/-- It takes no more than one option to have no command without asking for the version. -/
theorem not_versionOnly_of_no_command :
    ¬ ∀ words invocation, CommandLine.read words = .ok invocation →
      invocation.command = none → invocation.versionOnly = true := by
  intro h
  have hRead : CommandLine.read ["--json"] = .ok { json := true } := rfl
  cases h ["--json"] _ hRead rfl

end LiteralLint.Program
