import LiteralLint.Program
import LiteralLint.Proofs.Traversal

/-! # What a run comes to

A command line that can be read either needs no directory at all, or a directory is entered, the
configuration is loaded and the log is opened before the command begins. -/

set_option autoImplicit false

namespace LiteralLint.Program

open CommandLine

variable {s inner : Surroundings} {words input : List String} {invocation : Invocation}
  {command : Command} {failure : Failure} {config : Config} {sources : Sources} {job : Job}

/-- The job that a command is once its configuration is loaded. -/
def jobOf (s : Surroundings) (invocation : Invocation) (command : Command) (config : Config)
    (sources : Sources) : Job where
  command
  invocation
  config
  sources
  log := (Log.Destination.openIn s (Log.Destination.choose? s config.logDir)).2
  surroundings :=
    { s with tree := (Log.Destination.openIn s (Log.Destination.choose? s config.logDir)).1 }
  filter := .choose (s.getVariable Log.Filter.variableName) invocation.quiet invocation.verbose
    config.logLevel

theorem run_jobOf_info (s : Surroundings) (invocation : Invocation) (config : Config)
    (sources : Sources) (input : List String) :
    let job := jobOf s invocation .info config sources
    (job.run input).exitCode = 0 ∧ (job.run input).stderr = "" ∧
      (job.run input).stdout = (Info.run config sources invocation.json).stdout :=
  ⟨rfl, rfl, rfl⟩

theorem run_jobOf_check (s : Surroundings) (invocation : Invocation) (arguments : Check.Arguments)
    (config : Config) (sources : Sources) (input : List String) :
    let job := jobOf s invocation (.check arguments) config sources
    let output := Check.run job.surroundings config invocation.json invocation.color arguments
    (job.run input).exitCode = (if output.failure.isSome then 1 else 0) ∧
      (job.run input).stdout = output.stdout ∧
      (job.run input).stderr = output.stderr ++
        (output.failure.map fun message => Failure.text { message }).getD "" ∧
      (job.run input).tree = job.surroundings.tree := by
  intro job output
  have hSome : (output.failure.map fun message => ({ message } : Failure)).isSome =
      output.failure.isSome := Option.isSome_map
  have hText : (output.failure.map fun message => ({ message } : Failure)).map Failure.text =
      output.failure.map fun message => Failure.text { message } := Option.map_map ..
  refine ⟨?_, rfl, ?_, rfl⟩
  · rw [← hSome]
    rfl
  · rw [← hText]
    rfl

theorem environment_of_enter {directory : Option String} (h : enter s directory = .ok inner) :
    inner.environment = s.environment := by
  cases directory with
  | none =>
    obtain rfl := Except.ok.inj h
    rfl
  | some path =>
    simp only [enter] at h
    split at h
    · obtain rfl := Except.ok.inj h
      rfl
    · cases h

theorem prepare_of_enter_error (h : enter s invocation.chdir = .error failure) :
    prepare s invocation command = .error failure := by
  rw [prepare, h]
  rfl

theorem prepare_of_load_error (hEnter : enter s invocation.chdir = .ok inner)
    (hLoad : loadConfig inner invocation = .error failure) :
    prepare s invocation command = .error failure := by
  rw [prepare, bind_of_ok hEnter, hLoad]
  rfl

theorem prepare_of_load (hEnter : enter s invocation.chdir = .ok inner)
    (hLoad : loadConfig inner invocation = .ok (config, sources)) :
    prepare s invocation command = .ok (jobOf inner invocation command config sources) := by
  rw [prepare, bind_of_ok hEnter, bind_of_ok hLoad]
  rfl

section

variable (hRead : CommandLine.read words = .ok invocation)
include hRead

theorem run_of_versionOnly (h : invocation.versionOnly = true) :
    run s words input = { stdout := Output.line About.version, tree := s.tree } := by
  simp only [run, start, hRead, h, if_true]
  rfl

theorem run_of_no_command (hVersion : invocation.versionOnly = false)
    (h : invocation.command = none) : run s words input = { tree := s.tree } := by
  simp only [run, start, hRead, hVersion, h]
  rfl

theorem run_of_failure (hVersion : invocation.versionOnly = false)
    (hCommand : invocation.command = some command)
    (h : prepare s invocation command = .error failure) :
    run s words input = { exitCode := 1, stderr := failure.text, tree := s.tree } := by
  simp only [run, start, hRead, hVersion, hCommand, h]
  rfl

theorem run_of_ready (hVersion : invocation.versionOnly = false)
    (hCommand : invocation.command = some command) (h : prepare s invocation command = .ok job) :
    run s words input = job.run input := by
  simp only [run, start, hRead, hVersion, hCommand, h]
  rfl

end

def oneFile : Invocation := { command := some (.check ⟨["a.ts"], []⟩) }

end LiteralLint.Program
