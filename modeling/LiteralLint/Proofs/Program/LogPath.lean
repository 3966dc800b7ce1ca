import LiteralLint.Proofs.FileTree.Opening
import LiteralLint.Proofs.Program.Running
import Mathlib.Data.Option.Basic

/-! # Runs whose log has a path of its own

The variable that names the file of the log is obeyed to the letter where the path has a slash: the
directories in front of the name are made, the file is the one that the path leads to, and no other
file is made. A path that is nothing but a name opens no log, although the file could be opened in
the working directory. -/

set_option autoImplicit false

namespace LiteralLint

namespace Log.Destination

variable {s : Surroundings} {path : String} {later : FileTree} {location : Location}

theorem choose?_of_logPath (h : s.getVariable "FORMAT_LINT_LOG_PATH" = some path)
    (configured : Option String) : choose? s configured = some (.file path) := by
  rw [choose?, h]

theorem place?_file {parent name : String} (today : String)
    (hParent : Path.parent? path = some parent) (hName : Path.fileName? path = some name) :
    place? today (.file path) = if parent = "" then none else some (parent, name) := by
  by_cases hEmpty : parent = "" <;> simp [place?, hParent, hName, hEmpty]

/-- Where the parent is the empty path no directory is looked for at all. -/
theorem openIn_file (h : s.tree.Opens s.directory path later location) :
    openIn s (some (.file path)) =
      if '/' ∈ path.toList then (later, some location) else (s.tree, none) := by
  cases h with
  | @of_names directory name made there names fits way opened =>
  obtain ⟨parent, hParent, -⟩ := names.exists_parent
  have hPlace := place?_file s.today hParent names.fileName?_eq
  obtain ⟨rest, hRest⟩ := names.exists_append_eq hParent
  rw [openIn, Option.bind_some, hPlace]
  by_cases hEmpty : directory = ""
  · have hNone : parent = "" := (String.append_eq_empty_iff.mp (hRest.symm.trans hEmpty)).1
    rw [if_pos hNone, if_neg (fun hSlash => names.slash_mem_iff.mp hSlash hEmpty)]
  · have hDirectory : FileTree.Fits directory := .of_append (names.written ▸ fits)
    have hWay : s.tree.makeDirectories s.directory parent = (made, some there) := by
      rw [FileTree.makeDirectories_of_fits (.of_append (hRest ▸ hDirectory)),
        names.isAbsolute_parent hParent, names.steps_parent hParent,
        ← FileTree.makeDirectories_of_fits hDirectory, way]
    have hShort := (names.size_join_le hParent).trans fits.short
    rw [if_neg (fun hNone => hEmpty (names.eq_empty_of_parent hParent hNone)),
      if_pos (names.slash_mem_iff.mpr hEmpty)]
    simp only [hWay, if_neg (Nat.not_lt_of_le hShort), opened]

end Log.Destination

namespace Program

variable {s inner : Surroundings} {words : List String} {invocation : CommandLine.Invocation}
  {command : CommandLine.Command} {loaded : Config × Sources} {path : String} {later : FileTree}
  {location : Location}

/-- A run writes its log to the file that a path leads to from a directory, and has made no other
file. -/
structure Result.LogsTo (result : Result) (tree : FileTree) (base : Location) (path : String)
    (location : Location) : Prop where
  log_eq : result.log = some location
  locate_eq : result.tree.locate base path = .ok location
  is_file : ∃ content, result.tree.node? location = some (.file content)
  grows : tree.Grows result.tree
  file_iff : ∀ place content, place ≠ location →
    (result.tree.node? place = some (.file content) ↔ tree.node? place = some (.file content))

theorem Job.log_run (job : Job) (input : List String) :
    (job.run input).log = job.log ∧ (job.run input).tree = job.surroundings.tree := by
  rw [Job.run]
  split <;> exact ⟨rfl, rfl⟩

section

variable (hRead : CommandLine.read words = .ok invocation)
  (hVersion : invocation.versionOnly = false)
  (hCommand : invocation.command = some command) (hEnter : enter s invocation.chdir = .ok inner)
  (hLoad : loadConfig inner invocation = .ok loaded)
  (hPath : s.getVariable "FORMAT_LINT_LOG_PATH" = some path)
include hRead hVersion hCommand hEnter hLoad hPath

theorem log_run_of_logPath (input : List String) :
    ((run s words input).tree, (run s words input).log) =
      Log.Destination.openIn inner (some (.file path)) := by
  have hInner : inner.getVariable "FORMAT_LINT_LOG_PATH" = some path := by
    rwa [Surroundings.getVariable, environment_of_enter hEnter]
  have hRun : run s words input =
      (jobOf inner invocation command loaded.1 loaded.2).run input :=
    run_of_ready hRead hVersion hCommand (prepare_of_load hEnter hLoad)
  obtain ⟨hLog, hTree⟩ := (jobOf inner invocation command loaded.1 loaded.2).log_run input
  rw [hRun, hLog, hTree, jobOf, Log.Destination.choose?_of_logPath hInner]

/-- The log is the file that the variable names, if a directory stands in front of its name. It is
made together with the directories that are missing, or it is there already, and no other file is
made. If the name stands alone, no log is opened and nothing is made at all. -/
theorem run_logPath (hOpens : inner.tree.Opens inner.directory path later location)
    (input : List String) :
    let result := run s words input
    (result.LogsTo inner.tree inner.directory path location ↔ '/' ∈ path.toList) ∧
      ('/' ∉ path.toList → result.log = none ∧ result.tree = inner.tree) := by
  intro result
  have hOpen := log_run_of_logPath hRead hVersion hCommand hEnter hLoad hPath input
  rw [Log.Destination.openIn_file hOpens] at hOpen
  by_cases hSlash : '/' ∈ path.toList
  · rw [if_pos hSlash] at hOpen
    obtain ⟨hTree, hLog⟩ : result.tree = later ∧ result.log = some location := Prod.mk.inj hOpen
    refine ⟨iff_of_true ⟨hLog, ?_, ?_, ?_, ?_⟩ hSlash, fun hNone => absurd hSlash hNone⟩ <;>
      rw [hTree]
    · exact hOpens.locate_eq
    · exact hOpens.is_file
    · exact hOpens.grows
    · exact fun place content hPlace => hOpens.file_iff hPlace content
  · rw [if_neg hSlash] at hOpen
    obtain ⟨hTree, hLog⟩ := Prod.mk.inj hOpen
    refine ⟨iff_of_false (fun hLogs => ?_) hSlash, fun _ => ⟨hLog, hTree⟩⟩
    cases hLog.symm.trans hLogs.log_eq

end

def loggingTo (path : String) : Surroundings where
  tree := ⟨[(["a.ts"], .file "format: 'png'".toUTF8)]⟩
  directory := []
  environment := [("FORMAT_LINT_LOG_PATH", path)]
  today := "2026-01-01"

theorem run_logPath_nested :
    (run (loggingTo "logs/./day//run.jsonl") ["check", "a.ts"] []).LogsTo
      (loggingTo "logs/./day//run.jsonl").tree [] "logs/./day//run.jsonl"
      ["logs", "day", "run.jsonl"] := by
  obtain ⟨loaded, hLoad⟩ : ∃ loaded,
      loadConfig (loggingTo "logs/./day//run.jsonl") oneFile = .ok loaded :=
    exists_eq_ok_of_isSome (by decide +kernel)
  have hNames : Path.Names "logs/./day//run.jsonl" "logs/./day//" "run.jsonl" :=
    ⟨rfl, .inr rfl, by decide, rfl, by decide⟩
  have hOpens : (loggingTo "logs/./day//run.jsonl").tree.Opens [] "logs/./day//run.jsonl" _
      ["logs", "day", "run.jsonl"] :=
    .of_names hNames ⟨by decide, by decide⟩ rfl rfl
  exact (run_logPath rfl rfl rfl rfl hLoad rfl hOpens []).1.mpr (by decide)

/-- The file `run.jsonl` could be made in the working directory, but no log is opened. -/
theorem not_run_logPath_bare :
    ¬ ∀ (s inner : Surroundings) (words input : List String)
        (invocation : CommandLine.Invocation) (command : CommandLine.Command)
        (loaded : Config × Sources) (path : String) (later : FileTree) (location : Location),
      CommandLine.read words = .ok invocation → invocation.versionOnly = false →
      invocation.command = some command → enter s invocation.chdir = .ok inner →
      loadConfig inner invocation = .ok loaded →
      s.getVariable "FORMAT_LINT_LOG_PATH" = some path →
      inner.tree.Opens inner.directory path later location →
      (run s words input).LogsTo inner.tree inner.directory path location := by
  intro h
  obtain ⟨loaded, hLoad⟩ : ∃ loaded, loadConfig (loggingTo "run.jsonl") oneFile = .ok loaded :=
    exists_eq_ok_of_isSome (by decide +kernel)
  have hNames : Path.Names "run.jsonl" "" "run.jsonl" := ⟨rfl, .inl rfl, by decide, rfl, by decide⟩
  have hOpens : (loggingTo "run.jsonl").tree.Opens [] "run.jsonl" _ ["run.jsonl"] :=
    .of_names hNames ⟨by decide, by decide⟩ rfl rfl
  have hLogs := h _ _ ["check", "a.ts"] [] _ _ _ _ _ _ rfl rfl rfl rfl hLoad rfl hOpens
  have hNone : (run (loggingTo "run.jsonl") ["check", "a.ts"] []).log ≠ some ["run.jsonl"] := by
    decide +kernel
  exact hNone hLogs.log_eq

end Program

end LiteralLint
