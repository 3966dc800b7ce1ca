import LiteralLint.Proofs.Check.Run
import LiteralLint.Proofs.Config.LogVariables
import LiteralLint.Proofs.Program.Running

/-! # Checks and the variables of the log

Where events are written to makes no difference to a check, be it possible to write there or not, as
long as the variable of the log's directory can be read as the setting that it also is. Otherwise no
configuration is loaded and the run fails before it begins. -/

set_option autoImplicit false

namespace LiteralLint

theorem Check.run_congr {s t : Surroundings} {config other : Config} {arguments : Check.Arguments}
    {color : ColorChoice} (json : Bool)
    (hFiles : ∀ path ∈ arguments.files,
      t.tree.find t.directory path = s.tree.find s.directory path)
    (hConfig : ∀ setting : Config.Setting, setting ≠ .logDir → setting.of other = setting.of config)
    (hColor : color.isColored t.getVariable = color.isColored s.getVariable) :
    Check.run t other json color arguments = Check.run s config json color arguments := by
  have hValues : other.allowedValues = config.allowedValues := hConfig .allowedValues (by decide)
  have hOverrides : other.overrides = config.overrides := hConfig .overrides (by decide)
  have hMost : other.maxInputBytes = config.maxInputBytes := hConfig .maxInputBytes (by decide)
  have hDisabled : other.disableInputLimit = config.disableInputLimit :=
    hConfig .disableInputLimit (by decide)
  have hLimit : other.inputLimit = config.inputLimit := by
    rw [Config.inputLimit, Config.inputLimit, hMost, hDisabled]
  have hAllow (path : String) :
      Check.allowList other arguments path = Check.allowList config arguments path := by
    rw [Check.allowList, Check.allowList, Check.overrides, Check.overrides, Check.fallback,
      Check.fallback, Config.allowList, Config.allowList, hValues, hOverrides]
  have hOutcomes : Check.outcomes t other arguments = Check.outcomes s config arguments :=
    List.map_congr_left fun path hPath =>
      Check.outcome_congr (hFiles path hPath) hLimit (hAllow path)
  rw [Check.run, Check.run, hColor, hOutcomes]

theorem ColorChoice.isColored_withoutLogVariables (color : ColorChoice) (s : Surroundings) :
    color.isColored s.withoutLogVariables.getVariable = color.isColored s.getVariable := by
  rw [isColored, isColored, s.getVariable_withoutLogVariables (by decide),
    s.getVariable_withoutLogVariables (by decide)]

namespace Program

open CommandLine

variable {s inner : Surroundings} {words input : List String} {invocation : Invocation}
  {arguments : Check.Arguments} {failure : Failure} {config other : Config}
  {sources otherSources : Sources} {path : String}

/-- The log of a run stands clear of a path: nothing was made on the way to it, and nothing is
written to what stands there. -/
structure Result.Spares (result : Result) (s : Surroundings) (path : String) : Prop where
  unmade : s.tree.find s.directory path = .error .notFound →
    result.tree.find s.directory path = .error .notFound
  unwritten : ∀ location, s.tree.locate s.directory path = .ok location →
    result.log ≠ some location

def LogDirFits (s : Surroundings) (invocation : Invocation) : Prop :=
  ∀ inner, enter s invocation.chdir = .ok inner →
    Config.LogDirFits inner ((request inner invocation).sources inner).files

theorem enter_withoutLogVariables (s : Surroundings) (directory : Option String) :
    enter s.withoutLogVariables directory =
      Surroundings.withoutLogVariables <$> enter s directory := by
  cases directory with
  | none => rfl
  | some path =>
    have hEnter : s.withoutLogVariables.tree.enter s.withoutLogVariables.directory path =
        s.tree.enter s.directory path := rfl
    simp only [enter, hEnter]
    cases s.tree.enter s.directory path <;> rfl

theorem enter_withoutLogVariables_of_ok (hEnter : enter s invocation.chdir = .ok inner) :
    enter s.withoutLogVariables invocation.chdir = .ok inner.withoutLogVariables := by
  rw [enter_withoutLogVariables, hEnter]
  rfl

theorem enter_withoutLogVariables_of_error (hEnter : enter s invocation.chdir = .error failure) :
    enter s.withoutLogVariables invocation.chdir = .error failure := by
  rw [enter_withoutLogVariables, hEnter]
  rfl

theorem logDirFits_iff (hEnter : enter s invocation.chdir = .ok inner) :
    LogDirFits s invocation ↔
      Config.LogDirFits inner ((request inner invocation).sources inner).files := by
  rw [LogDirFits, hEnter]
  exact ⟨fun h => h inner rfl, fun h _ hInner => Except.ok.inj hInner ▸ h⟩

theorem logDirFits_withoutLogVariables_iff (hEnter : enter s invocation.chdir = .ok inner) :
    LogDirFits s.withoutLogVariables invocation ↔
      Config.LogDirFits inner.withoutLogVariables
        ((request inner invocation).sources inner).files := by
  rw [logDirFits_iff (enter_withoutLogVariables_of_ok hEnter), Config.sources_withoutLogVariables]
  rfl

theorem loadConfig_eq_ok_iff {loaded : Config × Sources} :
    loadConfig s invocation = .ok loaded ↔ Config.load s (request s invocation) = .ok loaded := by
  rw [loadConfig]
  cases Config.load s (request s invocation) <;> simp

theorem exists_loadConfig_error
    (h : ∃ errors, Config.load s (request s invocation) = .error errors) :
    ∃ failure, loadConfig s invocation = .error failure := by
  obtain ⟨errors, hErrors⟩ := h
  simp only [loadConfig, hErrors]
  exact ⟨_, rfl⟩

theorem find_openIn {result : Result} {destination : Option Log.Destination}
    (h : result.Spares s path) (hTree : result.tree = (Log.Destination.openIn s destination).1) :
    (Log.Destination.openIn s destination).1.find s.directory path =
      s.tree.find s.directory path := by
  by_cases hNone : s.tree.find s.directory path = .error .notFound
  · rw [← hTree, h.unmade hNone, hNone]
  · exact (Log.Destination.adds_openIn s destination).grows.find hNone

theorem loadConfig_withoutLogVariables
    (h : Config.LogDirFits s ((request s invocation).sources s).files ↔
      Config.LogDirFits s.withoutLogVariables ((request s invocation).sources s).files) :
    (∃ loaded others, loadConfig s invocation = .ok loaded ∧
        loadConfig s.withoutLogVariables invocation = .ok others) ∨
      ∃ failure failure', loadConfig s invocation = .error failure ∧
        loadConfig s.withoutLogVariables invocation = .error failure' := by
  have hLoads : (∃ others, loadConfig s.withoutLogVariables invocation = .ok others) ↔
      ∃ loaded, loadConfig s invocation = .ok loaded := by
    simp only [loadConfig_eq_ok_iff]
    exact Config.load_withoutLogVariables_iff h
  cases hLoad : loadConfig s invocation with
  | ok loaded =>
    obtain ⟨others, hOthers⟩ := hLoads.mpr ⟨loaded, hLoad⟩
    exact Or.inl ⟨loaded, others, rfl, hOthers⟩
  | error failure =>
    cases hOther : loadConfig s.withoutLogVariables invocation with
    | ok others =>
      obtain ⟨loaded, hLoaded⟩ := hLoads.mp ⟨others, hOther⟩
      rw [hLoad] at hLoaded
      cases hLoaded
    | error failure' => exact Or.inr ⟨failure, failure', rfl, rfl⟩

section

variable (hRead : CommandLine.read words = .ok invocation)
  (hCheck : invocation.command = some (.check arguments)) (input : List String)
include hRead hCheck

theorem run_of_not_logDirFits (h : ¬ LogDirFits s invocation)
    (hVersion : invocation.versionOnly = false) :
    (run s words input).exitCode = 1 ∧ (run s words input).stdout = "" := by
  cases hEnter : enter s invocation.chdir with
  | error failure =>
    rw [run_of_failure hRead hVersion hCheck (prepare_of_enter_error hEnter)]
    exact ⟨rfl, rfl⟩
  | ok inner =>
    rw [logDirFits_iff hEnter] at h
    obtain ⟨failure, hLoad⟩ := exists_loadConfig_error (Config.exists_load_error h)
    rw [run_of_failure hRead hVersion hCheck (prepare_of_load_error hEnter hLoad)]
    exact ⟨rfl, rfl⟩

theorem run_of_loads {loaded others : Config × Sources} (hVersion : invocation.versionOnly = false)
    (hEnter : enter s invocation.chdir = .ok inner)
    (hLoad : loadConfig inner invocation = .ok loaded)
    (hOther : loadConfig inner.withoutLogVariables invocation = .ok others)
    (hSpared : ∀ path ∈ arguments.files, (run s words input).Spares inner path ∧
      (run s.withoutLogVariables words input).Spares inner path) :
    (run s words input).exitCode = (run s.withoutLogVariables words input).exitCode ∧
      (run s words input).stdout = (run s.withoutLogVariables words input).stdout := by
  obtain ⟨config, sources⟩ := loaded
  obtain ⟨other, otherSources⟩ := others
  have hRun : run s words input =
      (jobOf inner invocation (.check arguments) config sources).run input :=
    run_of_ready hRead hVersion hCheck (prepare_of_load hEnter hLoad)
  have hRunOther : run s.withoutLogVariables words input =
      (jobOf inner.withoutLogVariables invocation (.check arguments) other
        otherSources).run input :=
    run_of_ready hRead hVersion hCheck
      (prepare_of_load (enter_withoutLogVariables_of_ok hEnter) hOther)
  obtain ⟨hExit, hStdout, -, hTree⟩ :=
    run_jobOf_check inner invocation arguments config sources input
  obtain ⟨hExitOther, hStdoutOther, -, hTreeOther⟩ :=
    run_jobOf_check inner.withoutLogVariables invocation arguments other otherSources input
  rw [← hRun] at hExit hStdout hTree
  rw [← hRunOther] at hExitOther hStdoutOther hTreeOther
  have hSame :
      Check.run
          (jobOf inner.withoutLogVariables invocation (.check arguments) other
            otherSources).surroundings other invocation.json invocation.color arguments =
        Check.run (jobOf inner invocation (.check arguments) config sources).surroundings config
          invocation.json invocation.color arguments := by
    refine Check.run_congr invocation.json (fun path hPath => ?_) (fun setting hSetting => ?_) ?_
    · obtain ⟨hClear, hClearOther⟩ := hSpared path hPath
      have hBare : (run s.withoutLogVariables words input).Spares inner.withoutLogVariables path :=
        ⟨hClearOther.unmade, hClearOther.unwritten⟩
      exact (find_openIn hBare hTreeOther).trans (find_openIn hClear hTree).symm
    · exact Config.of_eq_of_load (loadConfig_eq_ok_iff.mp hLoad) (loadConfig_eq_ok_iff.mp hOther)
        hSetting
    · exact invocation.color.isColored_withoutLogVariables inner
  rw [hExit, hExitOther, hStdout, hStdoutOther, hSame]
  exact ⟨rfl, rfl⟩

/-- Where events are written to makes no difference to a check whose log stands clear of its files,
unless just one of the two runs can read the directory of the log as a setting; a run that cannot
fails. The variable that names a file is no setting, and the other one can be read if its value
is written like a text. -/
theorem run_withoutLogVariables :
    ((∀ inner, enter s invocation.chdir = .ok inner → ∀ path ∈ arguments.files,
        (run s words input).Spares inner path ∧
          (run s.withoutLogVariables words input).Spares inner path) →
      (LogDirFits s invocation ↔ LogDirFits s.withoutLogVariables invocation) →
      (run s words input).exitCode = (run s.withoutLogVariables words input).exitCode ∧
        (run s words input).stdout = (run s.withoutLogVariables words input).stdout) ∧
    (¬ LogDirFits s invocation → invocation.versionOnly = false →
      (run s words input).exitCode = 1 ∧ (run s words input).stdout = "") ∧
    (s.getVariable "FORMAT_LINT_LOG_DIR" = none →
      (LogDirFits s invocation ↔ LogDirFits s.withoutLogVariables invocation)) ∧
    ∀ text inner, enter s invocation.chdir = .ok inner →
      Config.Environment.ofKey s.environment "log_dir" = [("FORMAT_LINT_LOG_DIR", text)] →
      (LogDirFits s invocation ↔
        (Config.Environment.value text).IsOptional Config.Value.IsText) := by
  refine ⟨fun hSpared hFits => ?_, run_of_not_logDirFits hRead hCheck input, fun hUnset => ?_,
    fun text inner hEnter hOnly => ?_⟩
  · cases hVersion : invocation.versionOnly with
    | true =>
      rw [run_of_versionOnly hRead hVersion, run_of_versionOnly hRead hVersion]
      exact ⟨rfl, rfl⟩
    | false =>
      cases hEnter : enter s invocation.chdir with
      | error failure =>
        rw [run_of_failure hRead hVersion hCheck (prepare_of_enter_error hEnter),
          run_of_failure hRead hVersion hCheck
            (prepare_of_enter_error (enter_withoutLogVariables_of_error hEnter))]
        exact ⟨rfl, rfl⟩
      | ok inner =>
        rw [logDirFits_iff hEnter, logDirFits_withoutLogVariables_iff hEnter] at hFits
        rcases loadConfig_withoutLogVariables hFits with
          ⟨loaded, others, hLoad, hOther⟩ | ⟨failure, failure', hLoad, hOther⟩
        · exact run_of_loads hRead hCheck input hVersion hEnter hLoad hOther (hSpared inner hEnter)
        · rw [run_of_failure hRead hVersion hCheck (prepare_of_load_error hEnter hLoad),
            run_of_failure hRead hVersion hCheck
              (prepare_of_load_error (enter_withoutLogVariables_of_ok hEnter) hOther)]
          exact ⟨rfl, rfl⟩
  · cases hEnter : enter s invocation.chdir with
    | error failure =>
      exact iff_of_true (fun inner h => by rw [hEnter] at h; cases h)
        (fun inner h => by rw [enter_withoutLogVariables_of_error hEnter] at h; cases h)
    | ok inner =>
      rw [logDirFits_iff hEnter, logDirFits_withoutLogVariables_iff hEnter]
      refine Config.logDirFits_withoutLogVariables_iff ?_
      rwa [Surroundings.getVariable, environment_of_enter hEnter]
  · rw [logDirFits_iff hEnter]
    refine Config.logDirFits_iff_of_variable ?_
    rwa [environment_of_enter hEnter]

end

def loggedIn (directory : String) : Surroundings where
  tree := FileTree.empty.withFile ["a.ts"] "format: 'png'".toUTF8
  directory := []
  environment := [("NO_COLOR", "1"), ("FORMAT_LINT_LOG_DIR", directory)]
  today := "2026-01-01"

theorem ofKey_loggedIn (directory : String) :
    Config.Environment.ofKey (loggedIn directory).environment "log_dir" =
      [("FORMAT_LINT_LOG_DIR", directory)] := by
  have hColor : Config.Environment.keyOf? "NO_COLOR" ≠ some "log_dir" := by decide +kernel
  have hDirectory : Config.Environment.keyOf? "FORMAT_LINT_LOG_DIR" = some "log_dir" := by
    decide +kernel
  simp only [Config.Environment.ofKey, loggedIn, List.filter_cons, List.filter_nil, hColor,
    hDirectory, decide_true, decide_false, Bool.false_eq_true, if_true, if_false]

theorem not_logDirFits_number : ¬ LogDirFits (loggedIn "123") oneFile := by
  have hNumber : Config.Environment.value "123" = .unsigned 123 := rfl
  rw [logDirFits_iff rfl, Config.logDirFits_iff_of_variable (ofKey_loggedIn "123"), hNumber]
  rintro (_ | ⟨⟨⟩⟩)

/-- A directory that can be made, and one that is written like a number. -/
theorem run_withoutLogVariables_loggedIn :
    CommandLine.read ["check", "a.ts"] = .ok oneFile ∧
    ((run (loggedIn "logs") ["check", "a.ts"] []).exitCode =
        (run (loggedIn "logs").withoutLogVariables ["check", "a.ts"] []).exitCode ∧
      (run (loggedIn "logs") ["check", "a.ts"] []).stdout =
        (run (loggedIn "logs").withoutLogVariables ["check", "a.ts"] []).stdout) ∧
    (run (loggedIn "123") ["check", "a.ts"] []).exitCode = 1 ∧
    (run (loggedIn "123") ["check", "a.ts"] []).stdout = "" := by
  have hRead : CommandLine.read ["check", "a.ts"] = .ok oneFile := rfl
  obtain ⟨hSame, -, -, hFits⟩ := run_withoutLogVariables (s := loggedIn "logs") hRead rfl []
  obtain ⟨-, hFails, -, -⟩ := run_withoutLogVariables (s := loggedIn "123") hRead rfl []
  refine ⟨hRead, hSame (fun inner hEnter path hPath => ?_) ?_, hFails not_logDirFits_number rfl⟩
  · obtain rfl := Except.ok.inj hEnter
    obtain rfl := List.mem_singleton.mp hPath
    have hFound : (loggedIn "logs").tree.find (loggedIn "logs").directory "a.ts" =
        .ok (.file "format: 'png'".toUTF8) := rfl
    have hPlace : (loggedIn "logs").tree.locate (loggedIn "logs").directory "a.ts" =
        .ok ["a.ts"] := rfl
    have hLog : (run (loggedIn "logs") ["check", "a.ts"] []).log ≠ some ["a.ts"] := by
      decide +kernel
    have hOther : (run (loggedIn "logs").withoutLogVariables ["check", "a.ts"] []).log ≠
        some ["a.ts"] := by decide +kernel
    refine ⟨⟨fun hNone => ?_, fun location h => ?_⟩, fun hNone => ?_, fun location h => ?_⟩
    · rw [hFound] at hNone
      cases hNone
    · rw [hPlace] at h
      exact Except.ok.inj h ▸ hLog
    · rw [hFound] at hNone
      cases hNone
    · rw [hPlace] at h
      exact Except.ok.inj h ▸ hOther
  · have hNone : (Config.Value.stack (Config.said (loggedIn "logs").withoutLogVariables
        ((request (loggedIn "logs") {}).sources (loggedIn "logs")).files "log_dir")).isNone := by
      decide +kernel
    refine iff_of_true ((hFits "logs" _ rfl (ofKey_loggedIn "logs")).mpr (.some (.text "logs"))) ?_
    refine (logDirFits_withoutLogVariables_iff rfl).mpr fun v hSaid => ?_
    exact absurd hSaid (Option.isNone_iff_eq_none.mp hNone ▸ Option.not_mem_none v)

/-- A directory of the log that is written like a number lets the check of a good file fail. -/
theorem run_loggedIn_number :
    (run (loggedIn "123") ["check", "a.ts"] []).exitCode = 1 ∧
      (run (loggedIn "123").withoutLogVariables ["check", "a.ts"] []).exitCode = 0 := by
  have hRead : CommandLine.read ["check", "a.ts"] = .ok oneFile := rfl
  refine ⟨(run_of_not_logDirFits hRead rfl [] not_logDirFits_number rfl).1, ?_⟩
  decide +kernel

end Program

end LiteralLint
