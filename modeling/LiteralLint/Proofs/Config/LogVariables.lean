import LiteralLint.Proofs.Config.Loading
import LiteralLint.Proofs.FileTree.Growth

/-! # The variables of the log

The variables that say where events are written to begin like those of the settings. The one that
names a directory is therefore a setting too, which has to have a type; all other settings are the
same without these variables. -/

set_option autoImplicit false

namespace LiteralLint

def logVariableNames : List String := ["FORMAT_LINT_LOG_PATH", "FORMAT_LINT_LOG_DIR"]

def Surroundings.withoutLogVariables (s : Surroundings) : Surroundings :=
  { s with environment := s.environment.filter fun entry => entry.1 ∉ logVariableNames }

theorem Surroundings.getVariable_withoutLogVariables {name : String} (s : Surroundings)
    (h : name ∉ logVariableNames) :
    s.withoutLogVariables.getVariable name = s.getVariable name := by
  refine lookup_filter fun entry _ hDropped hName => ?_
  exact of_decide_eq_false hDropped (hName ▸ h)

namespace Config

namespace Environment

variable {entries : List (String × String)} {key : String}

theorem lookup_table_filter {keeps : String × String → Bool}
    (h : ∀ entry ∈ entries, keeps entry = false → keyOf? entry.1 ≠ some key) :
    List.lookup key (table (entries.filter keeps)) = List.lookup key (table entries) := by
  induction entries using List.reverseRecOn with
  | nil => rfl
  | append_singleton entries entry ih =>
    rw [List.forall_mem_append, List.forall_mem_singleton] at h
    rw [List.filter_append, table_concat]
    cases hKeeps : keeps entry with
    | false =>
      rw [List.filter_cons_of_neg (by simp [hKeeps]), List.filter_nil, List.append_nil,
        Table.lookup_merge_of_none (lookup_entryTable_of_ne (h.2 hKeeps)), ih h.1]
    | true =>
      rw [List.filter_cons_of_pos hKeeps, List.filter_nil, table_concat]
      cases hEntry : List.lookup key (entryTable entry) with
      | none => rw [Table.lookup_merge_of_none hEntry, Table.lookup_merge_of_none hEntry, ih h.1]
      | some value =>
        rw [Table.lookup_merge_of_some (sorted_entryTable entry) hEntry,
          Table.lookup_merge_of_some (sorted_entryTable entry) hEntry, ih h.1]

theorem keyOf?_of_mem_logVariableNames {name : String} (h : name ∈ logVariableNames) :
    keyOf? name = some "log_path" ∨ keyOf? name = some "log_dir" := by
  rcases List.mem_cons.mp h with rfl | h
  · exact Or.inl (by decide +kernel)
  · rw [List.mem_singleton.mp h]
    exact Or.inr (by decide +kernel)

end Environment

variable {s : Surroundings} {r : Request} {files : List String} {setting : Setting}
  {config other : Config} {sources otherSources : Sources} {v : Value}

theorem lookup_table_withoutLogVariables (hSetting : setting ≠ .logDir) :
    List.lookup setting.key (Environment.table s.withoutLogVariables.environment) =
      List.lookup setting.key (Environment.table s.environment) := by
  refine Environment.lookup_table_filter fun entry _ hDropped hKey => ?_
  have hMem : entry.1 ∈ logVariableNames := of_not_not (of_decide_eq_false hDropped)
  rcases Environment.keyOf?_of_mem_logVariableNames hMem with hPath | hDir
  · rw [hPath] at hKey
    cases setting <;> exact absurd hKey (by decide)
  · rw [hDir] at hKey
    cases setting <;> first | exact hSetting rfl | exact absurd hKey (by decide)

theorem said_withoutLogVariables (hSetting : setting ≠ .logDir) (files : List String) :
    said s.withoutLogVariables files setting.key = said s files setting.key := by
  rw [said, lookup_table_withoutLogVariables hSetting]
  rfl

theorem searchProject_withoutLogVariables (s : Surroundings) (marker : Option String)
    (start : String) (directories : List String) :
    searchProject s.withoutLogVariables marker start directories =
      searchProject s marker start directories := by
  induction directories with
  | nil => rfl
  | cons directory directories ih =>
    rw [searchProject, searchProject, ih]
    rfl

theorem sources_withoutLogVariables (s : Surroundings) (r : Request) :
    r.sources s.withoutLogVariables = r.sources s := by
  have hUser : findUserFile? s.withoutLogVariables = findUserFile? s := by
    rw [findUserFile?, findUserFile?, Surroundings.configDirectory?, Surroundings.configDirectory?,
      Surroundings.userDirectory?, Surroundings.userDirectory?, Surroundings.home?,
      Surroundings.home?, s.getVariable_withoutLogVariables (by decide),
      s.getVariable_withoutLogVariables (by decide)]
    rfl
  have hProject (start : String) :
      findProjectFiles s.withoutLogVariables r.marker start =
        findProjectFiles s r.marker start := searchProject_withoutLogVariables s _ _ _
  simp only [Request.sources, hUser, hProject]

/-- What the files and the environment say about the directory of the log has the right type. -/
def LogDirFits (s : Surroundings) (files : List String) : Prop :=
  ∀ v ∈ Value.stack (said s files Setting.logDir.key), Setting.logDir.Fits v

theorem load_withoutLogVariables_iff
    (h : LogDirFits s (r.sources s).files ↔ LogDirFits s.withoutLogVariables (r.sources s).files) :
    (∃ loaded, load s.withoutLogVariables r = .ok loaded) ↔ ∃ loaded, load s r = .ok loaded := by
  rw [exists_load_eq_ok_iff, exists_load_eq_ok_iff, sources_withoutLogVariables]
  refine and_congr Iff.rfl (forall_congr' fun setting => ?_)
  by_cases hSetting : setting = .logDir
  · subst hSetting
    exact h.symm
  · rw [said_withoutLogVariables hSetting]

theorem exists_load_error (h : ¬ LogDirFits s (r.sources s).files) :
    ∃ errors, load s r = .error errors := by
  cases hLoad : load s r with
  | error errors => exact ⟨errors, rfl⟩
  | ok loaded => exact absurd ((exists_load_eq_ok_iff.mp ⟨loaded, hLoad⟩).2 .logDir) h

theorem Setting.Takes.unique {value? : Option Value} (h : setting.Takes config value?)
    (hOther : setting.Takes other value?) : setting.of other = setting.of config := by
  cases value? with
  | none => exact Eq.trans hOther h.symm
  | some value => exact (Except.ok.inj (Eq.trans h.symm hOther)).symm

theorem takes_of_load (h : load s r = .ok (config, sources)) (setting : Setting) :
    setting.Takes config (Value.stack (said s (r.sources s).files setting.key)) := by
  obtain ⟨rfl, hLoaded⟩ := load_eq_ok h
  obtain ⟨layers, hRead, hTable⟩ := loadFiles_eq_ok hLoaded
  rw [← lookup_mergeLayers_eq_stack hRead]
  exact takes_of_ofTable hTable setting

theorem of_eq_of_load (h : load s r = .ok (config, sources))
    (hOther : load s.withoutLogVariables r = .ok (other, otherSources))
    (hSetting : setting ≠ .logDir) : setting.of other = setting.of config := by
  have hTakes := takes_of_load hOther setting
  rw [sources_withoutLogVariables, said_withoutLogVariables hSetting] at hTakes
  exact (takes_of_load h setting).unique hTakes

theorem not_fits_logDir_of_isTable (h : v.IsTable) : ¬ Setting.logDir.Fits v := by
  cases v with
  | table entries => rintro (_ | ⟨⟨⟩⟩)
  | _ => exact h.elim

theorem Value.isTable_merge {older newer : Value} (h : newer.IsTable) :
    (older.merge newer).IsTable := by
  cases newer with
  | table entries => cases older <;> simp only [merge] <;> trivial
  | _ => exact h.elim

theorem fits_logDir_merge_iff (older newer : Value) :
    Setting.logDir.Fits (older.merge newer) ↔ Setting.logDir.Fits newer := by
  by_cases hTable : newer.IsTable
  · exact iff_of_false (not_fits_logDir_of_isTable (Value.isTable_merge hTable))
      (not_fits_logDir_of_isTable hTable)
  · rw [Value.merge_eq_of_not_isTable hTable]

theorem logDirFits_iff_of_lookup
    (h : List.lookup Setting.logDir.key (Environment.table s.environment) = some v) :
    LogDirFits s files ↔ Setting.logDir.Fits v := by
  rw [LogDirFits, said, h, Option.toList_some, Value.stack_concat]
  simp only [Option.mem_some_iff, forall_eq']
  cases Value.stack (files.filterMap (fileSetting? s · Setting.logDir.key)) with
  | none => rfl
  | some older => exact fits_logDir_merge_iff older v

theorem logDirFits_iff_of_variable {text : String}
    (h : Environment.ofKey s.environment Setting.logDir.key = [("FORMAT_LINT_LOG_DIR", text)]) :
    LogDirFits s files ↔ Setting.logDir.Fits (Environment.value text) := by
  have hKeys : Environment.keys? "FORMAT_LINT_LOG_DIR" = some [Setting.logDir.key] := by
    decide +kernel
  refine logDirFits_iff_of_lookup ?_
  rw [Environment.lookup_table_of_ofKey_eq_singleton h, Environment.entryTable, hKeys]
  exact List.lookup_cons_self

theorem logDirFits_withoutLogVariables_iff (h : s.getVariable "FORMAT_LINT_LOG_DIR" = none) :
    LogDirFits s files ↔ LogDirFits s.withoutLogVariables files := by
  have hLookup :
      List.lookup Setting.logDir.key (Environment.table s.withoutLogVariables.environment) =
        List.lookup Setting.logDir.key (Environment.table s.environment) := by
    refine Environment.lookup_table_filter fun entry hEntry hDropped hKey => ?_
    have hMem : entry.1 ∈ logVariableNames := of_not_not (of_decide_eq_false hDropped)
    rcases List.mem_cons.mp hMem with hPath | hDir
    · rw [hPath] at hKey
      exact absurd hKey (by decide +kernel)
    · have hName := List.lookup_eq_none_iff.mp h entry hEntry
      rw [List.mem_singleton.mp hDir] at hName
      exact absurd hName (by decide)
  rw [LogDirFits, LogDirFits, said, said, hLookup]
  rfl

end Config

end LiteralLint
