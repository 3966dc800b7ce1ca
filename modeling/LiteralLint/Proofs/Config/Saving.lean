import LiteralLint.Proofs.Config.Loading
import LiteralLint.Proofs.Config.Writing

/-! # Saved configurations are loaded back

A file that a configuration is saved in has an entry for every setting, so that nothing of what lies
below the file is left once it is loaded. -/

set_option autoImplicit false

namespace LiteralLint.Config

open Json (greatestNatural)

/-- The file is JSON by its name, and the configuration is written in it in one of the two ways. -/
def IsSavedIn (config : Config) (s : Surroundings) (file : String) : Prop :=
  Path.extension? file = some "json" ∧ ∃ text ∈ [config.toJson.compact, config.toJson.pretty],
    s.tree.find s.directory file = .ok (.file text.toUTF8)

variable {s : Surroundings} {config loaded : Config} {file : String} {lower : List String}

theorem readJson?_of_readsAs {text : String} {j : Json} {room : Nat} {table : Table}
    (hText : Json.read text.toList = ⟨j.draft, true⟩) (h : ReadsAs room j (.table table))
    (hRoom : room < Json.depthLimit) : readJson? text = some table := by
  have hRoot : Value.ofJson? 0 j.draft = some (.table table) := h 0 (by omega)
  simp only [readJson?, hText, hRoot]
  rfl

theorem IsSavedIn.isReadAs (h : config.IsSavedIn s file) (hFits : config.Fits) :
    IsReadAs s file ⟨.ofPath file, Table.ofList (savedEntries config)⟩ := by
  obtain ⟨hName, text, hText, hFile⟩ := h
  have hRead : Json.read text.toList = ⟨config.toJson.draft, true⟩ := by
    simp only [List.mem_cons, List.not_mem_nil, or_false] at hText
    rcases hText with rfl | rfl
    · exact Json.read_compact _
    · have hPretty := Json.read_pretty config.toJson .nil
      rwa [List.append_nil] at hPretty
  have hTable : (FileFormat.ofPath file).read? text =
      some (Table.ofList (savedEntries config)) :=
    says_iff.mp (.json hName (readJson?_of_readsAs hRead (readsAs_toJson hFits) (by decide)))
  simp only [IsReadAs, readFile, readText_eq_ok_iff.mpr hFile, hTable]

theorem stack_said_of_isSavedIn (hSaved : config.IsSavedIn s file) (hFits : config.Fits)
    {setting : Setting} (hUnset : Environment.ofKey s.environment setting.key = []) :
    Value.stack (said s (lower ++ [file]) setting.key) =
      some (setting.write (setting.of config)) := by
  have hSetting : fileSetting? s file setting.key = some (setting.write (setting.of config)) := by
    rw [(hSaved.isReadAs hFits).fileSetting?, lookup_savedEntries]
  have hLast : [file].filterMap (fileSetting? s · setting.key) =
      [setting.write (setting.of config)] := List.filterMap_cons_some hSetting
  have hSaid : said s (lower ++ [file]) setting.key =
      lower.filterMap (fileSetting? s · setting.key) ++ [setting.write (setting.of config)] := by
    rw [said, Environment.lookup_table_of_ofKey_eq_nil hUnset, List.filterMap_append, hLast,
      Option.toList_none, List.append_nil]
  rw [hSaid, Value.stack_concat]
  cases Value.stack (lower.filterMap (fileSetting? s · setting.key)) with
  | none => rfl
  | some below => exact congrArg some (Value.merge_eq_of_not_isTable (setting.not_isTable_write _))

theorem eq_of_takes_write
    (h : ∀ setting : Setting, setting.Takes loaded (some (setting.write (setting.of config)))) :
    loaded = config := by
  have hOf : ∀ setting : Setting, setting.of loaded = setting.of config := by
    intro setting
    have hTakes : setting.reader [setting.key] (setting.write (setting.of config)) =
        .ok (setting.of loaded) := h setting
    rw [setting.reader_write] at hTakes
    exact (Except.ok.inj hTakes).symm
  obtain ⟨logLevel, logDir, allowedValues, maxInputBytes, disableInputLimit, overrides⟩ := loaded
  obtain rfl : logLevel = config.logLevel := hOf .logLevel
  obtain rfl : logDir = config.logDir := hOf .logDir
  obtain rfl : allowedValues = config.allowedValues := hOf .allowedValues
  obtain rfl : maxInputBytes = config.maxInputBytes := hOf .maxInputBytes
  obtain rfl : disableInputLimit = config.disableInputLimit := hOf .disableInputLimit
  obtain rfl : overrides = config.overrides := hOf .overrides
  rfl

theorem loadFiles_isSavedIn_iff (hSaved : config.IsSavedIn s file) (hFits : config.Fits)
    (hUnset : ∀ setting : Setting, Environment.ofKey s.environment setting.key = []) :
    loadFiles s (lower ++ [file]) = .ok config ↔
      ∀ other ∈ lower, ∃ table, HoldsTable s other table := by
  have hStack : ∀ setting : Setting, Value.stack (said s (lower ++ [file]) setting.key) =
      some (setting.write (setting.of config)) :=
    fun setting => stack_said_of_isSavedIn hSaved hFits (hUnset setting)
  constructor
  · intro h other hOther
    exact (exists_loadFiles_eq_ok_iff.mp ⟨config, h⟩).1 other (List.mem_append_left _ hOther)
  · intro hLower
    have hFile : ∃ table, HoldsTable s file table :=
      exists_isReadAs_iff.mp ⟨_, hSaved.isReadAs hFits⟩
    have hLoads : ∃ loaded, loadFiles s (lower ++ [file]) = .ok loaded := by
      refine exists_loadFiles_eq_ok_iff.mpr ⟨?_, fun setting v hv => ?_⟩
      · simp only [List.forall_mem_append, List.forall_mem_singleton]
        exact ⟨hLower, hFile⟩
      · rw [hStack setting] at hv
        obtain rfl := Option.mem_some_iff.mp hv
        exact setting.fits_write _
    obtain ⟨loaded, hLoaded⟩ := hLoads
    obtain ⟨layers, hRead, hTable⟩ := loadFiles_eq_ok hLoaded
    have hTakes : ∀ setting : Setting,
        setting.Takes loaded (some (setting.write (setting.of config))) := by
      intro setting
      have hTakes := takes_of_ofTable hTable setting
      rwa [lookup_mergeLayers_eq_stack hRead, hStack setting] at hTakes
    rw [hLoaded, eq_of_takes_write hTakes]

/-- A saved configuration is loaded as it was, alone and on top of any files of the user and of the
project that can be read; and it is not loaded on top of others. -/
theorem load_saved (hFits : config.Fits) (hSaved : config.IsSavedIn s file)
    (hUnset : ∀ setting : Setting, Environment.ofKey s.environment setting.key = []) :
    (∀ marker : Option String,
      load s { userFile := false, start := none, marker, explicitFiles := [file] } =
        .ok (config, { explicitFiles := [file] })) ∧
    ∀ r : Request, r.explicitFiles = [file] →
      (load s r = .ok (config, r.sources s) ↔
        ∀ lower ∈ (r.sources s).userFile.toList ++ (r.sources s).projectFiles,
          ∃ table, HoldsTable s lower table) := by
  have hLoad : ∀ r : Request, r.explicitFiles = [file] →
      (load s r = .ok (config, r.sources s) ↔
        ∀ lower ∈ (r.sources s).userFile.toList ++ (r.sources s).projectFiles,
          ∃ table, HoldsTable s lower table) := by
    intro r hExplicit
    have hFiles : (r.sources s).files =
        ((r.sources s).userFile.toList ++ (r.sources s).projectFiles) ++ [file] := by
      rw [← hExplicit]
      rfl
    rw [← loadFiles_isSavedIn_iff hSaved hFits hUnset, ← hFiles]
    constructor
    · intro h
      exact (load_eq_ok h).2
    · intro h
      exact load_of_loadFiles h
  refine ⟨fun marker => ?_, hLoad⟩
  exact (hLoad { userFile := false, start := none, marker, explicitFiles := [file] } rfl).mpr
    (List.forall_mem_nil _)

def sparse : Config where
  logLevel := .error
  allowedValues := ["1", "true", "[]"]
  maxInputBytes := some greatestNatural
  overrides := some [⟨["*.md"], []⟩]

def sparseOnTop : Surroundings where
  tree := ⟨[
    (["home"], .directory), (["home", ".config"], .directory),
    (["home", ".config", "format-lint"], .directory),
    (["home", ".config", "format-lint", "config.toml"],
      .file "log_dir = \"/logs\"\nallowed_values = [\"gif\"]".toUTF8),
    (["work"], .directory),
    (["work", ".format-lint.yaml"], .file "log_level: debug\nmax_input_bytes: 3\n".toUTF8),
    (["work", "saved.json"], .file sparse.toJson.compact.toUTF8)]⟩
  directory := ["work"]
  environment := [("HOME", "/home")]
  today := "2026-01-01"

theorem load_sparse :
    sparse.Fits ∧ sparse.IsSavedIn sparseOnTop "saved.json" ∧
      (∀ setting : Setting, Environment.ofKey sparseOnTop.environment setting.key = []) ∧
      load sparseOnTop { userFile := false, start := none, explicitFiles := ["saved.json"] } =
        .ok (sparse, { explicitFiles := ["saved.json"] }) ∧
      load sparseOnTop { start := some "/work", explicitFiles := ["saved.json"] } =
        .ok (sparse,
          { userFile := some "/home/.config/format-lint/config.toml"
            projectFiles := ["/work/.format-lint.yaml"]
            explicitFiles := ["saved.json"] }) := by
  have hFits : sparse.Fits := by
    rintro n ⟨⟩
    exact Nat.le_refl _
  have hSaved : sparse.IsSavedIn sparseOnTop "saved.json" :=
    ⟨by decide +kernel, _, List.mem_cons_self, rfl⟩
  have hUnset : ∀ setting : Setting,
      Environment.ofKey sparseOnTop.environment setting.key = [] := by
    have hAll : ∀ setting ∈ Setting.all,
        Environment.ofKey sparseOnTop.environment setting.key = [] := by decide +kernel
    exact fun setting => hAll setting setting.mem_all
  have hSources : Request.sources { start := some "/work", explicitFiles := ["saved.json"] }
      sparseOnTop =
        { userFile := some "/home/.config/format-lint/config.toml"
          projectFiles := ["/work/.format-lint.yaml"]
          explicitFiles := ["saved.json"] } := by decide +kernel
  obtain ⟨hAlone, hOnTop⟩ := load_saved hFits hSaved hUnset
  refine ⟨hFits, hSaved, hUnset, hAlone _, ?_⟩
  rw [← hSources]
  refine (hOnTop _ rfl).mpr ?_
  rw [hSources]
  simp only [Option.toList_some, List.singleton_append, List.forall_mem_cons]
  have hUser : (Toml.read? "log_dir = \"/logs\"\nallowed_values = [\"gif\"]").isSome = true := by
    decide +kernel
  have hProject : (Yaml.read? "log_level: debug\nmax_input_bytes: 3\n").isSome = true := by
    decide +kernel
  obtain ⟨userTable, hUser⟩ := Option.isSome_iff_exists.mp hUser
  obtain ⟨projectTable, hProject⟩ := Option.isSome_iff_exists.mp hProject
  exact ⟨⟨userTable, _, rfl, .toml (by decide +kernel) hUser⟩,
    ⟨projectTable, _, rfl, .yaml (Or.inl (by decide +kernel)) hProject⟩, List.forall_mem_nil _⟩

end LiteralLint.Config
