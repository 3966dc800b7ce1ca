import LiteralLint.Proofs.Config.Loading

/-! # The files of the user

Up to four files of the user can hold settings, one for each format. Only the first of them is read,
so that a setting of a later one is taken only where it is read as the first one's is. -/

set_option autoImplicit false

namespace LiteralLint.Config

def userFilesIn (s : Surroundings) (directory : String) : List String :=
  (userFileNames.map (Path.join directory)).filter s.isFile

/-- Only files of the user can set anything: no project is found, no file is named and no variable
is about a setting. -/
structure HasOnlyUserFiles (s : Surroundings) (r : Request) (directory : String) : Prop where
  place : s.configDirectory? = some directory
  wanted : r.userFile = true
  project : ∀ start ∈ r.start, findProjectFiles s r.marker start = []
  explicit : r.explicitFiles = []
  unset : ∀ setting : Setting, Environment.ofKey s.environment setting.key = []

def Setting.contentOf (setting : Setting) : Option Value → Except Misfit setting.Content
  | some value => setting.reader [setting.key] value
  | none => .ok (setting.of standard)

def firstSetting? (s : Surroundings) (files : List String) (key : String) : Option Value :=
  files.head?.bind (fileSetting? s · key)

variable {s : Surroundings} {r : Request} {directory key : String} {files : List String}
  {config : Config} {sources : Sources} {setting : Setting} {value? : Option Value}

theorem Setting.takes_iff :
    setting.Takes config value? ↔ setting.contentOf value? = .ok (setting.of config) := by
  cases value? with
  | none => exact ⟨fun h => congrArg Except.ok h.symm, fun h => (Except.ok.inj h).symm⟩
  | some value => rfl

theorem supplies_iff_of_unset (h : Environment.ofKey s.environment key = []) :
    Supplies s files key value? ↔ value? = files.reverse.findSome? (fileSetting? s · key) := by
  constructor
  · rintro (⟨hMem, hKeys⟩ | ⟨-, hFiles, hValue, hAfter⟩ | ⟨-, hNone⟩)
    · have hOfKey := Environment.mem_ofKey.mpr ⟨hMem, by rw [Environment.keyOf?, hKeys]; rfl⟩
      rw [h] at hOfKey
      cases hOfKey
    · exact (findSome?_reverse_eq_some_iff.mpr ⟨_, _, _, hFiles, hValue, hAfter⟩).symm
    · exact (findSome?_reverse_eq_none_iff.mpr hNone).symm
  · rintro rfl
    cases hFind : files.reverse.findSome? (fileSetting? s · key) with
    | none => exact .none h (findSome?_reverse_eq_none_iff.mp hFind)
    | some value =>
      obtain ⟨before, file, after, hFiles, hValue, hAfter⟩ :=
        findSome?_reverse_eq_some_iff.mp hFind
      exact .file h hFiles hValue hAfter

theorem findUserFile?_eq_head? (h : s.configDirectory? = some directory) :
    findUserFile? s = (userFilesIn s directory).head? := by
  rw [findUserFile?, h, userFilesIn, List.head?_filter]
  rfl

theorem holdsTable_of_load_explicit {loaded : Config × Sources}
    (h : load s { userFile := false, explicitFiles := files } = .ok loaded) :
    ∀ file ∈ files, ∃ table, HoldsTable s file table :=
  (exists_load_eq_ok_iff.mp ⟨loaded, h⟩).1

namespace HasOnlyUserFiles

variable (h : HasOnlyUserFiles s r directory)
include h

theorem sources_eq : r.sources s = { userFile := (userFilesIn s directory).head? } := by
  have hProject : (r.sources s).projectFiles = [] := by
    rw [Request.sources]
    cases hStart : r.start with
    | none => rfl
    | some start => exact h.project start hStart
  have hUser : (r.sources s).userFile = (userFilesIn s directory).head? := by
    rw [Request.sources, if_pos h.wanted, findUserFile?_eq_head? h.place]
  calc
    r.sources s = ⟨(r.sources s).projectFiles, (r.sources s).userFile, r.explicitFiles⟩ := rfl
    _ = { userFile := (userFilesIn s directory).head? } := by rw [hProject, hUser, h.explicit]

theorem files_eq : (r.sources s).files = (userFilesIn s directory).head?.toList := by
  rw [h.sources_eq, Sources.files, List.append_nil, List.append_nil]

theorem said_eq (setting : Setting) : said s (r.sources s).files setting.key =
    (firstSetting? s (userFilesIn s directory) setting.key).toList := by
  rw [said, Environment.lookup_table_of_ofKey_eq_nil (h.unset setting), h.files_eq, firstSetting?]
  cases (userFilesIn s directory).head? with
  | none => rfl
  | some file => cases hValue : fileSetting? s file setting.key <;> simp [hValue]

theorem takes_firstSetting? (hLoad : load s r = .ok (config, sources)) (setting : Setting) :
    setting.Takes config (firstSetting? s (userFilesIn s directory) setting.key) := by
  obtain ⟨rfl, hLoaded⟩ := load_eq_ok hLoad
  obtain ⟨layers, hRead, hTable⟩ := loadFiles_eq_ok hLoaded
  have hTakes := takes_of_ofTable hTable setting
  rw [lookup_mergeLayers_eq_stack hRead, h.said_eq] at hTakes
  cases hFirst : firstSetting? s (userFilesIn s directory) setting.key with
  | none => rwa [hFirst] at hTakes
  | some value => rwa [hFirst] at hTakes

theorem exists_load_iff : (∃ loaded, load s r = .ok loaded) ↔
    (∀ file ∈ (userFilesIn s directory).head?, ∃ table, HoldsTable s file table) ∧
      ∀ setting : Setting, ∀ v ∈ firstSetting? s (userFilesIn s directory) setting.key,
        setting.Fits v := by
  have hStack (setting : Setting) : Value.stack (said s (r.sources s).files setting.key) =
      firstSetting? s (userFilesIn s directory) setting.key := by
    rw [h.said_eq]
    cases firstSetting? s (userFilesIn s directory) setting.key <;> rfl
  rw [exists_load_eq_ok_iff]
  simp only [hStack]
  rw [h.files_eq]
  simp only [Option.mem_toList, Option.mem_def]

end HasOnlyUserFiles

/-- What is loaded from the files of the user: the first of them alone decides on whether loading
succeeds and on every setting. What the last file that has a setting says is taken if and only if it
is read as what the first file says. -/
theorem load_userFiles (h : HasOnlyUserFiles s r directory) :
    let files := userFilesIn s directory
    ((∃ loaded, load s r = .ok loaded) ↔
      (∀ file ∈ files.head?, ∃ table, HoldsTable s file table) ∧
        ∀ setting : Setting, ∀ v ∈ firstSetting? s files setting.key, setting.Fits v) ∧
    ∀ (config : Config) (sources : Sources), load s r = .ok (config, sources) →
      sources = { userFile := files.head? } ∧
      ∀ setting : Setting, ∃ first? last?,
        firstSetting? s files setting.key = first? ∧
        (∀ other?, Supplies s files setting.key other? ↔ other? = last?) ∧
        setting.Takes config first? ∧
        (setting.Takes config last? ↔ setting.contentOf last? = setting.contentOf first?) := by
  refine ⟨h.exists_load_iff, fun config sources hLoad => ⟨?_, fun setting => ?_⟩⟩
  · rw [(load_eq_ok hLoad).1, h.sources_eq]
  · have hFirst := h.takes_firstSetting? hLoad setting
    refine ⟨_, _, rfl, fun _ => supplies_iff_of_unset (h.unset setting), hFirst, ?_⟩
    rw [Setting.takes_iff, Setting.takes_iff.mp hFirst]

def twoFormats : Surroundings where
  tree := ⟨[
    (["home"], .directory), (["home", ".config"], .directory),
    (["home", ".config", "format-lint"], .directory),
    (["home", ".config", "format-lint", "config.toml"], .file "log_level = \"warn\"".toUTF8),
    (["home", ".config", "format-lint", "config.json"],
      .file "\x7b\"log_level\": \"warn\", \"allowed_values\": [\"gif\"]\x7d".toUTF8)]⟩
  directory := []
  environment := [("HOME", "/home")]
  today := "2026-01-01"

theorem hasOnlyUserFiles_twoFormats :
    HasOnlyUserFiles twoFormats {} "/home/.config/format-lint" where
  place := by decide +kernel
  wanted := rfl
  project := by
    rintro start ⟨⟩
  explicit := rfl
  unset setting := by
    have hUnset : ∀ setting ∈ Setting.all,
        Environment.ofKey twoFormats.environment setting.key = [] := by
      decide +kernel
    exact hUnset setting setting.mem_all

theorem load_twoFormats :
    load twoFormats {} = .ok ({ logLevel := .warn },
      { userFile := some "/home/.config/format-lint/config.toml" }) := by
  decide +kernel

theorem load_userFiles_twoFormats :
    HasOnlyUserFiles twoFormats {} "/home/.config/format-lint" ∧
      ∀ setting : Setting, ∃ first? last?,
        firstSetting? twoFormats (userFilesIn twoFormats "/home/.config/format-lint") setting.key =
          first? ∧
        (∀ other?, Supplies twoFormats (userFilesIn twoFormats "/home/.config/format-lint")
          setting.key other? ↔ other? = last?) ∧
        setting.Takes { logLevel := .warn } first? ∧
        (setting.Takes { logLevel := .warn } last? ↔
          setting.contentOf last? = setting.contentOf first?) := by
  obtain ⟨-, hLoaded⟩ := load_userFiles hasOnlyUserFiles_twoFormats
  exact ⟨hasOnlyUserFiles_twoFormats, (hLoaded _ _ load_twoFormats).2⟩

/-- What only the second of two files says is not taken. -/
theorem not_load_userFiles_merged :
    ¬ ∀ (s : Surroundings) (r : Request) (directory : String) (config : Config) (sources : Sources),
      HasOnlyUserFiles s r directory →
      (∀ file ∈ userFilesIn s directory, ∃ table, HoldsTable s file table) →
      (∀ file ∈ userFilesIn s directory, ∀ setting : Setting,
        ∀ value ∈ fileSetting? s file setting.key, ¬ value.IsTable) →
      load s r = .ok (config, sources) →
      ∀ (setting : Setting) (value? : Option Value),
        Supplies s (userFilesIn s directory) setting.key value? → setting.Takes config value? := by
  intro hAlways
  have hBoth : load twoFormats
      { userFile := false, explicitFiles := userFilesIn twoFormats "/home/.config/format-lint" } =
      .ok ({ logLevel := .warn, allowedValues := ["gif"] },
        { explicitFiles := userFilesIn twoFormats "/home/.config/format-lint" }) := by
    decide +kernel
  have hHeld := holdsTable_of_load_explicit hBoth
  have hPlain : ∀ file ∈ userFilesIn twoFormats "/home/.config/format-lint",
      ∀ setting ∈ Setting.all, ∀ value ∈ fileSetting? twoFormats file setting.key,
        ¬ value.IsTable := by
    decide +kernel
  have hLast : (Setting.allowedValues.contentOf
      ((userFilesIn twoFormats "/home/.config/format-lint").reverse.findSome?
        (fileSetting? twoFormats · Setting.allowedValues.key)) : Except Misfit (List String)) =
      .ok ["gif"] := by
    decide +kernel
  generalize hValue : (userFilesIn twoFormats "/home/.config/format-lint").reverse.findSome?
    (fileSetting? twoFormats · Setting.allowedValues.key) = value? at hLast
  have hSupplies := (supplies_iff_of_unset (hasOnlyUserFiles_twoFormats.unset _)).mpr hValue.symm
  have hTakes := hAlways _ _ _ _ _ hasOnlyUserFiles_twoFormats hHeld
    (fun file hFile setting => hPlain file hFile setting setting.mem_all) load_twoFormats _ _
    hSupplies
  have hSame := Except.ok.inj (hLast.symm.trans (Setting.takes_iff.mp hTakes))
  exact absurd hSame (by decide)

end LiteralLint.Config
