import LiteralLint.Proofs.Config.Layers
import LiteralLint.Proofs.Config.Merging
import LiteralLint.Proofs.Config.Setting
import Mathlib.Data.List.Forall2

/-! # Which layer decides

A configuration that is loaded takes each setting from one place: from the variable of its key if
the environment has one, else from the last file with that key, and else the setting has its default.
Nothing of a place that weighs less is left in it. -/

set_option autoImplicit false

namespace LiteralLint.Config

variable {s : Surroundings} {r : Request} {files : List String} {layers : List Layer}
  {config : Config} {sources : Sources} {key : String} {value? : Option Value}

def IsReadAs (s : Surroundings) (file : String) (layer : Layer) : Prop :=
  readFile s file = .ok layer

def fileSetting? (s : Surroundings) (file key : String) : Option Value :=
  match readFile s file with
  | .ok layer => List.lookup key layer.table
  | .error _ => none

theorem IsReadAs.fileSetting? {file : String} {layer : Layer} (h : IsReadAs s file layer)
    (key : String) : fileSetting? s file key = List.lookup key layer.table := by
  rw [Config.fileSetting?, h]

theorem IsReadAs.sorted {file : String} {layer : Layer} (h : IsReadAs s file layer) :
    layer.table.Sorted := by
  rw [IsReadAs, readFile] at h
  split at h
  · cases h
  · split at h
    · rename_i hRead
      cases h
      exact FileFormat.sorted_of_read? hRead
    · cases h

theorem forall₂_isReadAs (h : (files.map (readFile s)).filterMap failureOf = []) :
    List.Forall₂ (IsReadAs s) files ((files.map (readFile s)).filterMap Except.toOption) := by
  induction files with
  | nil => exact .nil
  | cons file files ih =>
    rw [List.map_cons] at h ⊢
    cases hRead : readFile s file with
    | error e => simp [hRead, failureOf] at h
    | ok layer =>
      rw [hRead, List.filterMap_cons_none (by rfl)] at h
      rw [List.filterMap_cons_some (by rfl)]
      exact .cons hRead (ih h)

theorem ofLayers_eq_ok (h : ofLayers layers = .ok config) :
    ofTable (mergeLayers layers) = .ok config := by
  rw [ofLayers] at h
  split at h
  · rename_i hTable
    cases h
    exact hTable
  · cases h

theorem loadFiles_eq_ok (h : loadFiles s files = .ok config) :
    ∃ layers, List.Forall₂ (IsReadAs s) files layers ∧
      ofTable (mergeLayers (layers ++ [environmentLayer s])) = .ok config := by
  simp only [loadFiles] at h
  split at h
  · rename_i hFailures
    split at h
    · rename_i hLayers
      cases h
      exact ⟨_, forall₂_isReadAs hFailures, ofLayers_eq_ok hLayers⟩
    · cases h
  · cases h

theorem load_eq_ok (h : load s r = .ok (config, sources)) :
    sources = r.sources s ∧ loadFiles s sources.files = .ok config := by
  rw [load_eq] at h
  obtain ⟨loaded, hLoaded, h⟩ := bind_eq_ok h
  cases h
  exact ⟨rfl, hLoaded⟩

theorem mergeLayers_eq_mergeAll (layers : List Layer) :
    mergeLayers layers = Table.mergeAll (layers.map Layer.table) := by
  rw [mergeLayers, Table.mergeAll, List.foldl_map]

/-- There is at most one variable for a key, and no layer has a table there. -/
structure Unambiguous (s : Surroundings) (files : List String) (key : String) : Prop where
  file_plain : ∀ file ∈ files, ∀ value ∈ fileSetting? s file key, ¬ value.IsTable
  environment_plain :
    ∀ value ∈ List.lookup key (Environment.table s.environment), ¬ value.IsTable
  one_variable : (Environment.ofKey s.environment key).length ≤ 1

/-- The place that supplies a key with its value, if there is one. -/
inductive Supplies (s : Surroundings) (files : List String) (key : String) : Option Value → Prop
  | environment {name text : String} :
      (name, text) ∈ s.environment → Environment.keys? name = some [key] →
      Supplies s files key (some (Environment.value text))
  | file {before after : List String} {file : String} {value : Value} :
      Environment.ofKey s.environment key = [] → files = before ++ file :: after →
      fileSetting? s file key = some value → (∀ later ∈ after, fileSetting? s later key = none) →
      Supplies s files key (some value)
  | none :
      Environment.ofKey s.environment key = [] → (∀ file ∈ files, fileSetting? s file key = none) →
      Supplies s files key none

/-- The value that is merged last for a key. -/
def settingOf? (s : Surroundings) (files : List String) (key : String) : Option Value :=
  (List.lookup key (Environment.table s.environment)).or
    (files.reverse.findSome? (fileSetting? s · key))

theorem exists_isReadAs (h : List.Forall₂ (IsReadAs s) files layers) :
    ∀ layer ∈ layers, ∃ file ∈ files, IsReadAs s file layer := by
  induction h with
  | nil => exact List.forall_mem_nil _
  | @cons file layer files layers hRead _ ih =>
    refine List.forall_mem_cons.mpr ⟨⟨file, List.mem_cons_self, hRead⟩, fun other hOther => ?_⟩
    obtain ⟨source, hSource, hReadOther⟩ := ih other hOther
    exact ⟨source, List.mem_cons_of_mem file hSource, hReadOther⟩

theorem findSome?_of_isReadAs (h : List.Forall₂ (IsReadAs s) files layers) (key : String) :
    layers.findSome? (fun layer => List.lookup key layer.table) =
      files.findSome? (fileSetting? s · key) := by
  induction h with
  | nil => rfl
  | cons hRead _ ih => rw [List.findSome?_cons, List.findSome?_cons, hRead.fileSetting?, ih]

theorem lookup_mergeLayers (hRead : List.Forall₂ (IsReadAs s) files layers)
    (h : Unambiguous s files key) :
    List.lookup key (mergeLayers (layers ++ [environmentLayer s])) = settingOf? s files key := by
  have hSorted : ∀ layer ∈ layers ++ [environmentLayer s], layer.table.Sorted := by
    simp only [List.forall_mem_append, List.forall_mem_singleton]
    refine ⟨fun layer hLayer => ?_, Environment.sorted_table s.environment⟩
    obtain ⟨file, -, hFile⟩ := exists_isReadAs hRead layer hLayer
    exact hFile.sorted
  have hPlain : ∀ layer ∈ layers ++ [environmentLayer s], ∀ value,
      List.lookup key layer.table = some value → ¬ value.IsTable := by
    simp only [List.forall_mem_append, List.forall_mem_singleton]
    refine ⟨fun layer hLayer => ?_, h.environment_plain⟩
    obtain ⟨file, hMem, hFile⟩ := exists_isReadAs hRead layer hLayer
    rw [← hFile.fileSetting?]
    exact h.file_plain file hMem
  calc
    List.lookup key (mergeLayers (layers ++ [environmentLayer s]))
      = (layers ++ [environmentLayer s]).reverse.findSome?
          (fun layer => List.lookup key layer.table) := by
        rw [mergeLayers_eq_mergeAll, Table.lookup_mergeAll (List.forall_mem_map.mpr hSorted)
          (List.forall_mem_map.mpr hPlain), ← List.map_reverse, List.findSome?_map]
        rfl
    _ = (List.lookup key (Environment.table s.environment)).or
          (layers.reverse.findSome? fun layer => List.lookup key layer.table) := by
        rw [List.reverse_concat, List.findSome?_cons, environmentLayer]
        cases List.lookup key (Environment.table s.environment) <;> rfl
    _ = settingOf? s files key := by
        rw [findSome?_of_isReadAs (List.forall₂_reverse_iff.mpr hRead), settingOf?]

theorem lookup_environment (h : Unambiguous s files key) :
    (Environment.ofKey s.environment key = [] ∧
      List.lookup key (Environment.table s.environment) = none) ∨
    ∃ name text, Environment.ofKey s.environment key = [(name, text)] ∧
      Environment.keys? name = some [key] ∧
      List.lookup key (Environment.table s.environment) = some (Environment.value text) := by
  rcases hOfKey : Environment.ofKey s.environment key with _ | ⟨⟨name, text⟩, _ | ⟨other, others⟩⟩
  · exact Or.inl ⟨rfl, Environment.lookup_table_of_ofKey_eq_nil hOfKey⟩
  · right
    have hMem : (name, text) ∈ Environment.ofKey s.environment key := by simp [hOfKey]
    have hLookup := Environment.lookup_table_of_ofKey_eq_singleton hOfKey
    obtain ⟨keys, hKeys, hHead⟩ := Option.bind_eq_some_iff.mp (Environment.mem_ofKey.mp hMem).2
    obtain ⟨below, rfl⟩ := List.head?_eq_some_iff.mp hHead
    rw [Environment.entryTable, hKeys] at hLookup
    simp only [Table.lookup_cons, if_true] at hLookup
    cases below with
    | nil => exact ⟨name, text, rfl, hKeys, hLookup⟩
    | cons next below => exact absurd trivial (h.environment_plain _ hLookup)
  · have hLength := h.one_variable
    rw [hOfKey] at hLength
    simp at hLength

theorem supplies_settingOf? (h : Unambiguous s files key) :
    Supplies s files key (settingOf? s files key) := by
  rw [settingOf?]
  rcases lookup_environment h with ⟨hUnset, hLookup⟩ | ⟨name, text, hOfKey, hKeys, hLookup⟩
  · rw [hLookup, Option.none_or]
    cases hFind : files.reverse.findSome? (fileSetting? s · key) with
    | none => exact .none hUnset (findSome?_reverse_eq_none_iff.mp hFind)
    | some value =>
      obtain ⟨before, file, after, hFiles, hValue, hAfter⟩ :=
        findSome?_reverse_eq_some_iff.mp hFind
      exact .file hUnset hFiles hValue hAfter
  · rw [hLookup, Option.some_or]
    have hMem : (name, text) ∈ Environment.ofKey s.environment key := by simp [hOfKey]
    exact .environment (Environment.mem_ofKey.mp hMem).1 hKeys

theorem Supplies.eq_settingOf? (h : Unambiguous s files key)
    (hSupplies : Supplies s files key value?) : value? = settingOf? s files key := by
  rw [settingOf?]
  cases hSupplies with
  | @environment name text hMem hKeys =>
    have hOfKey : (name, text) ∈ Environment.ofKey s.environment key :=
      Environment.mem_ofKey.mpr ⟨hMem, by rw [Environment.keyOf?, hKeys]; rfl⟩
    rcases lookup_environment h with ⟨hUnset, -⟩ | ⟨other, otherText, hOnly, -, hLookup⟩
    · rw [hUnset] at hOfKey
      cases hOfKey
    · rw [hOnly, List.mem_singleton] at hOfKey
      cases hOfKey
      rw [hLookup, Option.some_or]
  | @file before after file value hUnset hFiles hValue hAfter =>
    rw [Environment.lookup_table_of_ofKey_eq_nil hUnset, Option.none_or]
    exact (findSome?_reverse_eq_some_iff.mpr
      ⟨before, file, after, hFiles, hValue, hAfter⟩).symm
  | none hUnset hFiles =>
    rw [Environment.lookup_table_of_ofKey_eq_nil hUnset, Option.none_or]
    exact (findSome?_reverse_eq_none_iff.mpr hFiles).symm

theorem supplies_iff (h : Unambiguous s files key) :
    Supplies s files key value? ↔ value? = settingOf? s files key :=
  ⟨Supplies.eq_settingOf? h, fun hEq => hEq ▸ supplies_settingOf? h⟩

/-- Where each setting of a configuration comes from, whatever files and variables there are. -/
theorem load_precedence (h : load s r = .ok (config, sources)) :
    (sources.userFile = (if r.userFile then findUserFile? s else none) ∧
      sources.projectFiles = r.start.elim [] (findProjectFiles s r.marker) ∧
      sources.explicitFiles = r.explicitFiles) ∧
    (∃ layers, List.Forall₂ (IsReadAs s)
        (sources.userFile.toList ++ sources.projectFiles ++ sources.explicitFiles) layers ∧
      ofTable (mergeLayers (layers ++ [environmentLayer s])) = .ok config) ∧
    sources.primaryFile =
      (sources.userFile.toList ++ sources.projectFiles ++ sources.explicitFiles).getLast? ∧
    ∀ setting : Setting, Unambiguous s sources.files setting.key →
      ∃ value?, (∀ other?, Supplies s sources.files setting.key other? ↔ other? = value?) ∧
        setting.Takes config value? := by
  obtain ⟨rfl, hLoaded⟩ := load_eq_ok h
  obtain ⟨layers, hRead, hTable⟩ := loadFiles_eq_ok hLoaded
  have hProject :
      (r.sources s).projectFiles = r.start.elim [] (findProjectFiles s r.marker) := by
    rw [Request.sources]
    cases r.start <;> rfl
  refine ⟨⟨rfl, hProject, rfl⟩, ⟨layers, hRead, hTable⟩, Sources.primaryFile_eq _,
    fun setting hUnambiguous => ?_⟩
  refine ⟨settingOf? s (r.sources s).files setting.key, fun _ => supplies_iff hUnambiguous, ?_⟩
  rw [← lookup_mergeLayers hRead hUnambiguous]
  exact takes_of_ofTable hTable setting

def layered : Surroundings where
  tree := ⟨[
    (["team.json"],
      .file "\x7b\"log_level\": \"warn\", \"allowed_values\": [\"a\", \"b\"]\x7d".toUTF8),
    (["own.toml"], .file "log_level = \"error\"".toUTF8)]⟩
  directory := []
  environment := [("FORMAT_LINT_ALLOWED_VALUES", "[c]")]
  today := "2026-01-01"

theorem unambiguous_layered (setting : Setting) :
    Unambiguous layered ["/team.json", "/own.toml"] setting.key := by
  have hFiles : ∀ file ∈ ["/team.json", "/own.toml"], ∀ setting ∈ Setting.all,
      ∀ value ∈ fileSetting? layered file setting.key, ¬ value.IsTable := by
    decide +kernel
  have hEnvironment : ∀ setting ∈ Setting.all,
      ∀ value ∈ List.lookup setting.key (Environment.table layered.environment),
        ¬ value.IsTable := by
    decide +kernel
  exact {
    file_plain := fun file hFile => hFiles file hFile setting setting.mem_all
    environment_plain := hEnvironment setting setting.mem_all
    one_variable := List.length_filter_le _ _ }

theorem load_layered :
    load layered { userFile := false, explicitFiles := ["/team.json", "/own.toml"] } =
        .ok ({ logLevel := .error, allowedValues := ["c"] },
          { explicitFiles := ["/team.json", "/own.toml"] }) ∧
      ∀ setting : Setting, ∃ value?,
        (∀ other?, Supplies layered ["/team.json", "/own.toml"] setting.key other? ↔
          other? = value?) ∧
        setting.Takes { logLevel := .error, allowedValues := ["c"] } value? := by
  have hLoad :
      load layered { userFile := false, explicitFiles := ["/team.json", "/own.toml"] } =
        .ok ({ logLevel := .error, allowedValues := ["c"] },
          { explicitFiles := ["/team.json", "/own.toml"] }) := by
    decide +kernel
  exact ⟨hLoad, fun setting => (load_precedence hLoad).2.2.2 setting (unambiguous_layered setting)⟩

end LiteralLint.Config
