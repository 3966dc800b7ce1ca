import LiteralLint.Proofs.Config.Precedence
import LiteralLint.Proofs.Config.Typing
import LiteralLint.Proofs.Input.Reading

/-! # When a configuration is loaded

Loading succeeds if every file holds a table in the format of its name and what is left of each
setting, once all layers lie upon one another, has its type. A fault of a file stays a fault under
whatever lies above it, while a value that is no table is gone once anything lies above it. -/

set_option autoImplicit false

namespace LiteralLint.Config

/-- What is left of some values that lie upon one another, the weightiest last. -/
def Value.stack (values : List Value) : Option Value :=
  values.foldl (fun below v => some (below.elim v fun old => old.merge v)) none

/-- The table that a text holds as a file of that name. -/
inductive Says (file text : String) (table : Table) : Prop where
  | yaml : Path.extension? file = some "yaml" ∨ Path.extension? file = some "yml" →
      Yaml.read? text = some table → Says file text table
  | json : Path.extension? file = some "json" → readJson? text = some table →
      Says file text table
  | toml : Path.extension? file ∉ [some "yaml", some "yml", some "json"] →
      Toml.read? text = some table → Says file text table

def HoldsTable (s : Surroundings) (file : String) (table : Table) : Prop :=
  ∃ text : String, s.tree.find s.directory file = .ok (.file text.toUTF8) ∧ Says file text table

/-- What the files and then the environment say about a key. -/
def said (s : Surroundings) (files : List String) (key : String) : List Value :=
  files.filterMap (fileSetting? s · key) ++
    (List.lookup key (Environment.table s.environment)).toList

variable {s : Surroundings} {r : Request} {file key : String} {files : List String}
  {layers : List Layer} {table : Table}

namespace Value

variable {older newer v : Value} {values before after : List Value}

theorem stack_concat (values : List Value) (v : Value) :
    stack (values ++ [v]) = some ((stack values).elim v fun old => old.merge v) :=
  List.foldl_concat _ _ _ _

theorem merge_eq_of_older_not_isTable (h : ¬ older.IsTable) (newer : Value) :
    older.merge newer = newer := by
  cases newer with
  | table entries =>
    cases older with
    | table base => exact absurd trivial h
    | _ => simp only [merge]
  | _ => simp only [merge]

theorem stack_of_masked (hPlain : ¬ v.IsTable) (hAfter : after ≠ []) :
    stack (before ++ v :: after) = stack after := by
  obtain ⟨newer, others, rfl⟩ := List.exists_cons_of_ne_nil hAfter
  have hUpTo : stack (before ++ [v]) = some v := by
    rw [stack_concat]
    cases stack before with
    | none => rfl
    | some old => exact congrArg some (merge_eq_of_not_isTable hPlain)
  rw [← List.singleton_append, ← List.append_assoc, stack, List.foldl_append, ← stack, hUpTo,
    List.foldl_cons, Option.elim_some, merge_eq_of_older_not_isTable hPlain]
  rfl

end Value

theorem Table.lookup_mergeAll_eq_stack {tables : List Table} (hSorted : ∀ t ∈ tables, t.Sorted) :
    List.lookup key (mergeAll tables) = Value.stack (tables.filterMap (List.lookup key)) := by
  induction tables using List.reverseRecOn with
  | nil => rfl
  | append_singleton tables t ih =>
    have ih := ih fun u hu => hSorted u (List.mem_append_left _ hu)
    have hLast : t.Sorted := hSorted t (List.mem_append_right _ List.mem_cons_self)
    rw [mergeAll_concat, List.filterMap_append]
    cases hLookup : List.lookup key t with
    | none =>
      rw [lookup_merge_of_none hLookup, ih, List.filterMap_cons_none hLookup, List.filterMap_nil,
        List.append_nil]
    | some value =>
      rw [lookup_merge_of_some hLast hLookup, ih, List.filterMap_cons_some hLookup,
        List.filterMap_nil, Value.stack_concat]

theorem filterMap_of_isReadAs (h : List.Forall₂ (IsReadAs s) files layers) (key : String) :
    layers.filterMap (fun layer => List.lookup key layer.table) =
      files.filterMap (fileSetting? s · key) := by
  induction h with
  | nil => rfl
  | cons hRead _ ih => rw [List.filterMap_cons, List.filterMap_cons, hRead.fileSetting?, ih]

theorem lookup_mergeLayers_eq_stack (hRead : List.Forall₂ (IsReadAs s) files layers)
    (key : String) :
    List.lookup key (mergeLayers (layers ++ [environmentLayer s])) =
      Value.stack (said s files key) := by
  have hSorted : ∀ layer ∈ layers ++ [environmentLayer s], layer.table.Sorted := by
    simp only [List.forall_mem_append, List.forall_mem_singleton]
    refine ⟨fun layer hLayer => ?_, Environment.sorted_table s.environment⟩
    obtain ⟨file, -, hFile⟩ := exists_isReadAs hRead layer hLayer
    exact hFile.sorted
  rw [mergeLayers_eq_mergeAll, Table.lookup_mergeAll_eq_stack (List.forall_mem_map.mpr hSorted),
    List.filterMap_map, List.filterMap_append, said, ← filterMap_of_isReadAs hRead]
  congr 2

theorem says_iff {text : String} :
    Says file text table ↔ (FileFormat.ofPath file).read? text = some table := by
  constructor
  · rintro (⟨hYaml | hYml, hRead⟩ | ⟨hJson, hRead⟩ | ⟨hOther, hRead⟩)
    · rwa [FileFormat.ofPath, hYaml]
    · rwa [FileFormat.ofPath, hYml]
    · rwa [FileFormat.ofPath, hJson]
    · simp only [List.mem_cons, List.not_mem_nil, or_false, not_or] at hOther
      unfold FileFormat.ofPath
      split
      · exact absurd ‹_› hOther.1
      · exact absurd ‹_› hOther.2.1
      · exact absurd ‹_› hOther.2.2
      · exact hRead
  · intro h
    unfold FileFormat.ofPath at h
    split at h
    · exact .yaml (Or.inl ‹_›) h
    · exact .yaml (Or.inr ‹_›) h
    · exact .json ‹_› h
    · rename_i hYaml hYml hJson
      refine .toml ?_ h
      simp only [List.mem_cons, List.not_mem_nil, or_false, not_or]
      exact ⟨hYaml, hYml, hJson⟩

theorem readText_eq_ok_iff {text : String} : s.readText file = .ok text ↔
    s.tree.find s.directory file = .ok (.file text.toUTF8) := by
  rw [Surroundings.readText]
  cases hFind : s.tree.find s.directory file with
  | error cause =>
    rw [FileTree.readText, hFind]
    exact iff_of_false (by rintro ⟨⟩) (by rintro ⟨⟩)
  | ok node =>
    cases node with
    | directory =>
      rw [FileTree.readText_of_find_directory hFind]
      exact iff_of_false (by rintro ⟨⟩) (by rintro ⟨⟩)
    | file content =>
      rw [FileTree.readText_of_find_file hFind, Except.ok.injEq, Node.file.injEq,
        eq_comm (a := content), ← fromUTF8?_eq_some_iff]
      cases String.fromUTF8? content with
      | none => exact iff_of_false (by rintro ⟨⟩) (by rintro ⟨⟩)
      | some other => simp

theorem exists_isReadAs_iff :
    (∃ layer, IsReadAs s file layer) ↔ ∃ table, HoldsTable s file table := by
  constructor
  · rintro ⟨layer, h⟩
    rw [IsReadAs, readFile] at h
    split at h
    · cases h
    · rename_i text hText
      split at h
      · rename_i table hTable
        exact ⟨table, text, readText_eq_ok_iff.mp hText, says_iff.mpr hTable⟩
      · cases h
  · rintro ⟨table, text, hText, hSays⟩
    refine ⟨⟨Origin.ofPath file, table⟩, ?_⟩
    simp only [IsReadAs, readFile, readText_eq_ok_iff.mpr hText, says_iff.mp hSays]

theorem map_readFile_of_isReadAs (h : List.Forall₂ (IsReadAs s) files layers) :
    files.map (readFile s) = layers.map Except.ok := by
  induction h with
  | nil => rfl
  | cons hRead _ ih => rw [List.map_cons, List.map_cons, ih, hRead]

theorem loadFiles_of_isReadAs {config : Config} (h : List.Forall₂ (IsReadAs s) files layers)
    (hTable : ofTable (mergeLayers (layers ++ [environmentLayer s])) = .ok config) :
    loadFiles s files = .ok config := by
  have hFailures : (layers.map Except.ok).filterMap (failureOf (α := Layer)) = [] := by
    rw [List.filterMap_map]
    exact List.filterMap_eq_nil_iff.mpr fun layer _ => rfl
  have hLayers : (layers.map Except.ok).filterMap (Except.toOption (ε := LoadError)) = layers := by
    rw [List.filterMap_map]
    exact List.filterMap_some
  simp only [loadFiles, map_readFile_of_isReadAs h, hFailures, hLayers, ofLayers, hTable]

theorem exists_loadFiles_eq_ok_iff : (∃ config, loadFiles s files = .ok config) ↔
    (∀ file ∈ files, ∃ table, HoldsTable s file table) ∧
      ∀ setting : Setting, ∀ v ∈ Value.stack (said s files setting.key), setting.Fits v := by
  simp only [← exists_isReadAs_iff]
  constructor
  · rintro ⟨config, h⟩
    obtain ⟨layers, hRead, hTable⟩ := loadFiles_eq_ok h
    have hFits := exists_ofTable_eq_ok_iff.mp ⟨config, hTable⟩
    simp only [lookup_mergeLayers_eq_stack hRead] at hFits
    exact ⟨exists_forall₂_iff.mp ⟨layers, hRead⟩, hFits⟩
  · rintro ⟨hFiles, hFits⟩
    obtain ⟨layers, hRead⟩ := exists_forall₂_iff.mpr hFiles
    simp only [← lookup_mergeLayers_eq_stack hRead] at hFits
    obtain ⟨config, hTable⟩ := exists_ofTable_eq_ok_iff.mpr hFits
    exact ⟨config, loadFiles_of_isReadAs hRead hTable⟩

theorem exists_load_eq_ok_iff : (∃ loaded, load s r = .ok loaded) ↔
    (∀ file ∈ (r.sources s).files, ∃ table, HoldsTable s file table) ∧
      ∀ setting : Setting, ∀ v ∈ Value.stack (said s (r.sources s).files setting.key),
        setting.Fits v := by
  rw [← exists_loadFiles_eq_ok_iff]
  constructor
  · rintro ⟨⟨config, sources⟩, h⟩
    obtain ⟨rfl, hLoaded⟩ := load_eq_ok h
    exact ⟨config, hLoaded⟩
  · rintro ⟨config, hLoaded⟩
    exact ⟨(config, r.sources s), load_of_loadFiles hLoaded⟩

/-- When a configuration is loaded, whatever files and variables there are. -/
theorem load_succeeds_iff (s : Surroundings) (r : Request) :
    ((∃ loaded, load s r = .ok loaded) ↔
      (∀ file ∈ (r.sources s).files, ∃ table, HoldsTable s file table) ∧
        ∀ setting : Setting, ∀ v ∈ Value.stack (said s (r.sources s).files setting.key),
          setting.Fits v) ∧
    (∀ file ∈ r.explicitFiles, (¬ ∃ table, HoldsTable s file table) →
      ∃ errors, load s r = .error errors) ∧
    ∀ (setting : Setting) (before after : List Value) (v : Value),
      said s (r.sources s).files setting.key = before ++ v :: after → ¬ v.IsTable → after ≠ [] →
        Value.stack (said s (r.sources s).files setting.key) = Value.stack after := by
  refine ⟨exists_load_eq_ok_iff, fun file hFile hNone => ?_, fun setting before after v hSaid => ?_⟩
  · have hMerged : file ∈ (r.sources s).files := List.mem_append_right _ hFile
    cases hLoad : load s r with
    | error errors => exact ⟨errors, rfl⟩
    | ok loaded => exact absurd ((exists_load_eq_ok_iff.mp ⟨loaded, hLoad⟩).1 file hMerged) hNone
  · rw [hSaid]
    exact Value.stack_of_masked

end LiteralLint.Config
