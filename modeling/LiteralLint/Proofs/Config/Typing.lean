import LiteralLint.Proofs.Config.Setting
import LiteralLint.Proofs.Traversal

/-! # Types of settings

Which values are right for which setting, said by their shapes. A value can be read as a setting if
and only if it is right for it, whatever the path it stands at. -/

set_option autoImplicit false

namespace LiteralLint.Config

namespace Value

inductive IsBool : Value → Prop where
  | bool (b : Bool) : IsBool (.bool b)

inductive IsText : Value → Prop where
  | text (s : String) : IsText (.text s)
  | character (c : Char) : IsText (.character c)

inductive IsNatural : Value → Prop where
  | unsigned (n : Nat) : IsNatural (.unsigned n)
  | signed {n : Int} : 0 ≤ n → IsNatural (.signed n)

inductive IsOptional (item : Value → Prop) : Value → Prop where
  | none : IsOptional item .unit
  | some {v : Value} : item v → IsOptional item v

inductive IsListOf (item : Value → Prop) : Value → Prop where
  | list {items : List Value} : (∀ v ∈ items, item v) → IsListOf item (.list items)

/-- The name of a level, or a table whose first entry has that name and says nothing more. -/
inductive IsLevel : Value → Prop where
  | text (level : LogLevel) : IsLevel (.text level.name)
  | table (level : LogLevel) (others : Table) : IsLevel (.table ((level.name, .unit) :: others))

/-- Two lists of texts, under their names or as the first two items. -/
inductive IsOverride : Value → Prop where
  | table {entries : Table} {paths allowed : Value} :
      List.lookup "paths" entries = some paths →
      List.lookup "allowed_values" entries = some allowed →
      IsListOf IsText paths → IsListOf IsText allowed → IsOverride (.table entries)
  | list {paths allowed : Value} (others : List Value) :
      IsListOf IsText paths → IsListOf IsText allowed →
      IsOverride (.list (paths :: allowed :: others))

end Value

open Value

def Setting.Fits : Setting → Value → Prop
  | allowedValues => IsListOf IsText
  | disableInputLimit => IsBool
  | logDir => IsOptional IsText
  | logLevel => IsLevel
  | maxInputBytes => IsOptional IsNatural
  | overrides => IsOptional (IsListOf IsOverride)

namespace Reader

/-- The reader succeeds on these values and no others. -/
def Decides {α : Type} (reader : Reader α) (fits : Value → Prop) : Prop :=
  ∀ path v, (∃ a, reader path v = .ok a) ↔ fits v

variable {α : Type} {item : Reader α} {fits : Value → Prop}

theorem decides_bool : bool.Decides IsBool := by
  intro path v
  constructor
  · rintro ⟨b, h⟩
    cases v with
    | bool b => exact .bool b
    | _ => cases h
  · rintro ⟨b⟩
    exact ⟨b, rfl⟩

theorem decides_textAs (expected : String) : (textAs expected).Decides IsText := by
  intro path v
  constructor
  · rintro ⟨s, h⟩
    cases v with
    | text s => exact .text s
    | character c => exact .character c
    | _ => cases h
  · rintro (s | c)
    · exact ⟨s, rfl⟩
    · exact ⟨String.singleton c, rfl⟩

theorem decides_natural : natural.Decides IsNatural := by
  intro path v
  constructor
  · rintro ⟨k, h⟩
    cases v with
    | unsigned n => exact .unsigned n
    | signed n =>
      rw [natural] at h
      split at h
      · cases h
      · rename_i hSign
        exact .signed (Int.not_lt.mp hSign)
    | _ => cases h
  · rintro (n | hSign)
    · exact ⟨n, rfl⟩
    · exact ⟨_, if_neg (Int.not_lt.mpr hSign)⟩

theorem decides_optional (h : item.Decides fits) : (optional item).Decides (IsOptional fits) := by
  intro path v
  constructor
  · rintro ⟨a, hRead⟩
    unfold optional at hRead
    split at hRead
    · exact .none
    · obtain ⟨content, hContent, -⟩ := map_eq_ok hRead
      exact .some ((h path _).mp ⟨content, hContent⟩)
  · rintro (_ | hFits)
    · exact ⟨none, rfl⟩
    · unfold optional
      split
      · exact ⟨none, rfl⟩
      · obtain ⟨content, hContent⟩ := (h path _).mpr hFits
        exact ⟨some content, by rw [hContent]; rfl⟩

theorem decides_list (h : item.Decides fits) : (list item).Decides (IsListOf fits) := by
  have hItems : ∀ (path : List String) (items : List Value),
      (∃ as, (list item) path (.list items) = .ok as) ↔ ∀ v ∈ items, fits v := by
    intro path items
    rw [list, exists_mapM_eq_ok_iff]
    conv_rhs => rw [← List.zipIdx_map_fst 0 items, List.forall_mem_map]
    exact forall₂_congr fun entry _ => h _ _
  intro path v
  constructor
  · rintro ⟨as, hRead⟩
    cases v with
    | list items => exact .list ((hItems path items).mp ⟨as, hRead⟩)
    | _ => cases hRead
  · rintro ⟨hAll⟩
    exact (hItems path _).mpr hAll

theorem find?_name (level : LogLevel) :
    LogLevel.all.find? (·.name == level.name) = some level := by
  cases level <;> decide

theorem eq_name_of_find? {level : LogLevel} {s : String}
    (h : LogLevel.all.find? (·.name == s) = some level) : s = level.name := by
  have hName := List.find?_some h
  rw [beq_iff_eq] at hName
  exact hName.symm

theorem isLevel_of_logLevel {path : List String} {v : Value} {level : LogLevel}
    (h : logLevel path v = .ok level) : IsLevel v := by
  cases v with
  | text s =>
    simp only [logLevel] at h
    split at h
    · rename_i hFind
      rw [eq_name_of_find? hFind]
      exact .text _
    · cases h
  | table entries =>
    rcases entries with _ | ⟨⟨key, value⟩, others⟩
    · cases h
    · obtain ⟨found, hNamed, h⟩ := bind_eq_ok h
      dsimp only at hNamed
      split at hNamed
      · rename_i hFind
        rw [eq_name_of_find? hFind]
        cases value with
        | unit => exact .table _ others
        | _ => cases h
      · cases hNamed
  | _ => cases h

theorem decides_logLevel : logLevel.Decides IsLevel := by
  intro path v
  constructor
  · rintro ⟨level, h⟩
    exact isLevel_of_logLevel h
  · rintro (level | ⟨level, others⟩)
    · exact ⟨level, by simp only [logLevel, find?_name]⟩
    · exact ⟨level, by simp only [logLevel, find?_name]; rfl⟩

section

variable {path : List String} {entries : Table} {key : String}

theorem field_of_some {read : Option α} {v : Value} (hLookup : List.lookup key entries = some v)
    (h : field item path entries key = .ok read) :
    ∃ a, item (path ++ [key]) v = .ok a ∧ read = some a := by
  rw [field, hLookup] at h
  obtain ⟨a, hRead, hSome⟩ := map_eq_ok h
  exact ⟨a, hRead, hSome.symm⟩

theorem exists_field_eq_ok_iff (h : item.Decides fits) :
    (∃ read, field item path entries key = .ok read) ↔ ∀ v ∈ List.lookup key entries, fits v := by
  cases hLookup : List.lookup key entries with
  | none =>
    constructor
    · rintro - v ⟨⟩
    · intro _
      exact ⟨none, by rw [field, hLookup]⟩
  | some v =>
    simp only [Option.mem_some_iff, forall_eq']
    rw [← h (path ++ [key]) v]
    constructor
    · rintro ⟨read, hField⟩
      obtain ⟨a, hRead, -⟩ := field_of_some hLookup hField
      exact ⟨a, hRead⟩
    · rintro ⟨a, hRead⟩
      exact ⟨some a, by rw [field, hLookup]; simp only [hRead]; rfl⟩

end

theorem isOverride_of_table {path : List String} {entries : Table} {o : Override}
    (h : override path (.table entries) = .ok o) : IsOverride (.table entries) := by
  have hTexts := decides_list (decides_textAs "a string")
  obtain ⟨allowed?, hAllowed, h⟩ := bind_eq_ok h
  obtain ⟨paths?, hPaths, h⟩ := bind_eq_ok h
  cases hLookupPaths : List.lookup "paths" entries with
  | none =>
    rw [field, hLookupPaths] at hPaths
    cases hPaths
    cases h
  | some paths =>
    cases hLookupAllowed : List.lookup "allowed_values" entries with
    | none =>
      obtain ⟨_, -, rfl⟩ := field_of_some hLookupPaths hPaths
      rw [field, hLookupAllowed] at hAllowed
      cases hAllowed
      cases h
    | some allowed =>
      have hFitsPaths := (exists_field_eq_ok_iff hTexts).mp ⟨_, hPaths⟩
      have hFitsAllowed := (exists_field_eq_ok_iff hTexts).mp ⟨_, hAllowed⟩
      exact .table hLookupPaths hLookupAllowed (hFitsPaths paths hLookupPaths)
        (hFitsAllowed allowed hLookupAllowed)

theorem isOverride_of_list {path : List String} {items : List Value} {o : Override}
    (h : override path (.list items) = .ok o) : IsOverride (.list items) := by
  have hTexts := decides_list (decides_textAs "a string")
  rcases items with _ | ⟨paths, _ | ⟨allowed, others⟩⟩
  · cases h
  · obtain ⟨_, -, h⟩ := bind_eq_ok h
    cases h
  · obtain ⟨_, hPaths, h⟩ := bind_eq_ok h
    obtain ⟨_, hAllowed, -⟩ := bind_eq_ok h
    exact .list others ((hTexts _ _).mp ⟨_, hPaths⟩) ((hTexts _ _).mp ⟨_, hAllowed⟩)

theorem decides_override : override.Decides IsOverride := by
  have hTexts := decides_list (decides_textAs "a string")
  intro path v
  constructor
  · rintro ⟨o, h⟩
    cases v with
    | table entries => exact isOverride_of_table h
    | list items => exact isOverride_of_list h
    | _ => cases h
  · rintro (⟨hLookupPaths, hLookupAllowed, hPaths, hAllowed⟩ | ⟨others, hPaths, hAllowed⟩)
    · obtain ⟨paths, hReadPaths⟩ := (hTexts (path ++ ["paths"]) _).mpr hPaths
      obtain ⟨allowed, hReadAllowed⟩ := (hTexts (path ++ ["allowed_values"]) _).mpr hAllowed
      refine ⟨⟨paths, allowed⟩, ?_⟩
      simp only [override, field, hLookupPaths, hLookupAllowed]
      rw [text, hReadPaths, hReadAllowed]
      rfl
    · obtain ⟨paths, hReadPaths⟩ := (hTexts (path ++ ["0"]) _).mpr hPaths
      obtain ⟨allowed, hReadAllowed⟩ := (hTexts (path ++ ["1"]) _).mpr hAllowed
      refine ⟨⟨paths, allowed⟩, ?_⟩
      simp only [override]
      rw [text, hReadPaths, hReadAllowed]
      rfl

end Reader

theorem Setting.decides_reader (setting : Setting) : setting.reader.Decides setting.Fits := by
  cases setting with
  | allowedValues => exact Reader.decides_list (Reader.decides_textAs _)
  | disableInputLimit => exact Reader.decides_bool
  | logDir => exact Reader.decides_optional (Reader.decides_textAs _)
  | logLevel => exact Reader.decides_logLevel
  | maxInputBytes => exact Reader.decides_optional Reader.decides_natural
  | overrides => exact Reader.decides_optional (Reader.decides_list Reader.decides_override)

theorem exists_ofTable_eq_ok_iff {entries : Table} :
    (∃ config, ofTable entries = .ok config) ↔
      ∀ setting : Setting, ∀ v ∈ List.lookup setting.key entries, setting.Fits v := by
  constructor
  · rintro ⟨config, h⟩ setting v hLookup
    have hTakes := takes_of_ofTable h setting
    rw [hLookup] at hTakes
    exact (setting.decides_reader [setting.key] v).mp ⟨_, hTakes⟩
  · intro hFits
    have hField : ∀ setting : Setting,
        ∃ read, Reader.field setting.reader [] entries setting.key = .ok read :=
      fun setting => (Reader.exists_field_eq_ok_iff setting.decides_reader).mpr (hFits setting)
    exact exists_bind_eq_ok (hField .allowedValues) fun _ =>
      exists_bind_eq_ok (hField .disableInputLimit) fun _ =>
      exists_bind_eq_ok (hField .logDir) fun _ =>
      exists_bind_eq_ok (hField .logLevel) fun _ =>
      exists_bind_eq_ok (hField .maxInputBytes) fun _ =>
      exists_bind_eq_ok (hField .overrides) fun _ => ⟨_, rfl⟩

end LiteralLint.Config
