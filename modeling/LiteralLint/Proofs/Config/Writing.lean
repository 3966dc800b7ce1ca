import LiteralLint.Config.File
import LiteralLint.Proofs.Config.Table
import LiteralLint.Proofs.Config.Typing
import LiteralLint.Proofs.Interchange.RoundTrip

/-! # Settings that are written and read

The JSON form of a configuration is read as a table with an entry for every setting. No entry is
itself a table, and each setting is read from its entry as it was. -/

set_option autoImplicit false

namespace LiteralLint.Config

open Json (greatestNatural)

namespace Value

def texts (values : List String) : Value := .list (values.map .text)

def optional {α : Type} (write : α → Value) : Option α → Value
  | none => .unit
  | some a => write a

def ofOverride (o : Override) : Value :=
  .table (Table.ofList [("paths", texts o.paths), ("allowed_values", texts o.allowedValues)])

end Value

def Setting.write : (setting : Setting) → setting.Content → Value
  | allowedValues => Value.texts
  | disableInputLimit => .bool
  | logDir => Value.optional .text
  | logLevel => fun level => .text level.name
  | maxInputBytes => Value.optional .unsigned
  | overrides => Value.optional fun os => .list (os.map Value.ofOverride)

section

variable {room : Nat} {j : Json} {v : Value} {items : List Json} {values : List Value}
  {members : List (String × Json)} {entries : List (String × Value)}

/-- The JSON value is read as the setting wherever it has room for so many arrays and objects
within each other. -/
def ReadsAs (room : Nat) (j : Json) (v : Value) : Prop :=
  ∀ depth, depth + room < Json.depthLimit → Value.ofJson? depth j.draft = some v

theorem readsAs_null : ReadsAs room .null .unit := fun _ _ => rfl

theorem readsAs_bool (b : Bool) : ReadsAs room (.bool b) (.bool b) := fun _ _ => rfl

theorem readsAs_str (s : String) : ReadsAs room (.str s) (.text s) := fun _ _ => rfl

theorem readsAs_int {n : Nat} (h : n ≤ greatestNatural) :
    ReadsAs room (.int n) (.unsigned n) := by
  intro depth _
  rw [Json.draft, Value.ofJson?, Json.value?_ofInt_natural h]

theorem valuesOfJson?_of_readsAs {depth : Nat} (hRoom : depth + room < Json.depthLimit)
    (h : List.Forall₂ (ReadsAs room) items values) :
    valuesOfJson? depth (Json.itemDrafts items) = some values := by
  induction h with
  | nil => rfl
  | cons hHead _ ih =>
    rw [Json.itemDrafts, valuesOfJson?, hHead depth hRoom, ih]
    rfl

theorem entriesOfJson?_of_readsAs {depth : Nat} (hRoom : depth + room < Json.depthLimit)
    (h : List.Forall₂ (fun m entry => m.1 = entry.1 ∧ ReadsAs room m.2 entry.2) members entries) :
    entriesOfJson? depth (Json.memberDrafts members) = some entries := by
  induction h with
  | nil => rfl
  | @cons m entry members entries hHead _ ih =>
    obtain ⟨key, value⟩ := m
    obtain ⟨rfl, hValue⟩ := hHead
    rw [Json.memberDrafts, entriesOfJson?, hValue depth hRoom, ih]
    rfl

theorem ReadsAs.arr (h : List.Forall₂ (ReadsAs room) items values) :
    ReadsAs (room + 1) (.arr items) (.list values) := by
  intro depth hRoom
  have hInner : depth + 1 + room < Json.depthLimit := by omega
  have hHere : depth + 1 < Json.depthLimit := by omega
  rw [Json.draft, Value.ofJson?, if_pos ⟨rfl, hHere⟩, valuesOfJson?_of_readsAs hInner h]
  rfl

theorem ReadsAs.obj
    (h : List.Forall₂ (fun m entry => m.1 = entry.1 ∧ ReadsAs room m.2 entry.2) members entries) :
    ReadsAs (room + 1) (.obj members) (.table (Table.ofList entries)) := by
  intro depth hRoom
  have hInner : depth + 1 + room < Json.depthLimit := by omega
  have hHere : depth + 1 < Json.depthLimit := by omega
  rw [Json.draft, Value.ofJson?, if_pos ⟨rfl, hHere⟩, entriesOfJson?_of_readsAs hInner h]
  rfl

theorem ReadsAs.arr_map {α : Type} {write : α → Json} {read : α → Value} {as : List α}
    (h : ∀ a ∈ as, ReadsAs room (write a) (read a)) :
    ReadsAs (room + 1) (.arr (as.map write)) (.list (as.map read)) := by
  refine .arr ?_
  rw [List.forall₂_map_left_iff, List.forall₂_map_right_iff]
  exact List.forall₂_same.mpr h

theorem ReadsAs.mono {larger : Nat} (h : ReadsAs room j v) (hLe : room ≤ larger) :
    ReadsAs larger j v := by
  intro depth hRoom
  exact h depth (by omega)

theorem readsAs_strings (values : List String) :
    ReadsAs 1 (.strings values) (.texts values) :=
  .arr_map fun value _ => readsAs_str value

theorem readsAs_override (o : Override) : ReadsAs 2 o.toJson (.ofOverride o) :=
  .obj (.cons ⟨rfl, readsAs_strings o.paths⟩ (.cons ⟨rfl, readsAs_strings o.allowedValues⟩ .nil))

end

def Setting.inOrder : List Setting :=
  [logLevel, logDir, allowedValues, maxInputBytes, disableInputLimit, overrides]

def savedEntries (config : Config) : List (String × Value) :=
  Setting.inOrder.map fun setting => (setting.key, setting.write (setting.of config))

theorem readsAs_toJson {config : Config} (hFits : config.Fits) :
    ReadsAs 4 config.toJson (.table (Table.ofList (savedEntries config))) := by
  have hLogDir : ReadsAs 3 (.optional .str config.logDir) (.optional .text config.logDir) := by
    cases config.logDir with
    | none => exact readsAs_null
    | some directory => exact readsAs_str directory
  have hMaxInputBytes : ReadsAs 3 (.optional (fun n => .int n) config.maxInputBytes)
      (.optional .unsigned config.maxInputBytes) := by
    rw [Config.Fits] at hFits
    cases hMax : config.maxInputBytes with
    | none => exact readsAs_null
    | some n => exact readsAs_int (hFits n hMax)
  have hOverrides : ReadsAs 3 (.optional (fun os => .arr (os.map Override.toJson)) config.overrides)
      (.optional (fun os => .list (os.map .ofOverride)) config.overrides) := by
    cases config.overrides with
    | none => exact readsAs_null
    | some os => exact .arr_map fun o _ => readsAs_override o
  have hAllowedValues : ReadsAs 3 (.strings config.allowedValues) (.texts config.allowedValues) :=
    (readsAs_strings config.allowedValues).mono (by decide)
  exact .obj (.cons ⟨rfl, readsAs_str _⟩ (.cons ⟨rfl, hLogDir⟩ (.cons ⟨rfl, hAllowedValues⟩
    (.cons ⟨rfl, hMaxInputBytes⟩ (.cons ⟨rfl, readsAs_bool _⟩ (.cons ⟨rfl, hOverrides⟩ .nil))))))

theorem Table.lookup_ofList (key : String) (entries : List (String × Value)) :
    List.lookup key (ofList entries) = List.lookup key entries.reverse := by
  induction entries using List.reverseRecOn with
  | nil => rfl
  | append_singleton entries entry ih =>
    obtain ⟨other, value⟩ := entry
    rw [ofList, List.foldl_concat, ← ofList, lookup_put, ih, List.reverse_concat, lookup_cons]

namespace Reader

variable {α : Type} {item : Reader α} {write : α → Value}

def Reads (reader : Reader α) (write : α → Value) : Prop :=
  ∀ path a, reader path (write a) = .ok a

theorem reads_textAs (expected : String) : (textAs expected).Reads .text := fun _ _ => rfl

theorem reads_bool : bool.Reads .bool := fun _ _ => rfl

theorem reads_natural : natural.Reads .unsigned := fun _ _ => rfl

theorem reads_logLevel : logLevel.Reads fun level => .text level.name := by
  intro path level
  simp only [logLevel, find?_name]

theorem reads_optional (h : item.Reads write) (hUnit : ∀ a, write a ≠ .unit) :
    (optional item).Reads (Value.optional write) := by
  intro path content
  cases content with
  | none => rfl
  | some a =>
    rw [Value.optional]
    unfold optional
    split
    · exact absurd ‹_› (hUnit a)
    · rw [h path a]
      rfl

theorem reads_list (h : item.Reads write) :
    (list item).Reads fun as => .list (as.map write) := by
  intro path as
  rw [list, mapM_eq_ok_iff, List.zipIdx_map, List.forall₂_map_left_iff]
  conv => rhs; rw [← List.zipIdx_map_fst 0 as]
  rw [List.forall₂_map_right_iff]
  exact List.forall₂_same.mpr fun entry _ => h _ entry.1

theorem reads_texts (expected : String) : (list (textAs expected)).Reads Value.texts :=
  reads_list (reads_textAs expected)

theorem reads_override : override.Reads Value.ofOverride := by
  intro path o
  have hPaths : List.lookup "paths" (Table.ofList
      [("paths", Value.texts o.paths), ("allowed_values", Value.texts o.allowedValues)]) =
      some (.texts o.paths) := by
    rw [Table.lookup_ofList]
    rfl
  have hAllowed : List.lookup "allowed_values" (Table.ofList
      [("paths", Value.texts o.paths), ("allowed_values", Value.texts o.allowedValues)]) =
      some (.texts o.allowedValues) := by
    rw [Table.lookup_ofList]
    rfl
  simp only [Value.ofOverride, override, field, hPaths, hAllowed]
  rw [text, reads_texts _ _ o.paths, reads_texts _ _ o.allowedValues]
  rfl

end Reader

theorem Setting.reader_write (setting : Setting) : setting.reader.Reads setting.write := by
  cases setting with
  | allowedValues => exact Reader.reads_texts _
  | disableInputLimit => exact Reader.reads_bool
  | logDir => exact Reader.reads_optional (Reader.reads_textAs _) nofun
  | logLevel => exact Reader.reads_logLevel
  | maxInputBytes => exact Reader.reads_optional Reader.reads_natural nofun
  | overrides => exact Reader.reads_optional (Reader.reads_list Reader.reads_override) nofun

theorem Setting.not_isTable_write (setting : Setting) (content : setting.Content) :
    ¬ (setting.write content).IsTable := by
  cases setting with
  | logDir | maxInputBytes | overrides =>
    cases content with
    | none => exact id
    | some _ => exact id
  | _ => exact id

theorem Setting.fits_write (setting : Setting) (content : setting.Content) :
    setting.Fits (setting.write content) :=
  (setting.decides_reader [setting.key] _).mp ⟨content, setting.reader_write _ content⟩

theorem lookup_savedEntries (config : Config) (setting : Setting) :
    List.lookup setting.key (Table.ofList (savedEntries config)) =
      some (setting.write (setting.of config)) := by
  rw [Table.lookup_ofList]
  cases setting <;> rfl

end LiteralLint.Config
