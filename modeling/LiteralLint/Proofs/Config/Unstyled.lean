import LiteralLint.Config.Load
import LiteralLint.Proofs.Config.Table
import LiteralLint.Proofs.Style.Unstyled
import LiteralLint.Proofs.Traversal

/-! # Unstyled settings

If no text in any layer is styled, neither is what the configuration allows, nor what is said about
a value of the wrong type. -/

set_option autoImplicit false

namespace LiteralLint.Config

mutual

def Value.strings : Value → List String
  | .text s => [s]
  | .character c => [String.singleton c]
  | .list items => itemStrings items
  | .table entries => entryStrings entries
  | .unit | .bool _ | .signed _ | .unsigned _ | .wide _ | .real _ => []

def itemStrings : List Value → List String
  | [] => []
  | item :: items => item.strings ++ itemStrings items

def entryStrings : List (String × Value) → List String
  | [] => []
  | (key, value) :: entries => key :: value.strings ++ entryStrings entries

end

def Value.Unstyled (value : Value) : Prop := ∀ text ∈ value.strings, LiteralLint.Unstyled text

def Table.Unstyled (t : Table) : Prop := ∀ text ∈ entryStrings t, LiteralLint.Unstyled text

instance (t : Table) : Decidable t.Unstyled :=
  inferInstanceAs (Decidable (∀ text ∈ entryStrings t, LiteralLint.Unstyled text))

section

variable {key : String} {value : Value} {entries t : Table} {items : List Value}

@[simp] theorem Value.unstyled_list_iff :
    (Value.list items).Unstyled ↔ ∀ item ∈ items, item.Unstyled := by
  rw [Unstyled, strings]
  induction items with
  | nil => simp [itemStrings]
  | cons item items ih => simp [itemStrings, or_imp, forall_and, ih, Unstyled]

@[simp] theorem Value.unstyled_table_iff :
    (Value.table entries).Unstyled ↔ Table.Unstyled entries := by
  rw [Unstyled, strings, Table.Unstyled]

namespace Table

theorem unstyled_nil : Table.Unstyled [] := by
  simp [Table.Unstyled, entryStrings]

@[simp] theorem unstyled_cons_iff : Table.Unstyled ((key, value) :: t) ↔
    LiteralLint.Unstyled key ∧ value.Unstyled ∧ Table.Unstyled t := by
  simp [Table.Unstyled, Value.Unstyled, entryStrings, or_imp, forall_and]

theorem Unstyled.lookup (h : t.Unstyled) (hLookup : List.lookup key t = some value) :
    value.Unstyled := by
  induction t with
  | nil => cases hLookup
  | cons entry t ih =>
    obtain ⟨-, hValue, hRest⟩ := unstyled_cons_iff.mp h
    rw [lookup_cons] at hLookup
    split at hLookup
    · cases hLookup
      exact hValue
    · exact ih hRest hLookup

theorem Unstyled.put (h : t.Unstyled) (hKey : LiteralLint.Unstyled key) (hValue : value.Unstyled) :
    (t.put key value).Unstyled := by
  induction t with
  | nil => exact unstyled_cons_iff.mpr ⟨hKey, hValue, h⟩
  | cons entry t ih =>
    obtain ⟨hFirst, hOld, hRest⟩ := unstyled_cons_iff.mp h
    rw [Table.put]
    split
    · exact unstyled_cons_iff.mpr ⟨hKey, hValue, h⟩
    · split
      · exact unstyled_cons_iff.mpr ⟨hKey, hValue, hRest⟩
      · exact unstyled_cons_iff.mpr ⟨hFirst, hOld, ih hRest⟩

end Table

end

mutual

theorem Value.Unstyled.merge :
    ∀ {older newer : Value}, older.Unstyled → newer.Unstyled → (older.merge newer).Unstyled
  | older, .table entries, hOlder, hNewer => by
    rw [Value.merge.eq_def]
    dsimp only
    split
    · rw [Value.unstyled_table_iff] at hOlder hNewer ⊢
      exact hOlder.merge hNewer
    · exact hNewer
  | _, .unit, _, h | _, .bool _, _, h | _, .text _, _, h | _, .character _, _, h
  | _, .signed _, _, h | _, .unsigned _, _, h | _, .wide _, _, h | _, .real _, _, h
  | _, .list _, _, h => by
    rwa [Value.merge_eq_of_not_isTable id]

theorem Table.Unstyled.merge :
    ∀ {older newer : Table}, older.Unstyled → newer.Unstyled → (older.merge newer).Unstyled
  | _, [], hOlder, _ => by rwa [Table.merge]
  | older, (key, value) :: newer, hOlder, hNewer => by
    obtain ⟨hKey, hValue, hRest⟩ := Table.unstyled_cons_iff.mp hNewer
    rw [Table.merge]
    refine Table.Unstyled.merge (hOlder.put hKey ?_) hRest
    split
    · rename_i old hLookup
      exact (hOlder.lookup hLookup).merge hValue
    · exact hValue

end

theorem unstyled_mergeLayers {layers : List Layer} (h : ∀ layer ∈ layers, layer.table.Unstyled) :
    (mergeLayers layers).Unstyled := by
  induction layers using List.reverseRecOn with
  | nil => exact Table.unstyled_nil
  | append_singleton layers layer ih =>
    rw [List.forall_mem_append] at h
    rw [mergeLayers, List.foldl_append]
    exact (ih h.1).merge (h.2 layer List.mem_cons_self)

theorem unstyled_describe (found : Found) : Unstyled found.describe := by
  cases found with
  | unit | sequence | map => decide
  | bool b =>
    change Unstyled s!"bool {b}"
    simp
    decide
  | text s =>
    change Unstyled s!"string {Text.quoted s}"
    simp
    decide
  | signed n =>
    change Unstyled s!"signed int \x60{n}\x60"
    simp
    decide
  | unsigned n =>
    change Unstyled s!"unsigned int \x60{n}\x60"
    simp
    decide
  | wide n =>
    change Unstyled
      (if n < 0 then s!"integer \x60{n}\x60 as i128" else s!"integer \x60{n}\x60 as u128")
    split <;> simp <;> decide
  | real f =>
    change Unstyled s!"float \x60{String.ofList f.positional}\x60"
    simp [f.escape_not_mem_positional]
    decide

section

variable {found expected name : String}

theorem unstyled_invalidType (h : Unstyled expected) (found : Found) :
    Unstyled (describeMismatch (.invalidType found expected)) := by
  change Unstyled s!"invalid type: found {found.describe}, expected {expected}"
  simp [unstyled_describe, h]
  decide

theorem unstyled_invalidValue (h : Unstyled expected) (found : Found) :
    Unstyled (describeMismatch (.invalidValue found expected)) := by
  change Unstyled s!"invalid value {found.describe}, expected {expected}"
  simp [unstyled_describe, h]
  decide

theorem unstyled_invalidLength (h : Unstyled expected) (count : Nat) :
    Unstyled (describeMismatch (.invalidLength count expected)) := by
  change Unstyled s!"invalid length {count}, expected {expected}"
  simp [h]
  decide

theorem unstyled_unknownVariant (h : Unstyled found) {known : List String}
    (hKnown : Unstyled (choiceOf known)) :
    Unstyled (describeMismatch (.unknownVariant found known)) := by
  change Unstyled s!"unknown variant: found \x60{found}\x60, expected \x60{choiceOf known}\x60"
  simp [h, hKnown]
  decide

theorem unstyled_missingField (h : Unstyled name) :
    Unstyled (describeMismatch (.missingField name)) := by
  change Unstyled s!"missing field \x60{name}\x60"
  simp [h]
  decide

end

def Misfit.Unstyled (misfit : Misfit) : Prop :=
  LiteralLint.Unstyled (describeMismatch misfit.cause)

/-- Unstyled values are read as something with the property, or what is wrong with them is said in
unstyled text. -/
def Reader.Settles {α : Type} (reader : Reader α) (P : α → Prop) : Prop :=
  ∀ path value, value.Unstyled →
    Ends P Misfit.Unstyled (reader path value)

namespace Reader

variable {α : Type} {P : α → Prop} {item : Reader α} {expected key : String} {path : List String}
  {entries : Table} {value : Value}

theorem ends_wrongType (h : Unstyled expected) :
    Ends P Misfit.Unstyled
      (wrongType expected path value) :=
  unstyled_invalidType h value.found

theorem settles_bool : Settles bool fun _ => True := by
  intro path value _
  unfold bool
  split
  · trivial
  · exact ends_wrongType (by decide)

theorem settles_textAs (h : Unstyled expected) : Settles (textAs expected) Unstyled := by
  intro path value hValue
  unfold textAs
  split
  · exact hValue _ (by simp [Value.strings])
  · exact hValue _ (by simp [Value.strings])
  · exact ends_wrongType h

theorem settles_natural : Settles natural fun _ => True := by
  intro path value _
  unfold natural
  split
  · trivial
  · split
    · exact unstyled_invalidValue (by decide) _
    · trivial
  · exact ends_wrongType (by decide)

theorem Settles.optional (h : item.Settles P) :
    Settles (optional item) fun read => ∀ content ∈ read, P content := by
  intro path value hValue
  unfold Reader.optional
  split
  · exact fun _ hNone => by cases hNone
  · refine (h path _ hValue).map fun content hContent _ hSome => ?_
    cases hSome
    exact hContent

theorem Settles.list (h : item.Settles P) :
    Settles (list item) fun read => ∀ content ∈ read, P content := by
  intro path value hValue
  unfold Reader.list
  split
  · rw [Value.unstyled_list_iff] at hValue
    refine Ends.mapM fun entry hEntry => h _ _ (hValue _ ?_)
    exact List.fst_mem_of_mem_zipIdx hEntry
  · exact ends_wrongType (by decide)

theorem ends_logLevelNamed {named : String} (h : Unstyled named) :
    Ends (fun _ => True) Misfit.Unstyled
      (logLevel path (.text named)) := by
  simp only [logLevel]
  split
  · trivial
  · exact unstyled_unknownVariant h (by decide)

theorem settles_logLevel : Settles logLevel fun _ => True := by
  intro path value hValue
  cases value with
  | text s => exact ends_logLevelNamed (hValue s (by simp [Value.strings]))
  | table entries =>
    rcases entries with _ | ⟨⟨key, value⟩, others⟩
    · exact ends_wrongType (by decide)
    · rw [Value.unstyled_table_iff, Table.unstyled_cons_iff] at hValue
      refine Ends.bind (ends_logLevelNamed hValue.1) fun level _ => ?_
      cases value with
      | unit => trivial
      | _ => exact ends_wrongType (by decide)
  | _ => exact ends_wrongType (by decide)

theorem Settles.field (h : item.Settles P) (hEntries : entries.Unstyled) (key : String) :
    Ends (fun read => ∀ content ∈ read, P content)
      Misfit.Unstyled
      (field item path entries key) := by
  rw [Reader.field]
  split
  · rename_i value hLookup
    refine (h _ _ (hEntries.lookup hLookup)).map fun content hContent _ hSome => ?_
    cases hSome
    exact hContent
  · exact fun _ hNone => by cases hNone

theorem settles_override :
    Settles override fun o => ∀ value ∈ o.allowedValues, Unstyled value := by
  have hTexts : (Reader.list text).Settles fun read => ∀ value ∈ read, Unstyled value :=
    (settles_textAs (by decide)).list
  intro path value hValue
  unfold override
  split
  · rw [Value.unstyled_table_iff] at hValue
    refine (hTexts.field hValue "allowed_values").bind fun allowed? hAllowed => ?_
    refine (hTexts.field hValue "paths").bind fun paths? _ => ?_
    cases paths? with
    | none => exact unstyled_missingField (by decide)
    | some paths =>
      cases allowed? with
      | none => exact unstyled_missingField (by decide)
      | some values => exact hAllowed values rfl
  · rw [Value.unstyled_list_iff] at hValue
    have hShort (count : Nat) : Unstyled
        (describeMismatch (.invalidLength count "struct Override with 2 elements")) :=
      unstyled_invalidLength (by decide) count
    split
    · exact hShort _
    · rename_i first rest
      obtain ⟨hFirst, hRest⟩ := List.forall_mem_cons.mp hValue
      refine (hTexts _ _ hFirst).bind fun paths _ => ?_
      cases rest with
      | nil => exact hShort _
      | cons second others =>
        refine (hTexts _ _ (hRest second List.mem_cons_self)).bind fun values hValues => ?_
        exact hValues
  · exact ends_wrongType (by decide)

end Reader

structure AllowsUnstyled (config : Config) : Prop where
  fallback : ∀ value ∈ config.allowedValues, Unstyled value
  overrides : ∀ o ∈ config.overrides.getD [], ∀ value ∈ o.allowedValues, Unstyled value

theorem ends_ofTable {entries : Table} (h : entries.Unstyled) :
    Ends AllowsUnstyled Misfit.Unstyled (ofTable entries) := by
  have hText : Reader.text.Settles Unstyled := Reader.settles_textAs (by decide)
  have hPath : Reader.path.Settles Unstyled := Reader.settles_textAs (by decide)
  refine (hText.list.field h "allowed_values").bind fun allowed? hAllowed => ?_
  refine (Reader.settles_bool.field h "disable_input_limit").bind fun disable? _ => ?_
  refine (hPath.optional.field h "log_dir").bind fun logDir? _ => ?_
  refine (Reader.settles_logLevel.field h "log_level").bind fun logLevel? _ => ?_
  refine (Reader.settles_natural.optional.field h "max_input_bytes").bind fun most? _ => ?_
  refine (Reader.settles_override.list.optional.field h "overrides").bind fun overrides? hAll => ?_
  refine ⟨?_, ?_⟩
  · cases allowed? with
    | none => exact (by decide : ∀ value ∈ AllowList.standardValues, Unstyled value)
    | some values => exact hAllowed values rfl
  · rcases overrides? with _ | _ | os
    · exact List.forall_mem_nil _
    · exact List.forall_mem_nil _
    · exact hAll (some os) rfl os rfl

end LiteralLint.Config
