import LiteralLint.Proofs.Config.Setting
import LiteralLint.Proofs.Interchange.RoundTrip
import LiteralLint.Proofs.Json.Shape

/-! # The arrangement of a text does not matter

What a text is decoded to depends neither on the order of its members nor on unknown ones, nor on
the space in it, nor on whether fields are named or listed. A field that stands twice is refused,
and so is one that is missing, unless it has a default. -/

set_option autoImplicit false

namespace LiteralLint

open Json (Broken Draft Rearranged Respects Shape Spells respects_scalar)
open Json.Record (HasFields)

def Position.shape : Shape := .struct false [("line", .scalar), ("character", .scalar)]

def Range.shape : Shape := .struct false [("start", Position.shape), ("end", Position.shape)]

def Diagnostic.shape : Shape :=
  .struct false [("severity", .scalar), ("range", Range.shape), ("message", .scalar),
    ("source", .scalar), ("code", .scalar)]

def Document.shape : Shape :=
  .struct false [("uri", .scalar), ("language_id", .scalar), ("version", .scalar),
    ("text", .scalar)]

def Report.shape : Shape :=
  .struct false [("uri", .scalar), ("language_id", .scalar), ("version", .scalar),
    ("diagnostics", .list Diagnostic.shape), ("pass", .scalar)]

def Override.shape : Shape :=
  .struct false [("paths", .list .scalar), ("allowed_values", .list .scalar)]

def Config.shape : Shape :=
  .struct true [("log_level", .scalar), ("log_dir", .scalar), ("allowed_values", .list .scalar),
    ("max_input_bytes", .scalar), ("disable_input_limit", .scalar),
    ("overrides", .list Override.shape)]

def Form.shape : Form → Shape
  | position => Position.shape
  | range => Range.shape
  | diagnostic => Diagnostic.shape
  | document => Document.shape
  | report => Report.shape
  | override => Override.shape
  | config => Config.shape
  | severity | logLevel => .scalar

theorem Position.respects : Respects shape decoder :=
  HasFields.respects (.apply (.apply (.pure false mk) (.field (respects_scalar _)))
    (.field (respects_scalar _))) (by decide) "Position"

theorem Range.respects : Respects shape decoder :=
  HasFields.respects (.apply (.apply (.pure false mk) (.field Position.respects))
    (.field Position.respects)) (by decide) "Range"

theorem Diagnostic.respects : Respects shape decoder :=
  HasFields.respects
    (.apply
      (.apply
        (.apply
          (.apply (.apply (.pure false mk) (.field (respects_scalar _))) (.field Range.respects))
          (.field (respects_scalar _)))
        (.field (respects_scalar _)))
      (.field (respects_scalar _)))
    (by decide) "Diagnostic"

theorem Document.respects : Respects shape decoder :=
  HasFields.respects
    (.apply
      (.apply
        (.apply (.apply (.pure false mk) (.field (respects_scalar _))) (.field (respects_scalar _)))
        (.field (respects_scalar _)))
      (.field (respects_scalar _)))
    (by decide) "Document"

theorem Report.respects : Respects shape decoder :=
  HasFields.respects
    (.apply
      (.apply
        (.apply
          (.apply (.apply (.pure false mk) (.field (respects_scalar _)))
            (.field (respects_scalar _)))
          (.field (respects_scalar _)))
        (.field Diagnostic.respects.list))
      (.field (respects_scalar _)))
    (by decide) "DocumentReport"

theorem Override.respects : Respects shape decoder :=
  HasFields.respects (.apply (.apply (.pure false mk) (.field (respects_scalar _).list))
    (.field (respects_scalar _).list)) (by decide) "Override"

theorem Config.respects : Respects shape decoder :=
  HasFields.respects
    (.apply
      (.apply
        (.apply
          (.apply
            (.apply (.apply (.pure true mk) (.field (respects_scalar _)))
              (.field (respects_scalar _)))
            (.field (respects_scalar _).list))
          (.field (respects_scalar _)))
        (.field (respects_scalar _)))
      (.field Override.respects.list.optional))
    (by decide) "Config"

theorem Form.respects : (form : Form) → Respects form.shape form.decoder
  | position => Position.respects
  | range => Range.respects
  | diagnostic => Diagnostic.respects
  | document => Document.respects
  | report => Report.respects
  | override => Override.respects
  | config => Config.respects
  | severity | logLevel => respects_scalar _

namespace Config.Setting

def decoder : (setting : Setting) → Json.Decoder setting.Content
  | allowedValues => Json.Decode.list Json.Decode.string
  | disableInputLimit => Json.Decode.bool
  | logDir => Json.Decode.optional Json.Decode.path
  | logLevel => LogLevel.decoder
  | maxInputBytes => Json.Decode.optional Json.Decode.natural
  | overrides => Json.Decode.optional (Json.Decode.list Override.decoder)

theorem key_injective : Function.Injective key := by
  have hUnique : (all.map key).Nodup := by decide
  exact fun s t h => List.inj_on_of_nodup_map hUnique (mem_all s) (mem_all t) h

theorem key_mem_names (setting : Setting) : setting.key ∈ record.names := by
  cases setting <;> decide

def configOf (content : (setting : Setting) → setting.Content) : Config where
  logLevel := content logLevel
  logDir := content logDir
  allowedValues := content allowedValues
  maxInputBytes := content maxInputBytes
  disableInputLimit := content disableInputLimit
  overrides := content overrides

theorem of_configOf (content : (setting : Setting) → setting.Content) (setting : Setting) :
    setting.of (configOf content) = content setting := by
  cases setting <;> rfl

end Config.Setting

namespace Config

section

variable {given : List Setting} {drafts : Setting → Draft} {config : Config}

theorem yields_setting (missing : String → Json.DecodeError)
    (hUnique : ((given.map fun s => (s.key, drafts s)).map Prod.fst).Nodup)
    (hDecoded : ∀ s ∈ given, s.decoder (drafts s) = .ok (s.of config)) (setting : Setting) :
    (Json.Record.field setting.key setting.decoder (some (setting.of standard))).Yields
      (List.lookup · (given.map fun s => (s.key, drafts s))) missing
      (if setting ∈ given then setting.of config else setting.of standard) := by
  rw [Json.Record.yields_field_iff]
  split
  · rename_i hGiven
    have hMember : (setting.key, drafts setting) ∈ given.map fun s => (s.key, drafts s) :=
      List.mem_map_of_mem hGiven
    exact Or.inl ⟨_, (Json.lookup_eq_some_iff_mem hUnique).mpr hMember, hDecoded setting hGiven⟩
  · rename_i hAbsent
    refine Or.inr ⟨Option.eq_none_iff_forall_ne_some.mpr fun d hSome => hAbsent ?_, rfl⟩
    obtain ⟨s, hGiven, hEq⟩ := List.mem_map.mp ((Json.lookup_eq_some_iff_mem hUnique).mp hSome)
    rwa [← Setting.key_injective (Prod.mk.inj hEq).1]

theorem decoder_settings (hUnique : given.Nodup)
    (hDecoded : ∀ s ∈ given, s.decoder (drafts s) = .ok (s.of config)) :
    decoder (.object (given.map fun s => (some s.key, drafts s)) true) =
      .ok (Setting.configOf fun s => if s ∈ given then s.of config else s.of standard) := by
  have hKeys : ((given.map fun s => (s.key, drafts s)).map Prod.fst).Nodup := by
    rw [List.map_map]
    exact hUnique.map Setting.key_injective
  have hKnown : (given.map fun s => (s.key, drafts s)).map Prod.fst ⊆ record.names := by
    intro key hKey
    rw [List.map_map] at hKey
    obtain ⟨s, -, rfl⟩ := List.mem_map.mp hKey
    exact s.key_mem_names
  have hMembers : given.map (fun s => (some s.key, drafts s)) =
      (given.map fun s => (s.key, drafts s)).map fun m => (some m.1, m.2) := by
    rw [List.map_map]
    rfl
  have hYields := fun missing => yields_setting missing hKeys hDecoded
  rw [hMembers, decoder, Json.Record.decoder_object_named_iff hKnown]
  refine ⟨hKeys, ?_⟩
  exact .apply
    (.apply
      (.apply
        (.apply (.apply (.apply (.pure mk) (hYields _ .logLevel)) (hYields _ .logDir))
          (hYields _ .allowedValues))
        (hYields _ .maxInputBytes))
      (hYields _ .disableInputLimit))
    (hYields _ .overrides)

end

end Config

/-- A text that is decoded is decoded alike when it is rearranged or has other space, and when the
fields of its object are listed. No text with a repeated field is decoded, and none that lacks a
field, apart from configurations: there the settings that are given, whichever they are, replace
those of the standard one. -/
theorem decodeText_of_rearranged :
    (∀ (form : Form) (text : String) (x : form.Content),
      Json.decodeText form.decoder text = .ok x →
        ∃ d, Spells text d ∧
          (∀ (e : Draft) (other : String), Rearranged form.shape d e → Spells other e →
            Json.decodeText form.decoder other = .ok x) ∧
          ∀ (ds : List Draft) (other : String), form.shape.ListedAs d ds →
            Spells other (.array ds true) → Json.decodeText form.decoder other = .ok x) ∧
    (∀ (form : Form) (d : Draft) (text : String), Broken form.shape d → Spells text d →
      ∃ e, Json.decodeText form.decoder text = .error e) ∧
    ∀ (given : List Config.Setting) (drafts : Config.Setting → Draft) (config : Config)
      (text : String), given.Nodup →
      (∀ s ∈ given, s.decoder (drafts s) = .ok (s.of config)) →
      Spells text (.object (given.map fun s => (some s.key, drafts s)) true) →
        ∃ result, Json.decodeText Config.decoder text = .ok result ∧
          ∀ s : Config.Setting,
            s.of result = if s ∈ given then s.of config else s.of Config.standard := by
  refine ⟨fun form text x h => ?_, fun form d text hBroken hSpelled => ?_,
    fun given drafts config text hUnique hDecoded hSpelled => ?_⟩
  · obtain ⟨d, hSpelled, hDecoded⟩ := Json.decodeText_eq_ok_iff.mp h
    refine ⟨d, hSpelled, fun e other hRearranged hOther => ?_, fun ds other hListed hOther => ?_⟩
    · rw [Json.decodeText_of_spells hOther]
      exact (form.respects.rearranged hRearranged x).mp hDecoded
    · rw [Json.decodeText_of_spells hOther]
      exact form.respects.listed hListed x hDecoded
  · rw [Json.decodeText_of_spells hSpelled]
    cases hDecoded : form.decoder d with
    | error e => exact ⟨e, rfl⟩
    | ok x => exact absurd hDecoded (form.respects.broken hBroken x)
  · rw [Json.decodeText_of_spells hSpelled]
    exact ⟨_, Config.decoder_settings hUnique hDecoded, Config.Setting.of_configOf _⟩

end LiteralLint
