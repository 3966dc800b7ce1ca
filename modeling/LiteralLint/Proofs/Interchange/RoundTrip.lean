import LiteralLint.Interchange
import LiteralLint.Proofs.Json.Decoding
import LiteralLint.Proofs.Json.Reading

/-! # JSON forms are read back

What is written of a value is decoded to that value, for every type that has a JSON form. Only its
natural numbers have to fit 64 bits. -/

set_option autoImplicit false

namespace LiteralLint

open Json (Decoder greatestNatural)

inductive Form where
  | position
  | range
  | severity
  | diagnostic
  | document
  | report
  | logLevel
  | override
  | config
deriving DecidableEq, Repr

def Position.Fits (p : Position) : Prop :=
  p.line ≤ greatestNatural ∧ p.character ≤ greatestNatural

def Range.Fits (r : Range) : Prop := r.start.Fits ∧ r.stop.Fits

def Diagnostic.Fits (d : Diagnostic) : Prop := d.range.Fits

def Report.Fits (r : Report) : Prop := ∀ d ∈ r.diagnostics, d.Fits

def Config.Fits (c : Config) : Prop := ∀ n ∈ c.maxInputBytes, n ≤ greatestNatural

namespace Form

abbrev Content : Form → Type
  | position => Position
  | range => Range
  | severity => Severity
  | diagnostic => Diagnostic
  | document => Document
  | report => Report
  | logLevel => LogLevel
  | override => Override
  | config => Config

def toJson : (form : Form) → form.Content → Json
  | position => Position.toJson
  | range => Range.toJson
  | severity => Severity.toJson
  | diagnostic => Diagnostic.toJson
  | document => Document.toJson
  | report => Report.toJson
  | logLevel => LogLevel.toJson
  | override => Override.toJson
  | config => Config.toJson

def decoder : (form : Form) → Decoder form.Content
  | position => Position.decoder
  | range => Range.decoder
  | severity => Severity.decoder
  | diagnostic => Diagnostic.decoder
  | document => Document.decoder
  | report => Report.decoder
  | logLevel => LogLevel.decoder
  | override => Override.decoder
  | config => Config.decoder

/-- All natural numbers of the value fit 64 bits; the other numbers have a type of their own. -/
def Fits : (form : Form) → form.Content → Prop
  | position => Position.Fits
  | range => Range.Fits
  | diagnostic => Diagnostic.Fits
  | report => Report.Fits
  | config => Config.Fits
  | severity | document | logLevel | override => fun _ => True

end Form

open Json.Record (decoder_draft Yields)

theorem Position.decoder_toJson {p : Position} (h : p.Fits) : decoder p.toJson.draft = .ok p :=
  decoder_draft rfl (by decide) fun _ =>
    .apply (.apply (.pure mk) (.field rfl (Json.Decode.natural_int h.1)))
      (.field rfl (Json.Decode.natural_int h.2))

theorem Range.decoder_toJson {r : Range} (h : r.Fits) : decoder r.toJson.draft = .ok r :=
  decoder_draft rfl (by decide) fun _ =>
    .apply (.apply (.pure mk) (.field rfl (Position.decoder_toJson h.1)))
      (.field rfl (Position.decoder_toJson h.2))

theorem Severity.decoder_toJson (s : Severity) : decoder s.toJson.draft = .ok s := by
  cases s <;> rfl

theorem Diagnostic.decoder_toJson {d : Diagnostic} (h : d.Fits) : decoder d.toJson.draft = .ok d :=
  decoder_draft rfl (by decide) fun _ =>
    .apply
      (.apply
        (.apply
          (.apply (.apply (.pure mk) (.field rfl (Severity.decoder_toJson d.severity)))
            (.field rfl (Range.decoder_toJson h)))
          (.field rfl rfl))
        (.field rfl rfl))
      (.field rfl rfl)

theorem Document.decoder_toJson (d : Document) : decoder d.toJson.draft = .ok d :=
  decoder_draft rfl (by decide) fun _ =>
    .apply
      (.apply (.apply (.apply (.pure mk) (.field rfl rfl)) (.field rfl rfl))
        (.field rfl (Json.Decode.int32_int d.version)))
      (.field rfl rfl)

theorem Report.decoder_toJson {r : Report} (h : r.Fits) : decoder r.toJson.draft = .ok r :=
  decoder_draft rfl (by decide) fun _ =>
    .apply
      (.apply
        (.apply
          (.apply (.apply (.pure mk) (.field rfl rfl)) (.field rfl rfl))
          (.field rfl (Json.Decode.int32_int r.version)))
        (.field rfl (Json.Decode.list_draft fun d hMem => Diagnostic.decoder_toJson (h d hMem))))
      (.field rfl rfl)

theorem LogLevel.decoder_toJson (level : LogLevel) : decoder level.toJson.draft = .ok level := by
  cases level <;> rfl

theorem list_string_strings (values : List String) :
    Json.Decode.list Json.Decode.string (Json.strings values).draft = .ok values :=
  Json.Decode.list_draft fun _ _ => rfl

theorem Override.decoder_toJson (o : Override) : decoder o.toJson.draft = .ok o :=
  decoder_draft rfl (by decide) fun _ =>
    .apply (.apply (.pure mk) (.field rfl (list_string_strings o.paths)))
      (.field rfl (list_string_strings o.allowedValues))

theorem optional_natural_int {value : Option Nat} (h : ∀ n ∈ value, n ≤ greatestNatural) :
    Json.Decode.optional Json.Decode.natural (Json.optional (fun n => .int n) value).draft =
      .ok value := by
  cases value with
  | none => rfl
  | some n =>
    have hWritten := Json.Decode.natural_int (h n rfl)
    exact congrArg (some <$> ·) hWritten

theorem Config.decoder_toJson {c : Config} (h : c.Fits) : decoder c.toJson.draft = .ok c := by
  have hLogDir : Json.Decode.optional Json.Decode.path (Json.optional .str c.logDir).draft =
      .ok c.logDir := Json.Decode.optional_draft (fun _ => nofun) fun _ _ => rfl
  have hOverrides : Json.Decode.optional (Json.Decode.list Override.decoder)
      (Json.optional (fun os => .arr (os.map Override.toJson)) c.overrides).draft =
      .ok c.overrides := Json.Decode.optional_draft (fun _ => nofun) fun _ _ =>
    Json.Decode.list_draft fun o _ => Override.decoder_toJson o
  refine decoder_draft rfl (by decide) fun _ => ?_
  exact .apply
    (.apply
      (.apply
        (.apply
          (.apply (.apply (.pure mk) (.field rfl (LogLevel.decoder_toJson c.logLevel)))
            (.field rfl hLogDir))
          (.field rfl (list_string_strings c.allowedValues)))
        (.field rfl (optional_natural_int h)))
      (.field rfl rfl))
    (.field rfl hOverrides)

theorem Form.decoder_toJson : ∀ {form : Form} {x : form.Content}, form.Fits x →
    form.decoder (form.toJson x).draft = .ok x
  | position, _, h => Position.decoder_toJson h
  | range, _, h => Range.decoder_toJson h
  | severity, s, _ => Severity.decoder_toJson s
  | diagnostic, _, h => Diagnostic.decoder_toJson h
  | document, d, _ => Document.decoder_toJson d
  | report, _, h => Report.decoder_toJson h
  | logLevel, level, _ => LogLevel.decoder_toJson level
  | override, o, _ => Override.decoder_toJson o
  | config, _, h => Config.decoder_toJson h

/-- The compact text of a value is decoded to the value. -/
theorem decodeText_compact {form : Form} {x : form.Content} (h : form.Fits x) :
    Json.decodeText form.decoder (form.toJson x).compact = .ok x := by
  rw [Json.decodeText_of_read (Json.read_compact _), Form.decoder_toJson h]

def escapedConfig : Config where
  logDir := some "a\\b \"c\"\n\x01😀"
  maxInputBytes := some greatestNatural
  overrides := some [⟨["*.md"], ["md", "\t"]⟩, ⟨[], []⟩]

theorem decodeText_compact_escapedConfig :
    Form.config.Fits escapedConfig ∧
      Json.decodeText Form.config.decoder (Form.config.toJson escapedConfig).compact =
        .ok escapedConfig := by
  have hFits : Form.config.Fits escapedConfig := by
    rintro n ⟨⟩
    exact Nat.le_refl _
  exact ⟨hFits, decodeText_compact hFits⟩

end LiteralLint
