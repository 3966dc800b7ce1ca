import LiteralLint.Config.Decode
import LiteralLint.Proofs.Traversal

/-! # The settings one by one

A configuration is read setting by setting: each one has its own key and its own type, and nothing
but the value under its key decides on it. -/

set_option autoImplicit false

namespace LiteralLint.Config

inductive Setting where
  | allowedValues
  | disableInputLimit
  | logDir
  | logLevel
  | maxInputBytes
  | overrides
deriving DecidableEq, Repr

namespace Setting

def all : List Setting :=
  [allowedValues, disableInputLimit, logDir, logLevel, maxInputBytes, overrides]

theorem mem_all (setting : Setting) : setting ∈ all := by
  cases setting <;> decide

def key : Setting → String
  | allowedValues => "allowed_values"
  | disableInputLimit => "disable_input_limit"
  | logDir => "log_dir"
  | logLevel => "log_level"
  | maxInputBytes => "max_input_bytes"
  | overrides => "overrides"

abbrev Content : Setting → Type
  | allowedValues => List String
  | disableInputLimit => Bool
  | logDir => Option String
  | logLevel => LogLevel
  | maxInputBytes => Option Nat
  | overrides => Option (List Override)

def reader : (setting : Setting) → Reader setting.Content
  | allowedValues => .list .text
  | disableInputLimit => .bool
  | logDir => .optional .path
  | logLevel => .logLevel
  | maxInputBytes => .optional .natural
  | overrides => .optional (.list .override)

def of (config : Config) : (setting : Setting) → setting.Content
  | allowedValues => config.allowedValues
  | disableInputLimit => config.disableInputLimit
  | logDir => config.logDir
  | logLevel => config.logLevel
  | maxInputBytes => config.maxInputBytes
  | overrides => config.overrides

/-- The setting is read from a value, or has its default where there is none. -/
def Takes (setting : Setting) (config : Config) : Option Value → Prop
  | some value => setting.reader [setting.key] value = .ok (setting.of config)
  | none => setting.of config = setting.of standard

variable {setting : Setting} {config : Config} {entries : Table}

theorem takes_of_field {read : Option setting.Content}
    (h : Reader.field setting.reader [] entries setting.key = .ok read)
    (hOf : setting.of config = read.getD (setting.of standard)) :
    setting.Takes config (List.lookup setting.key entries) := by
  rw [Reader.field] at h
  cases hLookup : List.lookup setting.key entries with
  | none =>
    rw [hLookup] at h
    cases h
    exact hOf
  | some value =>
    simp only [hLookup, List.nil_append] at h
    cases hRead : setting.reader [setting.key] value with
    | error misfit =>
      rw [hRead] at h
      cases h
    | ok content =>
      rw [hRead] at h
      cases h
      rw [Takes, hRead, hOf]
      rfl

end Setting

theorem takes_of_ofTable {config : Config} {entries : Table} (h : ofTable entries = .ok config)
    (setting : Setting) : setting.Takes config (List.lookup setting.key entries) := by
  obtain ⟨allowedValues, hAllowedValues, h⟩ := bind_eq_ok h
  obtain ⟨disableInputLimit, hDisableInputLimit, h⟩ := bind_eq_ok h
  obtain ⟨logDir, hLogDir, h⟩ := bind_eq_ok h
  obtain ⟨logLevel, hLogLevel, h⟩ := bind_eq_ok h
  obtain ⟨maxInputBytes, hMaxInputBytes, h⟩ := bind_eq_ok h
  obtain ⟨overrides, hOverrides, h⟩ := bind_eq_ok h
  cases h
  cases setting with
  | allowedValues => exact Setting.takes_of_field hAllowedValues rfl
  | disableInputLimit => exact Setting.takes_of_field hDisableInputLimit rfl
  | logDir => exact Setting.takes_of_field hLogDir rfl
  | logLevel => exact Setting.takes_of_field hLogLevel rfl
  | maxInputBytes => exact Setting.takes_of_field hMaxInputBytes rfl
  | overrides => exact Setting.takes_of_field hOverrides rfl

end LiteralLint.Config
