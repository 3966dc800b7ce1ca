import LiteralLint.Config.Basic
import LiteralLint.Json.Basic
import LiteralLint.Json.Decode

/-! # JSON forms

How positions, diagnostics, documents, reports and configurations are written as JSON and read
back. Every field of a configuration may be left out. -/

set_option autoImplicit false

namespace LiteralLint

open Json (Decoder Record)

namespace Position

def toJson (p : Position) : Json := .obj [("line", .int p.line), ("character", .int p.character)]

def record : Record Position :=
  .apply (.apply (.pure mk) (.required "line" Json.Decode.natural))
    (.required "character" Json.Decode.natural)

def decoder : Decoder Position := record.decoder "Position"

end Position

namespace Range

def toJson (r : Range) : Json := .obj [("start", r.start.toJson), ("end", r.stop.toJson)]

def record : Record Range :=
  .apply (.apply (.pure mk) (.required "start" Position.decoder)) (.required "end" Position.decoder)

def decoder : Decoder Range := record.decoder "Range"

end Range

namespace Severity

def toJson (s : Severity) : Json := .str s.name

def decoder : Decoder Severity := Json.Decode.variant all name

end Severity

namespace Diagnostic

def toJson (d : Diagnostic) : Json :=
  .obj [("severity", d.severity.toJson), ("range", d.range.toJson), ("message", .str d.message),
    ("source", .str d.source), ("code", .str d.code)]

def record : Record Diagnostic :=
  .apply
    (.apply
      (.apply
        (.apply (.apply (.pure mk) (.required "severity" Severity.decoder))
          (.required "range" Range.decoder))
        (.required "message" Json.Decode.string))
      (.required "source" Json.Decode.string))
    (.required "code" Json.Decode.string)

def decoder : Decoder Diagnostic := record.decoder "Diagnostic"

end Diagnostic

namespace Document

def toJson (d : Document) : Json :=
  .obj [("uri", .str d.uri), ("language_id", .str d.languageId), ("version", .int d.version.toInt),
    ("text", .str d.text)]

def record : Record Document :=
  .apply
    (.apply
      (.apply (.apply (.pure mk) (.required "uri" Json.Decode.string))
        (.required "language_id" Json.Decode.string))
      (.required "version" Json.Decode.int32))
    (.required "text" Json.Decode.string)

def decoder : Decoder Document := record.decoder "Document"

end Document

namespace Report

def toJson (r : Report) : Json :=
  .obj [("uri", .str r.uri), ("language_id", .str r.languageId), ("version", .int r.version.toInt),
    ("diagnostics", .arr (r.diagnostics.map Diagnostic.toJson)), ("pass", .bool r.pass)]

def record : Record Report :=
  .apply
    (.apply
      (.apply
        (.apply (.apply (.pure mk) (.required "uri" Json.Decode.string))
          (.required "language_id" Json.Decode.string))
        (.required "version" Json.Decode.int32))
      (.required "diagnostics" (Json.Decode.list Diagnostic.decoder)))
    (.required "pass" Json.Decode.bool)

def decoder : Decoder Report := record.decoder "DocumentReport"

end Report

namespace LogLevel

def toJson (level : LogLevel) : Json := .str level.name

def decoder : Decoder LogLevel := Json.Decode.variant all name

end LogLevel

namespace Override

def toJson (o : Override) : Json :=
  .obj [("paths", .strings o.paths), ("allowed_values", .strings o.allowedValues)]

def record : Record Override :=
  .apply (.apply (.pure mk) (.required "paths" (Json.Decode.list Json.Decode.string)))
    (.required "allowed_values" (Json.Decode.list Json.Decode.string))

def decoder : Decoder Override := record.decoder "Override"

end Override

namespace Config

def toJson (c : Config) : Json :=
  .obj [("log_level", c.logLevel.toJson), ("log_dir", .optional .str c.logDir),
    ("allowed_values", .strings c.allowedValues),
    ("max_input_bytes", .optional (fun n => .int n) c.maxInputBytes),
    ("disable_input_limit", .bool c.disableInputLimit),
    ("overrides", .optional (fun os => .arr (os.map Override.toJson)) c.overrides)]

def record : Record Config :=
  .apply
    (.apply
      (.apply
        (.apply
          (.apply
            (.apply (.pure mk) (.field "log_level" LogLevel.decoder (some standard.logLevel)))
            (.field "log_dir" (Json.Decode.optional Json.Decode.path) (some standard.logDir)))
          (.field "allowed_values" (Json.Decode.list Json.Decode.string)
            (some standard.allowedValues)))
        (.field "max_input_bytes" (Json.Decode.optional Json.Decode.natural)
          (some standard.maxInputBytes)))
      (.field "disable_input_limit" Json.Decode.bool (some standard.disableInputLimit)))
    (.field "overrides" (Json.Decode.optional (Json.Decode.list Override.decoder))
      (some standard.overrides))

def decoder : Decoder Config := record.decoder "Config"

end Config

end LiteralLint
