import LiteralLint.Proofs.Check.Verdict
import LiteralLint.Proofs.Diagnostic.Writing
import LiteralLint.Proofs.Json.Decoding

/-! # The command and the server agree

A file with some text and a call with that text are refused for their size alike, with the same
numbers, or both are answered with the same diagnostics. -/

set_option autoImplicit false

namespace LiteralLint

variable {s : Surroundings} {path text : String} {limit : Option Nat} {allow : AllowList}

def tooLargeText (size bound : Nat) : String :=
  "input too large: " ++ toString size ++ " bytes (limit: " ++ toString bound ++ " bytes)"

/-- What the check of a file and the call of a tool come to, both for one text. -/
inductive Agreement (path text : String) (allow : AllowList) (limit : Option Nat) :
    Except InputError Report → Except Fault String → Prop where
  | refused {bound : Nat} {e : InputError} (limited : limit = some bound)
      (greater : bound < text.utf8ByteSize)
      (cause : e = ⟨path, .tooLarge ⟨text.utf8ByteSize, bound⟩⟩)
      (told : e.message = "cannot check " ++ path ++ ": " ++ tooLargeText text.utf8ByteSize bound) :
      Agreement path text allow limit (.error e)
        (.error (.invalidParameters (tooLargeText text.utf8ByteSize bound)))
  | answered {report : Report} {answer : String} (admitted : Admits limit text.utf8ByteSize)
      (checked : checkText text allow = .ok report.diagnostics)
      (printed : ∀ ds, ReportsOn (Output.line (Check.jsonText [.checked report])) ds ↔
        ds = report.diagnostics)
      (listed : ∀ ds, Lists answer ds ↔ ds = report.diagnostics) :
      Agreement path text allow limit (.ok report) (.ok answer)

theorem InputError.message_tooLarge (path : String) (size bound : Nat) :
    InputError.message ⟨path, .tooLarge ⟨size, bound⟩⟩ =
      "cannot check " ++ path ++ ": " ++ tooLargeText size bound := rfl

namespace Server

variable {server : Server} {call : CheckCall} {arguments : CallArguments}

theorem check_of_lt {bound : Nat} (hLimit : server.limit = some bound)
    (hGreater : bound < call.text.utf8ByteSize) :
    server.check call =
      .error (.invalidParameters (tooLargeText call.text.utf8ByteSize bound)) := by
  rw [check, hLimit, checkInputSize_of_lt hGreater]
  rfl

theorem check_of_admits {diagnostics : List Diagnostic}
    (hAdmits : Admits server.limit call.text.utf8ByteSize)
    (hText : checkText call.text (server.allowListFor call.allowedValues) = .ok diagnostics) :
    server.check call = .ok diagnostics := by
  simp only [check, checkInputSize_of_admits hAdmits, hText]

theorem call_of_decode (h : arguments.decode CheckCall.record = .ok call) :
    server.call .checkFormats arguments = (server.check call).map diagnosticsText := by
  simp only [Server.call, h, bind, Except.bind]
  cases server.check call <;> rfl

end Server

theorem agreement_of_decode {arguments : CallArguments} {values : Option (List String)}
    (hFile : s.tree.find s.directory path = .ok (.file text.toUTF8))
    (hDecode : arguments.decode CheckCall.record = .ok ⟨text, values⟩) (server : Server) :
    Agreement path text (server.allowListFor values) server.limit
      (Check.checkFile s server.limit (server.allowListFor values) path)
      (server.call .checkFormats arguments) := by
  rw [Server.call_of_decode hDecode]
  rcases admits_or_lt server.limit text.utf8ByteSize with hAdmits | ⟨bound, hLimit, hGreater⟩
  · have hText := checkText_eq_map_refused text (server.allowListFor values)
    have hReport := Check.checkFile_of_readInput_ok
      (Surroundings.readInput_of_text hFile hAdmits) hText
    have hCall : server.check ⟨text, values⟩ = .ok _ := Server.check_of_admits hAdmits hText
    rw [hReport, hCall, Except.map]
    exact .answered hAdmits hText (fun _ => reportsOn_jsonText_iff)
      (fun _ => lists_diagnosticsText_iff)
  · have hReport : Check.checkFile s (some bound) (server.allowListFor values) path =
        .error ⟨path, .tooLarge ⟨text.utf8ByteSize, bound⟩⟩ :=
      Check.checkFile_of_readInput_error (Surroundings.readInput_of_lt hFile hGreater)
    have hCall : server.check ⟨text, values⟩ =
        .error (.invalidParameters (tooLargeText text.utf8ByteSize bound)) :=
      Server.check_of_lt hLimit hGreater
    rw [hCall, hLimit, hReport, Except.map]
    exact .refused rfl hGreater rfl (InputError.message_tooLarge path text.utf8ByteSize bound)

def textArgument (text : String) : Option String × Json.Draft :=
  (some "text", .string (some text))

def valuesArgument (values : List String) : Option String × Json.Draft :=
  (some "allowed_values", .array (values.map fun value => .string (some value)) true)

theorem decode_textArgument (text : String) :
    (CallArguments.ofMembers [textArgument text]).decode CheckCall.record = .ok ⟨text, none⟩ := rfl

theorem optional_list_valuesArgument (values : List String) :
    Json.Decode.optional (Json.Decode.list Json.Decode.string) (valuesArgument values).2 =
      .ok (some values) := by
  have hItems : Json.Decode.list Json.Decode.string (valuesArgument values).2 = .ok values := by
    rw [valuesArgument, Json.Decode.list_array_eq_ok_iff, mapM_eq_ok_iff,
      List.forall₂_map_left_iff]
    exact ⟨List.forall₂_same.mpr fun _ _ => rfl, rfl⟩
  exact congrArg (some <$> ·) hItems

theorem CheckCall.ofMembers_record (text : String) {values : List String} {d : Json.Draft}
    (hValues : Json.Decode.optional (Json.Decode.list Json.Decode.string) d = .ok (some values)) :
    CheckCall.record.ofMembers true []
        [(some "allowed_values", d), (some "text", .string (some text))] =
      .ok ⟨text, some values⟩ := by
  have hKnown : ["allowed_values", "text"] ⊆ record.names := by decide
  have hUnique : ["allowed_values", "text"].Nodup := by decide
  have hDecoded : record.decoder "" (.object ([("allowed_values", d),
      ("text", .string (some text))].map fun m => (some m.1, m.2)) true) =
      .ok ⟨text, some values⟩ := by
    rw [Json.Record.decoder_object_named_iff]
    · exact ⟨hUnique, .apply (.apply (.pure mk) (.field rfl rfl)) (.field rfl hValues)⟩
    · exact hKnown
  exact hDecoded

theorem decode_valuesArgument (text : String) (values : List String) :
    (CallArguments.ofMembers [textArgument text, valuesArgument values]).decode CheckCall.record =
      .ok ⟨text, some values⟩ := by
  have hSorted : CallArguments.ofMembers [textArgument text, valuesArgument values] =
      [("allowed_values", (valuesArgument values).2), ("text", .string (some text))] := rfl
  rw [hSorted, CallArguments.decode]
  simp only [List.map_cons, List.map_nil,
    CheckCall.ofMembers_record text (optional_list_valuesArgument values)]

/-- A file and a call with its text agree, with the allow-list of the command and the server and
with values that are given to both. -/
theorem checkFile_agrees_with_call
    (hFile : s.tree.find s.directory path = .ok (.file text.toUTF8)) :
    (∀ server : Server,
      Agreement path text server.allow server.limit
        (Check.checkFile s server.limit server.allow path)
        (server.call .checkFormats (.ofMembers [textArgument text]))) ∧
    ∀ (config : Config) (server : Server) (files values : List String), values ≠ [] →
      server.limit = config.inputLimit →
      Agreement path text (.ofList values) server.limit
        (Check.checkFile s config.inputLimit
          (Check.allowList config { files, allow := values } path) path)
        (server.call .checkFormats (.ofMembers [textArgument text, valuesArgument values])) := by
  constructor
  · intro server
    exact agreement_of_decode hFile (decode_textArgument text) server
  · intro config server files values hValues hLimit
    have hAllow : Check.allowList config { files, allow := values } path = .ofList values :=
      Check.allowList_of_given hValues
    rw [hAllow, ← hLimit]
    exact agreement_of_decode hFile (decode_valuesArgument text values) server

def oneFile : Surroundings where
  tree := ⟨[(["a.txt"], .file "format: 'ü'".toUTF8)]⟩
  directory := []
  environment := []
  today := "2026-01-01"

theorem checkFile_agrees_with_call_oneFile :
    oneFile.tree.find oneFile.directory "/a.txt" = .ok (.file "format: 'ü'".toUTF8) ∧
      Agreement "/a.txt" "format: 'ü'" .standard (some 11)
        (Check.checkFile oneFile (some 11) .standard "/a.txt")
        (Server.call { allow := .standard, limit := some 11 } .checkFormats
          (.ofMembers [textArgument "format: 'ü'"])) ∧
      Agreement "/a.txt" "format: 'ü'" (.ofList ["png"]) (some standardInputLimit)
        (Check.checkFile oneFile (some standardInputLimit)
          (Check.allowList Config.standard { files := ["/a.txt"], allow := ["png"] } "/a.txt")
          "/a.txt")
        (Server.standard.call .checkFormats
          (.ofMembers [textArgument "format: 'ü'", valuesArgument ["png"]])) := by
  have hFile : oneFile.tree.find oneFile.directory "/a.txt" = .ok (.file "format: 'ü'".toUTF8) := by
    rfl
  obtain ⟨hConfigured, hGiven⟩ := checkFile_agrees_with_call hFile
  exact ⟨hFile, hConfigured { allow := .standard, limit := some 11 },
    hGiven Config.standard Server.standard ["/a.txt"] ["png"] (List.cons_ne_nil _ _) rfl⟩

end LiteralLint
