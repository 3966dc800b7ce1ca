import LiteralLint.Diagnostic
import LiteralLint.Interchange

/-! # Tools of the server

The two tools that a client can call. A tool reads its arguments from the members of a JSON object
and answers with a text; nothing is kept between two calls. -/

set_option autoImplicit false

namespace LiteralLint

/-- What a server checks with unless a call says otherwise, and the dialect of schemas that it
declares. -/
structure Server where
  allow : AllowList
  limit : Option Nat
  dialect : Option String := none

structure Fault where
  code : Int
  message : String
deriving DecidableEq, Repr

namespace Fault

def invalidParameters (message : String) : Fault := ⟨-32602, message⟩

def unknownMethod (method : String) : Fault := ⟨-32601, method⟩

def internal (message : String) : Fault := ⟨-32603, message⟩

def toJson (fault : Fault) : Json :=
  .obj [("code", .int fault.code), ("message", .str fault.message)]

end Fault

inductive Tool where
  | checkFormats
  | getInfo
deriving DecidableEq, Repr

namespace Tool

def all : List Tool := [checkFormats, getInfo]

def name : Tool → String
  | checkFormats => "check_formats"
  | getInfo => "get_info"

def ofName? (s : String) : Option Tool := all.find? (·.name == s)

def description : Tool → String
  | checkFormats =>
    "Scan text for \x60format: '<value>'\x60 literals and return a warning diagnostic "
      ++ "(with 0-based line/character range) for each value not in the allow-list."
  | getInfo => "Get project name, version, and description"

def schema (dialect : Option String) (tool : Tool) : Json :=
  let form (title : String) (properties more : List (String × Json)) : Json :=
    .obj (dialect.toList.map (fun name => ("$schema", .str name)) ++
      [("title", .str title),
        ("description", .str s!"Parameters for the \x60{tool.name}\x60 tool."),
        ("type", .str "object"), ("properties", .obj properties)] ++ more)
  match tool with
  | checkFormats =>
    form "CheckFormatsParams"
      [("text", .obj [("description", .str "The document text to scan."), ("type", .str "string")]),
        ("allowed_values", .obj [
          ("description",
            .str "Accepted values. Omit to use the server's configured allow-list."),
          ("items", .obj [("type", .str "string")]), ("nullable", .bool true),
          ("type", .str "array")])]
      [("required", .strings ["text"])]
  | getInfo =>
    form "GetInfoParams"
      [("format", .obj [("description", .str "Output format: \"text\" or \"json\""),
        ("type", .str "string"), ("default", .str "text")])]
      []

def toJson (dialect : Option String) (tool : Tool) : Json :=
  .obj [("name", .str tool.name), ("description", .str tool.description),
    ("inputSchema", tool.schema dialect)]

end Tool

/-- Named arguments in the order of their names, each at most once. -/
abbrev CallArguments := List (String × Json.Draft)

namespace CallArguments

def put (name : String) (value : Json.Draft) : CallArguments → CallArguments
  | [] => [(name, value)]
  | (n, v) :: rest =>
    if name < n then (name, value) :: (n, v) :: rest
    else if name = n then (name, value) :: rest
    else (n, v) :: put name value rest

def ofMembers (members : List (Option String × Json.Draft)) : CallArguments :=
  members.foldl (fun found (name, value) =>
    match name with
    | some name => put name value found
    | none => found) []

/-- Reads a record from the arguments; those it does not know are passed over. -/
def decode {α : Type} (record : Json.Record α) (arguments : CallArguments) : Except Fault α :=
  match record.ofMembers true [] (arguments.map fun (name, value) => (some name, value)) with
  | .ok a => .ok a
  | .error e =>
    let reason :=
      match e with
      | .mismatch cause => Json.describeMismatch cause
      | .malformed => "malformed value"
    .error (.invalidParameters s!"failed to deserialize parameters: {reason}")

end CallArguments

structure CheckCall where
  text : String
  allowedValues : Option (List String)
deriving DecidableEq, Repr

def CheckCall.record : Json.Record CheckCall :=
  .apply (.apply (.pure mk) (.required "text" Json.Decode.string))
    (.field "allowed_values" (Json.Decode.optional (Json.Decode.list Json.Decode.string))
      (some none))

def infoFormatRecord : Json.Record String := .field "format" Json.Decode.string (some "text")

namespace Server

def standard : Server where
  allow := .standard
  limit := some standardInputLimit

/-- The allow-list of a call: the values that come with it, even if there are none of them. -/
def allowListFor (server : Server) (values : Option (List String)) : AllowList :=
  (values.map AllowList.ofList).getD server.allow

def check (server : Server) (call : CheckCall) : Except Fault (List Diagnostic) :=
  match checkInputSize call.text.utf8ByteSize server.limit with
  | .error e => .error (.invalidParameters e.message)
  | .ok () =>
    match checkText call.text (server.allowListFor call.allowedValues) with
    | .error e => .error (.internal e.message)
    | .ok diagnostics => .ok diagnostics

def diagnosticsText (diagnostics : List Diagnostic) : String :=
  (Json.arr (diagnostics.map Diagnostic.toJson)).pretty

def infoJson (server : Server) : Json :=
  .obj [("allowed_values", .strings server.allow.values), ("description", .str About.description),
    ("name", .str About.name), ("version", .str About.version)]

def infoText (server : Server) : String :=
  s!"{About.name} v{About.version}\n{About.description}\nAllowed formats: {server.allow.describe}"

def info (server : Server) (format : String) : String :=
  if format = "json" then server.infoJson.pretty else server.infoText

def call (server : Server) (tool : Tool) (arguments : CallArguments) : Except Fault String :=
  match tool with
  | .checkFormats => do
    let call ← arguments.decode CheckCall.record
    let diagnostics ← server.check call
    return diagnosticsText diagnostics
  | .getInfo => do
    let format ← arguments.decode infoFormatRecord
    return server.info format

end Server

end LiteralLint
