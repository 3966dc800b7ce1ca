import LiteralLint.Server.Tool

/-! # Messages of a session

A client sends one JSON object a line: requests, which have an identifier and are answered, and
notifications, which are not. -/

set_option autoImplicit false

namespace LiteralLint

namespace Json

mutual

/-- Whether every part of a draft has a value, within `depth` arrays and objects. -/
def Draft.isWhole (depth : Nat) : Draft → Bool
  | .null | .bool _ => true
  | .number n => n.value?.isSome
  | .string s => s.isSome
  | .array items closed => depth + 1 < depthLimit && wholeItems (depth + 1) items && closed
  | .object members closed => depth + 1 < depthLimit && wholeMembers (depth + 1) members && closed
  | .faulty => false

def wholeItems (depth : Nat) : List Draft → Bool
  | [] => true
  | d :: ds => d.isWhole depth && wholeItems depth ds

def wholeMembers (depth : Nat) : List (Option String × Draft) → Bool
  | [] => true
  | (name, d) :: ds => name.isSome && d.isWhole depth && wholeMembers depth ds

end

namespace Draft

def member? (name : String) : Draft → Option Draft
  | .object members _ => List.lookup (some name) members
  | _ => none

def text? : Draft → Option String
  | .string s => s
  | _ => none

def textMember? (name : String) (d : Draft) : Option String := (d.member? name).bind text?

def isObject : Draft → Bool
  | .object _ _ => true
  | _ => false

def isNull : Draft → Bool
  | .null => true
  | _ => false

end Draft

end Json

/-- The lists that a client can ask for. Only that of the tools has entries. -/
inductive Listing where
  | tools
  | prompts
  | resources
  | resourceTemplates
deriving DecidableEq, Repr

namespace Listing

def all : List Listing := [tools, prompts, resources, resourceTemplates]

def method : Listing → String
  | tools => "tools/list"
  | prompts => "prompts/list"
  | resources => "resources/list"
  | resourceTemplates => "resources/templates/list"

def ofMethod? (s : String) : Option Listing := all.find? (·.method == s)

def toJson (dialect : Option String) : Listing → Json
  | tools => .obj [("tools", .arr (Tool.all.map (Tool.toJson dialect)))]
  | prompts => .obj [("prompts", .arr [])]
  | resources => .obj [("resources", .arr [])]
  | resourceTemplates => .obj [("resourceTemplates", .arr [])]

end Listing

inductive Request where
  | greeting (protocolVersion : String)
  | ping
  | list (listing : Listing)
  | call (tool : String) (arguments : CallArguments)
  | other (method : String)

namespace Request

def isListingParameters : Option Json.Draft → Bool
  | none | some .null => true
  | some d =>
    d.isObject &&
      match d.member? "cursor" with
      | none => true
      | some c => c.isNull || c.text?.isSome

def greeting? (parameters : Json.Draft) : Option Request := do
  let version ← parameters.textMember? "protocolVersion"
  let capabilities ← parameters.member? "capabilities"
  let client ← parameters.member? "clientInfo"
  guard (capabilities.isObject ∧ (client.textMember? "name").isSome
    ∧ (client.textMember? "version").isSome)
  return .greeting version

def call? (parameters : Json.Draft) : Option Request := do
  let tool ← parameters.textMember? "name"
  match parameters.member? "arguments" with
  | none | some .null => return .call tool []
  | some (.object members _) => return .call tool (.ofMembers members)
  | some _ => none

/-- A request whose parameters do not fit its method is taken for one that is not known. -/
def ofMethod (method : String) (parameters : Option Json.Draft) : Request :=
  let fitting : Option Request :=
    match method with
    | "initialize" => parameters.bind greeting?
    | "ping" => some .ping
    | "tools/call" => parameters.bind call?
    | method => do
      let listing ← Listing.ofMethod? method
      guard (isListingParameters parameters)
      return .list listing
  fitting.getD (.other method)

end Request

inductive Message where
  | request (id : Json) (content : Request)
  | notification (method : String)

namespace Message

def id? : Json.Draft → Option Json
  | .string s => s.map .str
  | .number n =>
    match n.value? with
    | some (.natural v) => some (.int v)
    | some (.negative v) => some (.int v)
    | _ => none
  | _ => none

def ofLine? (line : String) : Option Message := do
  let document := Json.read line.toList
  guard (document.complete ∧ document.root.isWhole 0)
  let version ← document.root.textMember? "jsonrpc"
  guard (version = "2.0")
  let method ← document.root.textMember? "method"
  match document.root.member? "id" with
  | some id => return .request (← id? id) (.ofMethod method (document.root.member? "params"))
  | none => return .notification method

end Message

end LiteralLint
