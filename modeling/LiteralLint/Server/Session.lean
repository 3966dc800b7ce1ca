import LiteralLint.Server.Message

/-! # Sessions

A session starts with a greeting: the client asks to initialize it and then notifies that it is
ready. From then on every request is answered on its own. -/

set_option autoImplicit false

namespace LiteralLint

namespace Server

def protocolVersion : String := "2025-03-26"

def instructions : String :=
  s!"{About.name} MCP server. Use check_formats to find disallowed \x60format\x60 values in text."

def introduction (version : String) : Json :=
  .obj [("protocolVersion", .str version), ("capabilities", .obj [("tools", .obj [])]),
    ("serverInfo", .obj [("name", .str About.name), ("version", .str About.version)]),
    ("instructions", .str instructions)]

/-- The older one of two protocols; their names are dates. -/
def agreedVersion (requested : String) : String :=
  if requested < protocolVersion then requested else protocolVersion

def content (text : String) : Json :=
  .obj [("content", .arr [.obj [("type", .str "text"), ("text", .str text)]]),
    ("isError", .bool false)]

def respond (server : Server) : Request → Except Fault Json
  | .greeting _ => .ok (introduction protocolVersion)
  | .ping => .ok (.obj [])
  | .list listing => .ok (listing.toJson server.dialect)
  | .call name arguments =>
    match Tool.ofName? name with
    | some tool => (server.call tool arguments).map content
    | none => .error (.invalidParameters "tool not found")
  | .other method => .error (.unknownMethod method)

end Server

def replyLine (id : Json) (reply : Except Fault Json) : String :=
  let outcome :=
    match reply with
    | .ok result => ("result", result)
    | .error fault => ("error", fault.toJson)
  (Json.obj [("jsonrpc", .str "2.0"), ("id", id), outcome]).compact

inductive Phase where
  | awaitsGreeting
  | awaitsReadiness
  | ready
  | refused
deriving DecidableEq, Repr

structure Session where
  server : Server
  phase : Phase := .awaitsGreeting

namespace Session

def readyMethod : String := "notifications/initialized"

/-- The session after a message, and the lines it is answered with: a request is answered before the
next message is looked at. -/
def receive (session : Session) (message : Message) : Session × List String :=
  match session.phase, message with
  | .awaitsGreeting, .request id (.greeting version) =>
    ({ session with phase := .awaitsReadiness },
      [replyLine id (.ok (Server.introduction (Server.agreedVersion version)))])
  | .awaitsReadiness, .notification method =>
    ({ session with phase := if method = readyMethod then .ready else .refused }, [])
  | .ready, .request id request => (session, [replyLine id (session.server.respond request)])
  | .ready, .notification _ | .refused, _ => (session, [])
  | .awaitsGreeting, _ | .awaitsReadiness, _ => ({ session with phase := .refused }, [])

/-- A line that holds no message is passed over. -/
def receiveLine (session : Session) (line : String) : Session × List String :=
  match Message.ofLine? line with
  | some message => session.receive message
  | none => (session, [])

def receiveLines (session : Session) : List String → Session × List String
  | [] => (session, [])
  | line :: lines =>
    let (next, answers) := session.receiveLine line
    let (last, more) := next.receiveLines lines
    (last, answers ++ more)

theorem receiveLines_append (session : Session) (first second : List String) :
    session.receiveLines (first ++ second)
      = let (middle, answers) := session.receiveLines first
        let (last, more) := middle.receiveLines second
        (last, answers ++ more) := by
  induction first generalizing session with
  | nil => rfl
  | cons line lines ih => simp [receiveLines, ih, List.append_assoc]

def failure? (session : Session) : Option String :=
  match session.phase with
  | .awaitsGreeting => some "connection closed: initialized request"
  | .awaitsReadiness => some "connection closed: initialize notification"
  | .ready => none
  | .refused => some "unexpected message before the session began"

end Session

end LiteralLint
