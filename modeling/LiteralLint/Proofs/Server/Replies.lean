import LiteralLint.Program
import LiteralLint.Proofs.Json.Writing
import Mathlib.Data.List.Forall2

/-! # Replies

Once a session is ready, every request gets the reply that it would get alone. Nothing that came
before a request shows in its reply, so that requests can be left out and rearranged. -/

set_option autoImplicit false

namespace LiteralLint

def Message.Asks (line : String) (id : Json) (request : Request) : Prop :=
  Message.ofLine? line = some (.request id request)

/-- The reply to a line if it asks for one: by what the server is set to and by nothing else. -/
def Server.reply? (server : Server) (line : String) : Option String :=
  match Message.ofLine? line with
  | some (.request id request) => some (replyLine id (server.respond request))
  | _ => none

def Server.replyTo (server : Server) (line : String) : String := (server.reply? line).getD ""

theorem Server.reply?_of_asks {server : Server} {line : String} {id : Json} {request : Request}
    (h : Message.Asks line id request) :
    server.reply? line = some (replyLine id (server.respond request)) := by
  rw [reply?, h]

namespace Session

variable {session : Session} {server : Server} {line : String} {lines opening : List String}

theorem server_receive (session : Session) (message : Message) :
    (session.receive message).1.server = session.server := by
  unfold receive
  split <;> rfl

theorem server_receiveLine (session : Session) (line : String) :
    (session.receiveLine line).1.server = session.server := by
  rw [receiveLine]
  cases Message.ofLine? line with
  | none => rfl
  | some message => exact server_receive session message

theorem server_receiveLines (session : Session) (lines : List String) :
    (session.receiveLines lines).1.server = session.server := by
  induction lines generalizing session with
  | nil => rfl
  | cons line lines ih => exact (ih _).trans (server_receiveLine session line)

theorem eq_of_ready (h : session.phase = .ready) :
    session = { server := session.server, phase := .ready } := by
  rw [← h]

theorem receiveLine_of_ready (h : session.phase = .ready) (line : String) :
    session.receiveLine line = (session, (session.server.reply? line).toList) := by
  rw [receiveLine, Server.reply?]
  cases Message.ofLine? line with
  | none => rfl
  | some message => cases message <;> simp only [receive, h] <;> rfl

theorem receiveLines_of_ready (h : session.phase = .ready) (lines : List String) :
    session.receiveLines lines = (session, lines.filterMap session.server.reply?) := by
  induction lines with
  | nil => rfl
  | cons line lines ih =>
    simp only [receiveLines, receiveLine_of_ready h, ih]
    cases hReply : session.server.reply? line with
    | none => rw [List.filterMap_cons_none hReply]; rfl
    | some reply => rw [List.filterMap_cons_some hReply]; rfl

theorem receiveLines_opening
    (hReady : (receiveLines { server } opening).1.phase = .ready) (lines : List String) :
    receiveLines { server } (opening ++ lines) =
      ({ server, phase := .ready },
        (receiveLines { server } opening).2 ++ lines.filterMap server.reply?) := by
  have hOpened : (receiveLines { server } opening).1 = { server, phase := .ready } := by
    rw [eq_of_ready hReady, server_receiveLines]
  have hRest : receiveLines { server, phase := .ready } lines =
      ({ server, phase := .ready }, lines.filterMap server.reply?) :=
    receiveLines_of_ready rfl lines
  rw [receiveLines_append]
  simp only [hOpened, hRest]

theorem filterMap_reply? (h : ∀ line ∈ lines, ∃ id request, Message.Asks line id request) :
    lines.filterMap server.reply? = lines.map server.replyTo := by
  rw [← List.filterMap_eq_map]
  refine List.filterMap_congr fun line hLine => ?_
  obtain ⟨id, request, hAsks⟩ := h line hLine
  rw [Function.comp_apply, Server.replyTo, Server.reply?_of_asks hAsks, Option.getD_some]

theorem run_opening {job : Program.Job} (hServe : job.command = .serve)
    (hReady : (receiveLines { server := job.server } opening).1.phase = .ready)
    (lines : List String) :
    (job.run (opening ++ lines)).stdout =
      Output.lines ((receiveLines { server := job.server } opening).2 ++
        lines.filterMap job.server.reply?) ∧
    (job.run (opening ++ lines)).exitCode = 0 := by
  have hRun : job.run (opening ++ lines) =
      job.finish { stdout := Output.lines ((receiveLines { server := job.server } opening).2 ++
        lines.filterMap job.server.reply?) } none := by
    simp only [Program.Job.run, hServe, receiveLines_opening hReady]
    rfl
  rw [hRun]
  exact ⟨rfl, rfl⟩

/-- Requests behind an opening: each gets one reply, which is the one that it would get alone, so
that other requests can stand around it in any order; and the session is as it was. -/
theorem replies_independent
    (hReady : (receiveLines { server } opening).1.phase = .ready) {requests : List String}
    (hRequests : ∀ line ∈ requests, ∃ id request, Message.Asks line id request) :
    let greeting := (receiveLines { server } opening).2
    ∃ replies,
      receiveLines { server } (opening ++ requests) =
        ({ server, phase := .ready }, greeting ++ replies) ∧
      List.Forall₂
        (fun line reply =>
          (receiveLines { server } (opening ++ [line])).2 = greeting ++ [reply] ∧
          ∀ id request, Message.Asks line id request →
            reply = replyLine id (server.respond request))
        requests replies ∧
      (∀ others : List String, others.Perm requests → ∃ rearranged,
        (receiveLines { server } (opening ++ others)).2 = greeting ++ rearranged ∧
        rearranged.length = others.length ∧
        (others.zip rearranged).Perm (requests.zip replies)) ∧
      ∀ job : Program.Job, job.command = .serve → job.server = server →
        (job.run (opening ++ requests)).stdout = Output.lines (greeting ++ replies) ∧
        (job.run (opening ++ requests)).exitCode = 0 := by
  intro greeting
  have hReplies (lines : List String) (h : ∀ line ∈ lines, line ∈ requests) :
      receiveLines { server } (opening ++ lines) =
        ({ server, phase := .ready }, greeting ++ lines.map server.replyTo) := by
    rw [receiveLines_opening hReady,
      filterMap_reply? fun line hLine => hRequests line (h line hLine)]
  refine ⟨requests.map server.replyTo, hReplies requests fun _ h => h, ?_, ?_, ?_⟩
  · refine List.forall₂_map_right_iff.mpr (List.forall₂_same.mpr fun line hLine => ⟨?_, ?_⟩)
    · rw [hReplies [line] (List.forall_mem_singleton.mpr hLine), List.map_singleton]
    · intro id request hAsks
      rw [Server.replyTo, Server.reply?_of_asks hAsks, Option.getD_some]
  · intro others hPerm
    refine ⟨others.map server.replyTo, ?_, List.length_map _, ?_⟩
    · rw [hReplies others fun _ h => hPerm.subset h]
    · rw [← List.map_prod_left_eq_zip, ← List.map_prod_left_eq_zip]
      exact hPerm.map _
  · rintro job hServe rfl
    rw [← filterMap_reply? hRequests]
    exact run_opening hServe hReady requests

def requestLine (id method : String) (parameters : Json) : String :=
  (Json.obj [("jsonrpc", .str "2.0"), ("id", .str id), ("method", .str method),
    ("params", parameters)]).compact

theorem asks_requestLine (id method : String) {parameters : Json}
    (hWhole : parameters.draft.isWhole 1 = true) :
    Message.Asks (requestLine id method parameters) (.str id)
      (.ofMethod method (some parameters.draft)) := by
  have hRoot : (Json.obj [("jsonrpc", .str "2.0"), ("id", .str id), ("method", .str method),
      ("params", parameters)]).draft.isWhole 0 = true := by
    simp [Json.draft, Json.memberDrafts, Json.Draft.isWhole, Json.wholeMembers, Json.depthLimit,
      hWhole]
  simp only [Message.Asks, Message.ofLine?, requestLine, Json.read_compact, hRoot]
  rfl

def callLine (id tool : String) (arguments : List (String × Json)) : String :=
  requestLine id "tools/call" (.obj [("name", .str tool), ("arguments", .obj arguments)])

theorem asks_callLine (id tool : String) {arguments : List (String × Json)}
    (hWhole : Json.wholeMembers 3 (Json.memberDrafts arguments) = true) :
    Message.Asks (callLine id tool arguments) (.str id)
      (.call tool (.ofMembers (Json.memberDrafts arguments))) := by
  refine asks_requestLine id "tools/call" ?_
  simp [Json.draft, Json.memberDrafts, Json.Draft.isWhole, Json.wholeMembers, Json.depthLimit,
    hWhole]

def greetingLine : String :=
  requestLine "0" "initialize" (.obj [("protocolVersion", .str Server.protocolVersion),
    ("capabilities", .obj []),
    ("clientInfo", .obj [("name", .str "client"), ("version", .str "1")])])

def readyLine : String :=
  (Json.obj [("jsonrpc", .str "2.0"), ("method", .str readyMethod)]).compact

theorem phase_greetingLine_readyLine (server : Server) :
    (receiveLines { server } [greetingLine, readyLine]).1.phase = .ready := by
  have hGreeting : Message.ofLine? greetingLine =
      some (.request (.str "0") (.greeting Server.protocolVersion)) :=
    asks_requestLine "0" "initialize" rfl
  have hReady : Message.ofLine? readyLine = some (.notification readyMethod) := by
    simp only [Message.ofLine?, readyLine, Json.read_compact]
    rfl
  simp only [receiveLines, receiveLine, hGreeting, hReady, receive, if_true]

def narrow : Server where
  allow := .standard
  limit := some 20

def mixedCalls : List String := [
  callLine "1" "check_formats"
    [("text", .str "format: 'gif'"), ("allowed_values", .strings ["gif"])],
  callLine "2" "check_formats" [("text", .str "format: 'gif', format: 'bmp'")],
  callLine "3" "get_info" [("format", .bool true)],
  callLine "4" "check_formats" [("text", .str "format: 'gif'")]]

theorem replies_independent_mixedCalls :
    (receiveLines { server := narrow } [greetingLine, readyLine]).1.phase = .ready ∧
      (∀ line ∈ mixedCalls, ∃ id request, Message.Asks line id request) ∧
      ∃ replies,
        (receiveLines { server := narrow } ([greetingLine, readyLine] ++ mixedCalls)).2 =
          (receiveLines { server := narrow } [greetingLine, readyLine]).2 ++ replies ∧
        List.Forall₂
          (fun line reply =>
            (receiveLines { server := narrow } ([greetingLine, readyLine] ++ [line])).2 =
              (receiveLines { server := narrow } [greetingLine, readyLine]).2 ++ [reply])
          mixedCalls replies := by
  have hReady := phase_greetingLine_readyLine narrow
  have hRequests : ∀ line ∈ mixedCalls, ∃ id request, Message.Asks line id request := by
    simp only [mixedCalls, List.forall_mem_cons, List.not_mem_nil, false_implies, implies_true,
      and_true]
    refine ⟨⟨_, _, asks_callLine _ _ ?_⟩, ⟨_, _, asks_callLine _ _ ?_⟩,
      ⟨_, _, asks_callLine _ _ ?_⟩, ⟨_, _, asks_callLine _ _ ?_⟩⟩
    all_goals rfl
  obtain ⟨replies, hAll, hEach, -, -⟩ := replies_independent hReady hRequests
  refine ⟨hReady, hRequests, replies, ?_, hEach.imp fun _ _ h => h.1⟩
  rw [hAll]

end Session

end LiteralLint
