import LiteralLint.Proofs.Check.Modes
import LiteralLint.Proofs.Server.Agreement
import LiteralLint.Server.Session

/-! # The outcome of a call

A client gives the arguments of a check in any order and with others among them. The call is
refused if its text is too large, and for no other reason; else its answer is one text, which is
read back as the diagnostics of the text. -/

set_option autoImplicit false

namespace LiteralLint

namespace CallArguments

variable {name : String} {value : Json.Draft} {given : CallArguments}
  {members : List (String × Json.Draft)}

theorem put_perm (h : name ∉ given.map Prod.fst) :
    (put name value given).Perm ((name, value) :: given) := by
  induction given with
  | nil => exact .refl _
  | cons entry given ih =>
    obtain ⟨n, v⟩ := entry
    rw [List.map_cons, List.mem_cons, not_or] at h
    rw [put]
    split
    · exact .refl _
    · rw [if_neg h.1]
      exact ((ih h.2).cons _).trans (.swap _ _ _)

theorem ofMembers_perm (h : (members.map Prod.fst).Nodup) :
    (ofMembers (members.map fun m => (some m.1, m.2))).Perm members := by
  induction members using List.reverseRecOn with
  | nil => exact .refl _
  | append_singleton members m ih =>
    rw [List.map_append, List.nodup_append] at h
    obtain ⟨hUnique, -, hApart⟩ := h
    have hOthers := ih hUnique
    have hFresh : m.1 ∉ (ofMembers (members.map fun m => (some m.1, m.2))).map Prod.fst := by
      rw [(hOthers.map Prod.fst).mem_iff]
      exact fun hMem => hApart _ hMem _ List.mem_cons_self rfl
    rw [ofMembers, List.map_append, List.map_singleton, List.foldl_concat]
    exact (put_perm hFresh).trans
      ((hOthers.cons m).trans (List.perm_append_singleton m members).symm)

theorem decode_of_collects {α : Type} {record : Json.Record α} {a : α}
    (hSound : ∀ m ∈ given, m.2.isSound = true)
    (h : record.Collects (given.filter (·.1 ∈ record.names))
      (fun name => .mismatch (.missingField name)) a) :
    given.decode record = .ok a := by
  have hAdmits : ∀ m ∈ given.map fun m => (some m.1, m.2), record.Admits m := by
    rw [List.forall_mem_map]
    exact fun m hMem => ⟨m.1, rfl, Or.inr (hSound m hMem)⟩
  have hRead : record.decoder "" (.object (given.map fun m => (some m.1, m.2)) true) = .ok a := by
    rw [Json.Record.decoder_object_eq_ok_iff, Json.Record.known_named_eq_filter]
    exact ⟨rfl, hAdmits, h⟩
  have hMembers : record.ofMembers true [] (given.map fun m => (some m.1, m.2)) = .ok a := hRead
  rw [decode, hMembers]

end CallArguments

/-- The values to allow that a client gives: left out or null, there are none; else they are a list,
which may be empty. -/
inductive OffersValues (arguments : List (String × Json)) : Option (List String) → Prop where
  | absent : "allowed_values" ∉ arguments.map Prod.fst → OffersValues arguments none
  | null : ("allowed_values", .null) ∈ arguments → OffersValues arguments none
  | listed {values : List String} :
      ("allowed_values", .strings values) ∈ arguments → OffersValues arguments (some values)

/-- The arguments of a check as a client gives them, with any others among them. -/
structure AsksCheck (arguments : List (String × Json)) (text : String)
    (values : Option (List String)) : Prop where
  unique : (arguments.map Prod.fst).Nodup
  text : ("text", .str text) ∈ arguments
  values : OffersValues arguments values

variable {arguments : List (String × Json)} {text : String} {values : Option (List String)}

theorem draft_isSound (j : Json) : j.draft.isSound = true :=
  (Json.spelling_compactChars j).isSound

namespace AsksCheck

theorem perm (h : AsksCheck arguments text values) :
    (CallArguments.ofMembers (Json.memberDrafts arguments)).Perm
      (arguments.map fun m => (m.1, m.2.draft)) := by
  rw [Json.Record.memberDrafts_eq_map]
  refine CallArguments.ofMembers_perm ?_
  rw [List.map_map]
  exact h.unique

theorem mem_ofMembers_iff (h : AsksCheck arguments text values) {name : String} {d : Json.Draft} :
    (name, d) ∈ CallArguments.ofMembers (Json.memberDrafts arguments) ↔
      ∃ value, (name, value) ∈ arguments ∧ value.draft = d := by
  rw [h.perm.mem_iff, List.mem_map]
  constructor
  · rintro ⟨m, hMem, hEq⟩
    cases hEq
    exact ⟨m.2, hMem, rfl⟩
  · rintro ⟨value, hMem, rfl⟩
    exact ⟨(name, value), hMem, rfl⟩

theorem nodup_ofMembers (h : AsksCheck arguments text values) :
    ((CallArguments.ofMembers (Json.memberDrafts arguments)).map Prod.fst).Nodup := by
  rw [(h.perm.map Prod.fst).nodup_iff, List.map_map]
  exact h.unique

end AsksCheck

theorem OffersValues.yields {given : List (String × Json.Draft)}
    {missing : String → Json.DecodeError} (h : OffersValues arguments values)
    (hUnique : (given.map Prod.fst).Nodup)
    (hGiven : ∀ d, ("allowed_values", d) ∈ given ↔
      ∃ value, ("allowed_values", value) ∈ arguments ∧ value.draft = d) :
    (Json.Record.field "allowed_values"
      (Json.Decode.optional (Json.Decode.list Json.Decode.string)) (some none)).Yields
        (List.lookup · given) missing values := by
  have hLookup {value : Json} (hMem : ("allowed_values", value) ∈ arguments) :
      List.lookup "allowed_values" given = some value.draft :=
    (Json.lookup_eq_some_iff_mem hUnique).mpr ((hGiven _).mpr ⟨value, hMem, rfl⟩)
  cases h with
  | absent hAbsent =>
    refine Json.Record.yields_field_iff.mpr (Or.inr ⟨Option.eq_none_iff_forall_ne_some.mpr ?_, rfl⟩)
    intro d hFound
    obtain ⟨value, hMem, -⟩ := (hGiven d).mp ((Json.lookup_eq_some_iff_mem hUnique).mp hFound)
    exact hAbsent (List.mem_map_of_mem (f := Prod.fst) hMem)
  | null hMem => exact .field (hLookup hMem) rfl
  | @listed values hMem =>
    exact .field (hLookup hMem) (congrArg (some <$> ·) (list_string_strings values))

theorem decode_of_asksCheck (h : AsksCheck arguments text values) :
    (CallArguments.ofMembers (Json.memberDrafts arguments)).decode CheckCall.record =
      .ok ⟨text, values⟩ := by
  generalize hGiven : CallArguments.ofMembers (Json.memberDrafts arguments) = given
  have hMem (name : String) (d : Json.Draft) :
      (name, d) ∈ given ↔ ∃ value, (name, value) ∈ arguments ∧ value.draft = d :=
    hGiven ▸ h.mem_ofMembers_iff
  have hUnique : ((given.filter (·.1 ∈ CheckCall.record.names)).map Prod.fst).Nodup :=
    (hGiven ▸ h.nodup_ofMembers).sublist (List.filter_sublist.map Prod.fst)
  have hKnown (name : String) (hName : name ∈ CheckCall.record.names) (d : Json.Draft) :
      (name, d) ∈ given.filter (·.1 ∈ CheckCall.record.names) ↔
        ∃ value, (name, value) ∈ arguments ∧ value.draft = d := by
    rw [List.mem_filter, and_iff_left (decide_eq_true hName), hMem]
  have hText : List.lookup "text" (given.filter (·.1 ∈ CheckCall.record.names)) =
      some (Json.str text).draft :=
    (Json.lookup_eq_some_iff_mem hUnique).mpr
      ((hKnown "text" (by decide) _).mpr ⟨_, h.text, rfl⟩)
  refine CallArguments.decode_of_collects ?_ ⟨hUnique, ?_⟩
  · rintro ⟨name, d⟩ hFound
    obtain ⟨value, -, rfl⟩ := (hMem name d).mp hFound
    exact draft_isSound value
  · exact .apply (.apply (.pure CheckCall.mk) (.field hText rfl))
      (h.values.yields hUnique (hKnown "allowed_values" (by decide)))

namespace Server

variable {server : Server} {fault : Fault}

theorem check_eq_error_iff {call : CheckCall} :
    server.check call = .error fault ↔ ∃ bound, server.limit = some bound ∧
      bound < call.text.utf8ByteSize ∧
      fault = .invalidParameters (tooLargeText call.text.utf8ByteSize bound) := by
  constructor
  · intro h
    rcases admits_or_lt server.limit call.text.utf8ByteSize with hAdmits | ⟨bound, hLimit, hLess⟩
    · have hText := checkText_eq_map_refused call.text (server.allowListFor call.allowedValues)
      cases h.symm.trans (check_of_admits hAdmits hText)
    · rw [check_of_lt hLimit hLess, Except.error.injEq] at h
      exact ⟨bound, hLimit, hLess, h.symm⟩
  · rintro ⟨bound, hLimit, hLess, rfl⟩
    exact check_of_lt hLimit hLess

theorem respond_call (server : Server) (arguments : CallArguments) :
    server.respond (.call "check_formats" arguments) =
      (server.call .checkFormats arguments).map content := rfl

theorem respond_of_decode {arguments : CallArguments} {call : CheckCall}
    (h : arguments.decode CheckCall.record = .ok call) :
    server.respond (.call "check_formats" arguments) =
      (server.check call).map fun ds => content (diagnosticsText ds) := by
  rw [respond_call, call_of_decode h]
  cases server.check call <;> rfl

theorem code_of_decode_error {α : Type} {record : Json.Record α} {arguments : CallArguments}
    (h : arguments.decode record = .error fault) : fault.code = -32602 := by
  rw [CallArguments.decode] at h
  split at h
  · cases h
  · cases h
    rfl

theorem code_of_respond_error {arguments : CallArguments}
    (h : server.respond (.call "check_formats" arguments) = .error fault) :
    fault.code = -32602 := by
  cases hDecode : arguments.decode CheckCall.record with
  | ok call =>
    rw [respond_of_decode hDecode] at h
    cases hCheck : server.check call with
    | ok ds => rw [hCheck] at h; cases h
    | error e =>
      rw [hCheck] at h
      cases h
      obtain ⟨bound, -, -, rfl⟩ := check_eq_error_iff.mp hCheck
      rfl
  | error e =>
    have hCall : server.call .checkFormats arguments = .error e := by
      rw [call, hDecode]
      rfl
    rw [respond_call, hCall] at h
    cases h
    exact code_of_decode_error hDecode

end Server

theorem refused_ofList_nil (text : String) : refused text (.ofList []) = literals text :=
  List.filter_eq_self.mpr fun _ _ => rfl

theorem decodeText_diagnosticsText {ds : List Diagnostic} (h : ∀ d ∈ ds, d.Fits) :
    Json.decodeText (Json.Decode.list Diagnostic.decoder) (Server.diagnosticsText ds) =
      .ok ds := by
  have hRead := Json.read_pretty (.arr (ds.map Diagnostic.toJson)) .nil
  rw [List.append_nil] at hRead
  rw [Server.diagnosticsText, Json.decodeText_of_read hRead]
  exact Json.Decode.list_draft fun d hMem => Diagnostic.decoder_toJson (h d hMem)

/-- A call is refused exactly if its text is too large. Else it is answered with one text, which
lists the diagnostics of the text for the values of the call, and for those of the server if the
call has none. A call with other arguments is not blamed on the server either. -/
theorem respond_check (h : AsksCheck arguments text values) (server : Server) :
    let size := text.utf8ByteSize
    let reply := server.respond
      (.call "check_formats" (.ofMembers (Json.memberDrafts arguments)))
    let allow := match values with
      | some values => AllowList.ofList values
      | none => server.allow
    (∀ fault, reply = .error fault ↔ ∃ bound, server.limit = some bound ∧ bound < size ∧
      fault = ⟨-32602, tooLargeText size bound⟩) ∧
    ((∀ bound, server.limit = some bound → size ≤ bound) → ∃ diagnostics answer,
      checkText text allow = .ok diagnostics ∧
      reply = .ok (.obj [
        ("content", .arr [.obj [("type", .str "text"), ("text", .str answer)]]),
        ("isError", .bool false)]) ∧
      (∀ ds, Lists answer ds ↔ ds = diagnostics) ∧
      (size ≤ Json.greatestNatural →
        Json.decodeText (Json.Decode.list Diagnostic.decoder) answer = .ok diagnostics) ∧
      (values = some [] → diagnostics.map (·.range) =
        (literals text).map (·.rangeIn text.toList))) ∧
    ∀ (others : CallArguments) fault,
      server.respond (.call "check_formats" others) = .error fault → fault.code = -32602 := by
  intro size reply allow
  have hReply : reply = (server.check ⟨text, values⟩).map fun ds =>
      Server.content (Server.diagnosticsText ds) :=
    Server.respond_of_decode (decode_of_asksCheck h)
  have hAllow : server.allowListFor values = allow := by
    cases values <;> rfl
  refine ⟨fun fault => ?_, fun hAdmits => ?_, fun _ _ => Server.code_of_respond_error⟩
  · have hErrors : server.check ⟨text, values⟩ = .error fault ↔ _ := Server.check_eq_error_iff
    rw [hReply]
    refine Iff.trans ?_ hErrors
    cases server.check ⟨text, values⟩ with
    | ok ds => exact ⟨nofun, nofun⟩
    | error e => simp only [Except.map, Except.error.injEq]
  · have hText := checkText_eq_map_refused text (server.allowListFor values)
    have hCheck : server.check ⟨text, values⟩ = .ok _ := Server.check_of_admits hAdmits hText
    rw [hCheck] at hReply
    rw [hAllow] at hText
    refine ⟨_, _, hText, ?_, fun ds => lists_diagnosticsText_iff, fun hSize => ?_, ?_⟩
    · exact hAllow ▸ hReply
    · exact decodeText_diagnosticsText (Check.fits_of_mem_checkText hText hSize)
    · rintro rfl
      rw [List.map_map, refused_ofList_nil]
      rfl

def oversizedArguments : List (String × Json) :=
  [("allowed_values", .null), ("text", .str "format: 'ü'")]

def unlistedArguments : List (String × Json) :=
  [("text", .str "format: 'ü'"), ("uri", .str "a.txt"), ("allowed_values", .strings [])]

theorem respond_check_oversized_unlisted :
    AsksCheck oversizedArguments "format: 'ü'" none ∧
      AsksCheck unlistedArguments "format: 'ü'" (some []) ∧
      (Server.respond { allow := .standard, limit := some 11 }
          (.call "check_formats" (.ofMembers (Json.memberDrafts oversizedArguments))) =
        .error ⟨-32602, "input too large: 12 bytes (limit: 11 bytes)"⟩) ∧
      ∃ answer,
        Server.respond { allow := .standard, limit := some 12 }
          (.call "check_formats" (.ofMembers (Json.memberDrafts unlistedArguments))) =
          .ok (.obj [("content", .arr [.obj [("type", .str "text"), ("text", .str answer)]]),
            ("isError", .bool false)]) ∧
        ∃ diagnostics, checkText "format: 'ü'" (.ofList []) = .ok diagnostics ∧
          Lists answer diagnostics := by
  have hOversized : AsksCheck oversizedArguments "format: 'ü'" none :=
    ⟨by decide, .tail _ (.head _), .null (.head _)⟩
  have hUnlisted : AsksCheck unlistedArguments "format: 'ü'" (some []) :=
    ⟨by decide, .head _, .listed (.tail _ (.tail _ (.head _)))⟩
  obtain ⟨hRefused, -, -⟩ := respond_check hOversized { allow := .standard, limit := some 11 }
  obtain ⟨-, hAnswered, -⟩ := respond_check hUnlisted { allow := .standard, limit := some 12 }
  obtain ⟨diagnostics, answer, hText, hReply, hLists, -⟩ := hAnswered (by rintro _ ⟨⟩; decide)
  exact ⟨hOversized, hUnlisted, (hRefused _).mpr ⟨11, rfl, by decide, rfl⟩, answer, hReply,
    diagnostics, hText, (hLists diagnostics).mpr rfl⟩

end LiteralLint
