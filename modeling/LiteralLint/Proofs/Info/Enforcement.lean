import LiteralLint.Program
import LiteralLint.Proofs.Server.Agreement

/-! # What is told is enforced

The allowed values and the limit that are printed of a configuration are the ones that files and
calls are checked by, where neither an override nor values of the call stand above them. -/

set_option autoImplicit false

namespace LiteralLint

namespace Info

/-- A text is JSON and tells of these values and this limit, in the object of the configuration. -/
def Tells (text : String) (values : List String) (limit : Option Nat) : Prop :=
  ∃ root config, Json.read text.toList = ⟨root, true⟩ ∧ root.member? "config" = some config ∧
    config.member? "allowed_values" =
      some (.array (values.map fun value => .string (some value)) true) ∧
    config.member? "max_input_bytes" =
      some (limit.elim .null fun bound => .number (.ofInt bound))

variable {summary : Summary} {values : List String} {limit : Option Nat}

theorem member?_allowed_values (summary : Summary) :
    summary.toJson.draft.member? "allowed_values" =
      some (.array (summary.allow.values.map fun value => .string (some value)) true) := by
  have hValues : (Json.strings summary.allow.values).draft =
      .array (summary.allow.values.map fun value => .string (some value)) true := by
    rw [Json.strings, Json.draft, Json.Decode.itemDrafts_map]
    rfl
  rw [← hValues]
  obtain ⟨configFile, logLevel, logDir, allow, inputLimit, overrideCount⟩ := summary
  cases configFile <;> cases logDir <;> rfl

theorem member?_max_input_bytes (summary : Summary) :
    summary.toJson.draft.member? "max_input_bytes" =
      some (summary.inputLimit.elim .null fun bound => .number (.ofInt bound)) := by
  obtain ⟨configFile, logLevel, logDir, allow, inputLimit, overrideCount⟩ := summary
  cases configFile <;> cases logDir <;> cases inputLimit <;> rfl

theorem limitDraft_injective : Function.Injective fun limit : Option Nat =>
    limit.elim Json.Draft.null fun bound => .number (.ofInt bound) := by
  intro a b h
  cases a with
  | none =>
    cases b with
    | none => rfl
    | some bound => cases h
  | some bound =>
    cases b with
    | none => cases h
    | some other =>
      have hNumber := Json.Numeral.ofInt_injective (Json.Draft.number.inj h)
      rw [Int.ofNat_inj.mp hNumber]

theorem valuesDraft_injective : Function.Injective fun values : List String =>
    Json.Draft.array (values.map fun value => .string (some value)) true := by
  intro as bs h
  refine List.map_injective_iff.mpr ?_ (Json.Draft.array.inj h).1
  intro a b hText
  exact Option.some.inj (Json.Draft.string.inj hText)

theorem tells_line_pretty_iff : Tells (Output.line (toJson summary).pretty) values limit ↔
    values = summary.allow.values ∧ limit = summary.inputLimit := by
  have hRead : Json.read (Output.line (toJson summary).pretty).toList =
      ⟨(toJson summary).draft, true⟩ := by
    rw [Output.line, String.toList_append]
    exact Json.read_pretty _ (List.forall_mem_singleton.mpr rfl)
  have hConfig : (toJson summary).draft.member? "config" = some summary.toJson.draft := rfl
  constructor
  · rintro ⟨root, config, hText, hMember, hValues, hLimit⟩
    rw [hRead] at hText
    obtain rfl := (Json.Document.mk.inj hText).1
    obtain rfl := Option.some.inj (hConfig.symm.trans hMember)
    rw [member?_allowed_values] at hValues
    rw [member?_max_input_bytes] at hLimit
    exact ⟨(valuesDraft_injective (Option.some.inj hValues)).symm,
      (limitDraft_injective (Option.some.inj hLimit)).symm⟩
  · rintro ⟨rfl, rfl⟩
    exact ⟨_, _, hRead, hConfig, member?_allowed_values summary, member?_max_input_bytes summary⟩

def warnings (text : String) (values : List String) : List Diagnostic :=
  ((literals text).filter fun l => l.value ∉ values).map fun l =>
    { severity := .warning
      range :=
        { start := Position.behind (text.toList.take l.start)
          stop := Position.behind (text.toList.take l.stop) }
      message := "Invalid format '" ++ l.value ++ "'. Allowed formats: " ++
        (if values = [] then "(none)" else ", ".intercalate values) ++ "."
      source := "format-lint"
      code := "invalid-format" }

/-- What becomes of a file with a text, and of a call with that text, by these values and this
limit. -/
inductive Enforced (path text : String) (values : List String) (limit : Option Nat) :
    Check.Outcome → Except Fault String → Prop where
  | refused {bound : Nat} (limited : limit = some bound) (greater : bound < text.utf8ByteSize) :
      Enforced path text values limit
        (.failed ⟨path, .tooLarge ⟨text.utf8ByteSize, bound⟩⟩)
        (.error (.invalidParameters (tooLargeText text.utf8ByteSize bound)))
  | answered {report : Report} {answer : String} (admitted : Admits limit text.utf8ByteSize)
      (reported : report.diagnostics = warnings text values)
      (listed : ∀ ds, Lists answer ds ↔ ds = warnings text values) :
      Enforced path text values limit (.checked report) (.ok answer)

theorem warnings_of_checkText {text : String} {allow : AllowList} {ds : List Diagnostic}
    (h : checkText text allow = .ok ds) : ds = warnings text allow.values := by
  rw [checkText_exact] at h
  exact (Except.ok.inj h).symm

theorem enforced_of_agreement {s : Surroundings} {config : Config} {arguments : Check.Arguments}
    {path text : String} {allow : AllowList} {answer : Except Fault String}
    (hAllow : Check.allowList config arguments path = allow)
    (h : Agreement path text allow config.inputLimit
      (Check.checkFile s config.inputLimit allow path) answer) :
    Enforced path text allow.values config.inputLimit (Check.outcome s config arguments path)
      answer := by
  subst hAllow
  generalize hFile : Check.checkFile s config.inputLimit _ path = checked at h
  cases h with
  | refused limited greater cause =>
    rw [Check.outcome_of_checkFile_error hFile, cause]
    exact .refused limited greater
  | answered admitted found_in _ listed =>
    have hWarnings := warnings_of_checkText found_in
    rw [Check.outcome_of_checkFile_ok hFile]
    exact .answered admitted hWarnings fun ds => hWarnings ▸ listed ds

/-- The values and the limit that are told of a configuration are the ones that the check of a file
and a server with that configuration go by. -/
theorem told_is_enforced (job : Program.Job) :
    let told :=
      ({ job with command := .info, invocation := { job.invocation with json := true } } :
        Program.Job).output.stdout
    ∃ values limit,
      (∀ vs l, Tells told vs l ↔ vs = values ∧ l = limit) ∧
      ∀ (arguments : Check.Arguments) (path text : String) (call : CallArguments),
        arguments.allow = [] →
        job.surroundings.tree.find job.surroundings.directory path = .ok (.file text.toUTF8) →
        (∀ o ∈ job.config.overrides.getD [], ∀ rank, ¬ o.Hits path rank) →
        call.decode CheckCall.record = .ok ⟨text, none⟩ →
        Enforced path text values limit
          (Check.outcome job.surroundings job.config arguments path)
          (job.server.call .checkFormats call) := by
  intro told
  refine ⟨job.config.allowList.values, job.config.inputLimit, fun vs l => ?_, ?_⟩
  · exact tells_line_pretty_iff
  · intro arguments path text call hValues hFile hNoHits hCall
    have hAllow : Check.allowList job.config arguments path = job.config.allowList := by
      rw [Check.allowList_of_not_given hValues, resolve_of_no_hits hNoHits]
      rfl
    exact enforced_of_agreement hAllow (agreement_of_decode hFile hCall job.server)

def tightJob : Program.Job where
  command := .info
  invocation := {}
  surroundings :=
    { tree := ⟨[(["a.ts"], .file "format: 'bmp'".toUTF8)]⟩
      directory := []
      environment := []
      today := "2026-01-01" }
  config :=
    { allowedValues := ["png", "gif", "png"]
      maxInputBytes := some 13
      overrides := some [⟨["legacy/**"], ["bmp"]⟩] }
  sources := {}
  filter := []
  log := none

theorem told_is_enforced_tightJob :
    Tells (Info.run tightJob.config tightJob.sources true).stdout ["png", "gif"] (some 13) ∧
      Enforced "/a.ts" "format: 'bmp'" ["png", "gif"] (some 13)
        (Check.outcome tightJob.surroundings tightJob.config { files := ["/a.ts"] } "/a.ts")
        (tightJob.server.call .checkFormats (.ofMembers [textArgument "format: 'bmp'"])) := by
  have hTells : Tells (Info.run tightJob.config tightJob.sources true).stdout ["png", "gif"]
      (some 13) := tells_line_pretty_iff.mpr ⟨rfl, rfl⟩
  have hFile : tightJob.surroundings.tree.find tightJob.surroundings.directory "/a.ts" =
      .ok (.file "format: 'bmp'".toUTF8) := rfl
  have hRanks : ∀ o ∈ tightJob.config.overrides.getD [], o.rank? "/a.ts" = none := by
    decide +kernel
  obtain ⟨values, limit, hTold, hEnforced⟩ := told_is_enforced tightJob
  obtain ⟨rfl, rfl⟩ := (hTold _ _).mp hTells
  exact ⟨hTells, hEnforced _ _ _ _ rfl hFile
    (fun o ho => Override.rank?_eq_none_iff.mp (hRanks o ho))
    (decode_textArgument "format: 'bmp'")⟩

end Info

end LiteralLint
