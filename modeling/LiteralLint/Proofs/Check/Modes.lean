import LiteralLint.Proofs.Check.Run
import LiteralLint.Proofs.Diagnostic.Writing
import LiteralLint.Proofs.Interchange.RoundTrip

/-! # Two ways to print a check

A check is printed as lines or as a JSON array. Both are written from the same entries, one for each
file in the order of the arguments: the array can be read back as the entries, and the lines are a
transcript of them. -/

set_option autoImplicit false

namespace LiteralLint.Check

inductive Entry where
  | checked (report : Report)
  | failed (uri error : String)
deriving DecidableEq, Repr

namespace Entry

def uri : Entry → String
  | checked report => report.uri
  | failed uri _ => uri

def diagnostics : Entry → List Diagnostic
  | checked report => report.diagnostics
  | failed _ _ => []

def isClean : Entry → Bool
  | checked report => report.diagnostics.isEmpty
  | failed _ _ => false

def draft : Entry → Json.Draft
  | checked report =>
    .object
      [(some "uri", .string (some report.uri)),
        (some "language_id", .string (some report.languageId)),
        (some "version", .number (.ofInt report.version.toInt)),
        (some "diagnostics", diagnosticsDraft report.diagnostics),
        (some "pass", .bool report.pass)]
      true
  | failed uri error =>
    .object [(some "uri", .string (some uri)), (some "error", .string (some error))] true

def failedRecord : Json.Record Entry :=
  .apply (.apply (.pure failed) (.required "uri" Json.Decode.string))
    (.required "error" Json.Decode.string)

/-- Objects have no tag: what is no report is read as a failure. -/
def decoder : Json.Decoder Entry := fun d =>
  match Report.decoder d with
  | .ok report => .ok (checked report)
  | .error _ => failedRecord.decoder "Failed" d

def line (uri : String) (d : Diagnostic) : String :=
  uri ++ ":" ++ toString (d.range.start.line + 1) ++ ":" ++
    toString (d.range.start.character + 1) ++ ": " ++ d.severity.name ++ "[" ++ d.code ++ "]: " ++
    d.message ++ "\n"

def lines (e : Entry) : List String := e.diagnostics.map (line e.uri)

def Fits : Entry → Prop
  | checked report => report.Fits
  | failed _ _ => True

end Entry

def transcript (es : List Entry) : String :=
  String.join (es.flatMap Entry.lines) ++
    if ∀ e ∈ es, e.isClean = true then
      "OK: " ++ toString es.length ++ " file(s) checked, no invalid format values\n"
    else ""

/-- A text is one JSON array, of the objects of these entries and of nothing else. -/
def Prints (text : String) (es : List Entry) : Prop :=
  Json.read text.toList = ⟨.array (es.map Entry.draft) true, true⟩

namespace Entry

theorem draft_injective : Function.Injective draft := by
  intro e f h
  cases e with
  | checked report =>
    cases f with
    | checked other =>
      simp only [draft, Json.Draft.object.injEq, List.cons.injEq, Prod.mk.injEq,
        Json.Draft.string.injEq, Json.Draft.number.injEq, Json.Draft.bool.injEq, Option.some.injEq,
        true_and, and_true] at h
      obtain ⟨hUri, hLanguage, hVersion, hDiagnostics, hPass⟩ := h
      have hVersion := Int32.toInt_inj.mp (Json.Numeral.ofInt_injective hVersion)
      have hDiagnostics := diagnosticsDraft_injective hDiagnostics
      cases report
      cases other
      simp_all
    | failed uri error => simp [draft] at h
  | failed uri error =>
    cases f with
    | checked report => simp [draft] at h
    | failed uri' error' =>
      simp only [draft, Json.Draft.object.injEq, List.cons.injEq, Prod.mk.injEq,
        Json.Draft.string.injEq, Option.some.injEq, true_and, and_true] at h
      obtain ⟨rfl, rfl⟩ := h
      rfl

theorem decoder_draft {e : Entry} (h : e.Fits) : decoder e.draft = .ok e := by
  cases e with
  | checked report =>
    have hReport : Report.decoder (draft (checked report)) = .ok report := Report.decoder_toJson h
    simp only [decoder, hReport]
  | failed uri error =>
    have hNoReport : Report.decoder (draft (failed uri error)) =
        .error (.mismatch (.missingField "language_id")) := rfl
    have hFailed : failedRecord.decoder "Failed" (draft (failed uri error)) =
        .ok (failed uri error) := by
      change failedRecord.decoder _ (Json.obj [("uri", .str uri), ("error", .str error)]).draft = _
      refine Json.Record.decoder_draft rfl (by decide) ?_
      intro missing
      exact .apply (.apply (.pure failed) (.field rfl rfl)) (.field rfl rfl)
    simp only [decoder, hNoReport, hFailed]

end Entry

section

variable {found : Except AccessFault Node} {limit : Option Nat} {allow : AllowList} {path : String}
  {result : Outcome} {results : List Outcome}

def Outcome.entry : Outcome → Entry
  | checked report => .checked report
  | failed e => .failed e.path e.message

theorem Outcome.draft_toJson (result : Outcome) : result.toJson.draft = result.entry.draft := by
  cases result <;> rfl

theorem prints_jsonText_iff {es : List Entry} :
    Prints (Output.line (jsonText results)) es ↔ es = results.map Outcome.entry := by
  have hDraft : (Json.arr (results.map Outcome.toJson)).draft =
      .array ((results.map Outcome.entry).map Entry.draft) true := by
    rw [Json.draft, Json.Decode.itemDrafts_map, List.map_map]
    simp only [Outcome.draft_toJson]
    rfl
  have hRead : Json.read (Output.line (jsonText results)).toList =
      ⟨.array ((results.map Outcome.entry).map Entry.draft) true, true⟩ := by
    rw [Output.line, String.toList_append, jsonText, ← hDraft]
    exact Json.read_pretty _ (List.forall_mem_singleton.mpr rfl)
  rw [Prints, hRead]
  constructor
  · intro h
    obtain ⟨hItems, -⟩ := Json.Draft.array.inj (Json.Document.mk.inj h).1
    exact (List.map_injective_iff.mpr Entry.draft_injective hItems).symm
  · rintro rfl
    rfl

theorem decodeText_of_prints {text : String} {es : List Entry} (h : Prints text es)
    (hFits : ∀ e ∈ es, e.Fits) :
    Json.decodeText (Json.Decode.list Entry.decoder) text = .ok es := by
  rw [Json.decodeText_of_read h]
  refine Json.Decode.list_array_map ?_
  intro e he
  exact Entry.decoder_draft (hFits e he)

theorem Verdict.uri_entry (h : Verdict found limit allow path result) :
    result.entry.uri = path := by
  cases h <;> rfl

theorem fits_of_mem_checkText {text : String} {ds : List Diagnostic}
    (h : checkText text allow = .ok ds) (hSize : text.utf8ByteSize ≤ Json.greatestNatural) :
    ∀ d ∈ ds, d.Fits := by
  have hLength : text.toList.length ≤ Json.greatestNatural := by
    have hWide := length_le_byteLength text.toList
    rw [byteLength_eq, String.ofList_toList] at hWide
    exact Nat.le_trans hWide hSize
  rw [checkText_eq_map_refused] at h
  obtain rfl := Except.ok.inj h
  intro d hd
  obtain ⟨l, -, rfl⟩ := List.mem_map.mp hd
  have hBehind (n : Nat) : (Position.behind (text.toList.take n)).Fits := by
    have hTake := Nat.le_trans (List.take_sublist n text.toList).length_le hLength
    exact ⟨Nat.le_trans (Position.line_behind_le_length _) hTake,
      Nat.le_trans (Position.character_behind_le_length _) hTake⟩
  exact ⟨hBehind l.start, hBehind l.stop⟩

theorem Verdict.fits_entry (h : Verdict found limit allow path result)
    (hSize : ∀ content, found = .ok (.file content) → content.size ≤ Json.greatestNatural) :
    result.entry.Fits := by
  cases h with
  | checked at_path _ found_in => exact fits_of_mem_checkText found_in (hSize _ at_path)
  | _ => trivial

theorem line_successText (count : Nat) :
    Output.line (successText false count) =
      "OK: " ++ toString count ++ " file(s) checked, no invalid format values\n" := by
  have hEnd : " file(s) checked, no invalid format values\n" =
      " file(s) checked, no invalid format values" ++ "\n" := rfl
  rw [Output.line, successText_eq, hEnd, String.append_assoc]

theorem line_diagnosticText (uri : String) (d : Diagnostic) :
    Output.line (diagnosticText false uri d) = Entry.line uri d := by
  simp only [Output.line, diagnosticText, Style.paintIf_false, Entry.line, toString_text,
    String.append_assoc]

theorem lines_texts (results : List Outcome) :
    Output.lines ((reports results).flatMap (reportTexts false)) =
      String.join ((results.map Outcome.entry).flatMap Entry.lines) := by
  induction results with
  | nil => rfl
  | cons result results ih =>
    cases result with
    | checked report =>
      have hReports : reports (.checked report :: results) = report :: reports results := rfl
      have hLines : (reportTexts false report).map Output.line =
          Entry.lines (.checked report) := by
        rw [reportTexts, List.map_map]
        exact List.map_congr_left fun d _ => line_diagnosticText report.uri d
      rw [hReports, List.flatMap_cons, Output.lines, List.map_append, hLines, String.join_append,
        ← Output.lines, ih, List.map_cons, List.flatMap_cons, String.join_append]
      rfl
    | failed e => exact ih

theorem failure_isNone_iff (h : ∀ result ∈ results, result.Coherent) :
    (failure false results).isNone = true ↔
      ∀ e ∈ results.map Outcome.entry, e.isClean = true := by
  rw [Option.isNone_iff_eq_none, failure_text_eq_none_iff h, List.forall_mem_map]
  refine forall₂_congr fun result _ => ?_
  cases result <;> simp [Outcome.entry, Entry.isClean]

theorem length_reports (h : ∀ e ∈ results.map Outcome.entry, e.isClean = true) :
    (reports results).length = results.length := by
  have hFailed : failedCount results = 0 := by
    refine failedCount_eq_zero_iff.mpr fun result hResult => ?_
    have hClean := h _ (List.mem_map_of_mem hResult)
    cases result with
    | checked report => rfl
    | failed e => exact absurd hClean Bool.false_ne_true
  have hCount := length_reports_add results
  rwa [hFailed] at hCount

theorem stdout_text (h : ∀ result ∈ results, result.Coherent) :
    Output.lines (texts false results) = transcript (results.map Outcome.entry) := by
  have hLines := lines_texts results
  have hLast := failure_isNone_iff h
  rw [Output.lines] at hLines
  rw [texts, Output.lines, List.map_append, String.join_append, hLines, transcript]
  by_cases hClean : (failure false results).isNone = true
  · have hEntries := hLast.mp hClean
    rw [if_pos hClean, if_pos hEntries, length_reports hEntries, List.length_map,
      List.map_singleton, String.join_cons, String.join_nil, line_successText, String.append_empty]
  · rw [if_neg hClean, if_neg (mt hLast.mpr hClean)]
    rfl

end

/-- Both modes print the same entries, one for each file and in the order of the arguments. -/
theorem run_modes_agree (s : Surroundings) (config : Config) (color : ColorChoice)
    (arguments : Arguments) :
    let entries := arguments.files.map fun path => (outcome s config arguments path).entry
    let printed := (run s config true color arguments).stdout
    (∀ es, Prints printed es ↔ es = entries) ∧
    List.Forall₂ (fun path e => e.uri = path) arguments.files entries ∧
    ((∀ path ∈ arguments.files, ∀ content,
        s.tree.find s.directory path = .ok (.file content) →
          content.size ≤ Json.greatestNatural) →
      Json.decodeText (Json.Decode.list Entry.decoder) printed = .ok entries) ∧
    (run s config false .never arguments).stdout = transcript entries := by
  intro entries printed
  have hEntries : entries = (outcomes s config arguments).map Outcome.entry := by
    rw [outcomes, List.map_map]
    rfl
  have hPrints : ∀ es, Prints printed es ↔ es = entries := by
    intro es
    rw [hEntries]
    exact prints_jsonText_iff
  have hVerdict (path : String) := verdict_iff.mpr (Eq.refl (outcome s config arguments path))
  refine ⟨hPrints, ?_, ?_, ?_⟩
  · rw [List.forall₂_map_right_iff, List.forall₂_same]
    intro path _
    exact (hVerdict path).uri_entry
  · intro hSizes
    refine decodeText_of_prints ((hPrints entries).mpr rfl) ?_
    intro e he
    obtain ⟨path, hPath, rfl⟩ := List.mem_map.mp he
    exact (hVerdict path).fits_entry (hSizes path hPath)
  · rw [hEntries]
    exact stdout_text fun _ h => coherent_of_mem_outcomes h

def incomplete : Surroundings where
  tree := ⟨[(["a.txt"], .file "format: 'gïf'".toUTF8)]⟩
  directory := []
  environment := []
  today := "2026-01-01"

theorem run_modes_agree_incomplete :
    (∀ path ∈ ["/a.txt", "/b.txt"], ∀ content,
      incomplete.tree.find incomplete.directory path = .ok (.file content) →
        content.size ≤ Json.greatestNatural) ∧
    Json.decodeText (Json.Decode.list Entry.decoder)
        (run incomplete .standard true .auto { files := ["/a.txt", "/b.txt"] }).stdout =
      .ok (["/a.txt", "/b.txt"].map fun path =>
        (outcome incomplete .standard { files := ["/a.txt", "/b.txt"] } path).entry) := by
  have hSizes : ∀ path ∈ ["/a.txt", "/b.txt"], ∀ content,
      incomplete.tree.find incomplete.directory path = .ok (.file content) →
        content.size ≤ Json.greatestNatural := by
    simp only [List.forall_mem_cons, List.not_mem_nil, false_implies, implies_true, and_true]
    constructor
    · intro content hFile
      have hText : incomplete.tree.find incomplete.directory "/a.txt" =
          .ok (.file "format: 'gïf'".toUTF8) := rfl
      rw [hText] at hFile
      obtain rfl := Node.file.inj (Except.ok.inj hFile)
      decide
    · intro content hFile
      have hMissing : incomplete.tree.find incomplete.directory "/b.txt" = .error .notFound := rfl
      rw [hMissing] at hFile
      cases hFile
  obtain ⟨-, -, hDecoded, -⟩ :=
    run_modes_agree incomplete .standard .auto { files := ["/a.txt", "/b.txt"] }
  exact ⟨hSizes, hDecoded hSizes⟩

end LiteralLint.Check
