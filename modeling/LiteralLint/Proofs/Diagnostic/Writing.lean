import LiteralLint.Check
import LiteralLint.Proofs.Json.Writing
import LiteralLint.Server.Message

/-! # Diagnostics in JSON texts

What a JSON text says about diagnostics is what it is read as. No text lists two different
diagnostics, and the texts of the command and of the server list those they were written from. -/

set_option autoImplicit false

namespace LiteralLint

theorem Position.toJson_injective : Function.Injective Position.toJson := by
  intro p q h
  simp only [toJson, Json.obj.injEq, List.cons.injEq, Prod.mk.injEq, Json.int.injEq,
    Int.ofNat_inj, true_and, and_true] at h
  obtain ⟨line, character⟩ := p
  obtain ⟨rfl, rfl⟩ := h
  rfl

theorem Range.toJson_injective : Function.Injective Range.toJson := by
  intro r t h
  simp only [toJson, Json.obj.injEq, List.cons.injEq, Prod.mk.injEq, true_and, and_true] at h
  obtain ⟨start, stop⟩ := r
  obtain rfl := Position.toJson_injective h.1
  obtain rfl := Position.toJson_injective h.2
  rfl

theorem Severity.name_injective : Function.Injective Severity.name := by
  intro s t
  cases s <;> cases t <;> decide

theorem Diagnostic.toJson_injective : Function.Injective Diagnostic.toJson := by
  intro d e h
  simp only [toJson, Severity.toJson, Json.obj.injEq, List.cons.injEq, Prod.mk.injEq,
    Json.str.injEq, true_and, and_true] at h
  obtain ⟨hSeverity, hRange, hMessage, hSource, hCode⟩ := h
  obtain ⟨severity, range, message, source, code⟩ := d
  obtain rfl := Severity.name_injective hSeverity
  obtain rfl := Range.toJson_injective hRange
  obtain rfl := hMessage
  obtain rfl := hSource
  obtain rfl := hCode
  rfl

def diagnosticsDraft (ds : List Diagnostic) : Json.Draft :=
  (Json.arr (ds.map Diagnostic.toJson)).draft

theorem diagnosticsDraft_injective : Function.Injective diagnosticsDraft := by
  intro ds es h
  exact List.map_injective_iff.mpr Diagnostic.toJson_injective
    (Json.arr.inj (Json.draft_injective h))

/-- A text is JSON and holds nothing but a list of diagnostics. -/
def Lists (text : String) (ds : List Diagnostic) : Prop :=
  Json.read text.toList = ⟨diagnosticsDraft ds, true⟩

/-- A text is JSON and holds one report, with these diagnostics. -/
def ReportsOn (text : String) (ds : List Diagnostic) : Prop :=
  ∃ report, Json.read text.toList = ⟨.array [report] true, true⟩ ∧
    report.member? "diagnostics" = some (diagnosticsDraft ds)

theorem lists_diagnosticsText_iff {ds es : List Diagnostic} :
    Lists (Server.diagnosticsText ds) es ↔ es = ds := by
  have hRead := Json.read_pretty (.arr (ds.map Diagnostic.toJson)) .nil
  rw [List.append_nil] at hRead
  rw [Lists, Server.diagnosticsText, hRead]
  constructor
  · intro h
    exact (diagnosticsDraft_injective (Json.Document.mk.inj h).1).symm
  · rintro rfl
    rfl

theorem reportsOn_jsonText_iff {report : Report} {ds : List Diagnostic} :
    ReportsOn (Output.line (Check.jsonText [.checked report])) ds ↔ ds = report.diagnostics := by
  have hRead : Json.read (Output.line (Check.jsonText [.checked report])).toList =
      ⟨.array [report.toJson.draft] true, true⟩ := by
    rw [Output.line, String.toList_append]
    exact Json.read_pretty _ (List.forall_mem_singleton.mpr rfl)
  have hMember :
      report.toJson.draft.member? "diagnostics" = some (diagnosticsDraft report.diagnostics) :=
    rfl
  constructor
  · rintro ⟨read, hText, hDiagnostics⟩
    rw [hRead] at hText
    cases hText
    rw [hMember] at hDiagnostics
    exact (diagnosticsDraft_injective (Option.some.inj hDiagnostics)).symm
  · rintro rfl
    exact ⟨_, hRead, hMember⟩

end LiteralLint
