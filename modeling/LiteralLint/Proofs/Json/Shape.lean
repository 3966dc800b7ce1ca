import LiteralLint.Proofs.Json.Reading
import LiteralLint.Proofs.Json.Record

/-! # Shapes

A shape says where a value has fields and items. Two drafts of one shape that differ in nothing but
the order of members, in unknown members, or in whether the fields are named or listed are decoded
to the same value, and none is decoded where a field stands twice or is missing. -/

set_option autoImplicit false

namespace LiteralLint.Json

/-- The fields of a struct are in the order of their declaration; `lenient` is one where each may be
left out. -/
inductive Shape where
  | scalar
  | list (item : Shape)
  | struct (lenient : Bool) (fields : List (String × Shape))

/-- The drafts of a shape that stand for the same value. -/
inductive Rearranged : Shape → Draft → Draft → Prop
  | refl (shape : Shape) (d : Draft) : Rearranged shape d d
  | symm {shape : Shape} {d e : Draft} : Rearranged shape d e → Rearranged shape e d
  | trans {shape : Shape} {d e f : Draft} :
      Rearranged shape d e → Rearranged shape e f → Rearranged shape d f
  | permuted {lenient : Bool} {fields : List (String × Shape)}
      {ms others : List (Option String × Draft)} : ms.Perm others →
      Rearranged (.struct lenient fields) (.object ms true) (.object others true)
  /-- There is one more member, which is no field; its value may be any. -/
  | extended {lenient : Bool} {fields : List (String × Shape)} {name : String} {d : Draft}
      {cs : List Char} (ms : List (Option String × Draft)) :
      name ∉ fields.map Prod.fst → Spelling (.value d) cs →
      Rearranged (.struct lenient fields) (.object ms true) (.object ((some name, d) :: ms) true)
  /-- The fields, all of them and in order, are listed without their names. -/
  | listed {lenient : Bool} {fields : List (String × Shape)} {ds : List Draft} :
      ds.length = fields.length →
      Rearranged (.struct lenient fields)
        (.object (List.zip (fields.map fun field => some field.1) ds) true) (.array ds true)
  | field {lenient : Bool} {fields : List (String × Shape)} {name : String} {shape : Shape}
      {d e : Draft} (ms : List (Option String × Draft)) :
      (name, shape) ∈ fields → Rearranged shape d e →
      Rearranged (.struct lenient fields)
        (.object ((some name, d) :: ms) true) (.object ((some name, e) :: ms) true)
  | item {shape : Shape} {d e : Draft} (before after : List Draft) : Rearranged shape d e →
      Rearranged (.list shape) (.array (before ++ d :: after) true)
        (.array (before ++ e :: after) true)

/-- The drafts of a shape that hold a field twice, or do not hold one that must not be left out. -/
inductive Broken : Shape → Draft → Prop
  | repeated {lenient : Bool} {fields : List (String × Shape)} {name : String} {d e : Draft}
      {ms : List (Option String × Draft)} {closed : Bool} :
      name ∈ fields.map Prod.fst → [(some name, d), (some name, e)].Sublist ms →
      Broken (.struct lenient fields) (.object ms closed)
  | missing {fields : List (String × Shape)} {name : String} {ms : List (Option String × Draft)}
      {closed : Bool} :
      name ∈ fields.map Prod.fst → (∀ d, (some name, d) ∉ ms) →
      Broken (.struct false fields) (.object ms closed)
  | field {lenient : Bool} {fields : List (String × Shape)} {name : String} {shape : Shape}
      {d : Draft} {ms : List (Option String × Draft)} {closed : Bool} :
      (name, shape) ∈ fields → (some name, d) ∈ ms → Broken shape d →
      Broken (.struct lenient fields) (.object ms closed)
  | listedField {lenient : Bool} {fields : List (String × Shape)} {name : String} {shape : Shape}
      {d : Draft} {ds : List Draft} {closed : Bool} :
      ((name, shape), d) ∈ fields.zip ds → Broken shape d →
      Broken (.struct lenient fields) (.array ds closed)
  | item {shape : Shape} {d : Draft} {ds : List Draft} {closed : Bool} :
      d ∈ ds → Broken shape d → Broken (.list shape) (.array ds closed)

/-- The items are the values of all fields, in the order of the fields, wherever their members
stand. -/
inductive Shape.ListedAs : Shape → Draft → List Draft → Prop
  | struct {lenient : Bool} {fields : List (String × Shape)} {ms : List (Option String × Draft)}
      {ds : List Draft} : ds.length = fields.length →
      (∀ m ∈ (fields.map Prod.fst).zip ds, (some m.1, m.2) ∈ ms) →
      ListedAs (.struct lenient fields) (.object ms true) ds

/-- A decoder takes drafts that stand for the same value to that value, and no broken one to any. -/
structure Respects {α : Type} (shape : Shape) (decoder : Decoder α) : Prop where
  rearranged : ∀ {d e : Draft}, Rearranged shape d e → ∀ a, decoder d = .ok a ↔ decoder e = .ok a
  listed : ∀ {d : Draft} {ds : List Draft}, shape.ListedAs d ds →
    ∀ a, decoder d = .ok a → decoder (.array ds true) = .ok a
  broken : ∀ {d : Draft}, Broken shape d → ∀ a, decoder d ≠ .ok a

section

variable {α : Type} {shape : Shape} {decoder : Decoder α} {d e : Draft}

theorem Rearranged.eq_of_scalar (h : Rearranged .scalar d e) : d = e := by
  generalize hShape : Shape.scalar = shape at h
  induction h with
  | refl => rfl
  | symm _ ih => exact (ih hShape).symm
  | trans _ _ ih ihNext => exact (ih hShape).trans (ihNext hShape)
  | permuted | extended | listed | field | item => cases hShape

theorem respects_scalar (decoder : Decoder α) : Respects .scalar decoder :=
  ⟨fun h a => by rw [h.eq_of_scalar], nofun, nofun⟩

theorem Rearranged.rel_refl : ∀ given : Option Draft, given.Rel (Rearranged shape) given
  | some d => .some (.refl shape d)
  | none => .none

theorem Rearranged.null_iff (h : Rearranged shape d e) : d = .null ↔ e = .null := by
  induction h with
  | refl => rfl
  | symm _ ih => exact ih.symm
  | trans _ _ ih ihNext => exact ih.trans ihNext
  | permuted | extended | listed | field | item => exact ⟨nofun, nofun⟩

theorem map_eq_map_of_iff {β ε : Type} {f : α → β} {first other : Except ε α}
    (h : ∀ a, first = .ok a ↔ other = .ok a) (b : β) :
    f <$> first = .ok b ↔ f <$> other = .ok b := by
  constructor
  · intro hFirst
    obtain ⟨a, hA, rfl⟩ := map_eq_ok hFirst
    rw [(h a).mp hA]
    rfl
  · intro hOther
    obtain ⟨a, hA, rfl⟩ := map_eq_ok hOther
    rw [(h a).mpr hA]
    rfl

theorem Respects.optional (h : Respects shape decoder) :
    Respects shape (Decode.optional decoder) where
  rearranged {d e} hRearranged a := by
    by_cases hNull : d = .null
    · rw [hNull, hRearranged.null_iff.mp hNull]
    · have hOther : e ≠ .null := mt hRearranged.null_iff.mpr hNull
      rw [Decode.optional_of_ne_null hNull, Decode.optional_of_ne_null hOther]
      exact map_eq_map_of_iff (h.rearranged hRearranged) a
  listed hListed a hDecoded := by
    cases hListed with
    | struct hLength hFields =>
      obtain ⟨b, hB, rfl⟩ := map_eq_ok hDecoded
      exact congrArg (some <$> ·) (h.listed (.struct hLength hFields) b hB)
  broken {d} hBroken a hDecoded := by
    have hNull : d ≠ .null := by
      rintro rfl
      cases hBroken
    rw [Decode.optional_of_ne_null hNull] at hDecoded
    obtain ⟨b, hB, -⟩ := map_eq_ok hDecoded
    exact h.broken hBroken b hB

theorem forall₂_middle_congr {R : Draft → α → Prop} (h : ∀ a, R d a ↔ R e a)
    (before after : List Draft) (as : List α) :
    List.Forall₂ R (before ++ d :: after) as ↔ List.Forall₂ R (before ++ e :: after) as := by
  induction before generalizing as with
  | nil => simp only [List.nil_append, List.forall₂_cons_left_iff, h]
  | cons b before ih => simp only [List.cons_append, List.forall₂_cons_left_iff, ih]

theorem Respects.list (h : Respects shape decoder) :
    Respects (.list shape) (Decode.list decoder) where
  rearranged {d e} hRearranged := by
    generalize hShape : Shape.list shape = outer at hRearranged
    induction hRearranged with
    | refl => exact fun _ => Iff.rfl
    | symm _ ih => exact fun as => (ih hShape as).symm
    | trans _ _ ih ihNext => exact fun as => (ih hShape as).trans (ihNext hShape as)
    | item before after hItem =>
      cases hShape
      intro as
      rw [Decode.list_array_eq_ok_iff, Decode.list_array_eq_ok_iff, mapM_eq_ok_iff, mapM_eq_ok_iff,
        forall₂_middle_congr (h.rearranged hItem)]
    | permuted | extended | listed | field => cases hShape
  listed := nofun
  broken {d} hBroken as hDecoded := by
    cases hBroken with
    | item hMem hItem =>
      obtain ⟨hItems, -⟩ := Decode.list_array_eq_ok_iff.mp hDecoded
      obtain ⟨a, hA⟩ := exists_mapM_eq_ok_iff.mp ⟨as, hItems⟩ _ hMem
      exact h.broken hItem a hA

end

inductive Record.HasFields : {α : Type} → Record α → Bool → List (String × Shape) → Prop
  | pure {α : Type} (lenient : Bool) (a : α) : HasFields (.pure a) lenient []
  | field {α : Type} {name : String} {item : Decoder α} {default? : Option α} {shape : Shape} :
      Respects shape item → HasFields (.field name item default?) default?.isSome [(name, shape)]
  | and {α β γ : Type} {f : α → β → γ} {a : Record α} {b : Record β} {lenient : Bool}
      {fields others : List (String × Shape)} : HasFields a lenient fields →
      HasFields b lenient others → HasFields (.and f a b) lenient (fields ++ others)

namespace Record

section

variable {α : Type} {r : Record α} {lenient : Bool} {fields : List (String × Shape)} {a : α}
  {name : String} {shape : Shape} {d e : Draft} {given others : String → Option Draft}
  {missing another : String → DecodeError}

theorem HasFields.apply {β : Type} {f : Record (α → β)} {field : String × Shape}
    (h : f.HasFields lenient fields) (hNext : r.HasFields lenient [field]) :
    (Record.apply f r).HasFields lenient (fields ++ [field]) :=
  .and h hNext

theorem HasFields.names_eq (h : r.HasFields lenient fields) : r.names = fields.map Prod.fst := by
  induction h with
  | pure | field => rfl
  | and _ _ ih ihOthers => rw [List.map_append, ← ih, ← ihOthers]; rfl

theorem HasFields.yields (h : r.HasFields lenient fields)
    (hGiven : ∀ field ∈ fields, (given field.1).Rel (Rearranged field.2) (others field.1))
    (hYields : r.Yields given missing a) : r.Yields others another a := by
  induction h with
  | pure => exact yields_pure_iff.mpr (yields_pure_iff.mp hYields)
  | field hItem =>
    have hName := List.forall_mem_singleton.mp hGiven
    rw [yields_field_iff] at hYields ⊢
    rcases hYields with ⟨d, hSome, hDecoded⟩ | ⟨hNone, hDefault⟩
    · rw [hSome] at hName
      generalize others _ = other at hName ⊢
      cases hName with
      | some hRearranged => exact Or.inl ⟨_, rfl, (hItem.rearranged hRearranged _).mp hDecoded⟩
    · rw [hNone] at hName
      generalize others _ = other at hName ⊢
      cases hName
      exact Or.inr ⟨rfl, hDefault⟩
  | and _ _ ih ihOthers =>
    obtain ⟨hFirst, hSecond⟩ := List.forall_mem_append.mp hGiven
    rw [yields_and_iff] at hYields ⊢
    obtain ⟨x, y, hX, hY, rfl⟩ := hYields
    exact ⟨x, y, ih hFirst hX, ihOthers hSecond hY, rfl⟩

theorem HasFields.not_accept (h : r.HasFields lenient fields) (hMem : (name, shape) ∈ fields)
    (hBroken : Broken shape d) : r.accept name d ≠ .ok () := by
  induction h with
  | pure => cases hMem
  | field hItem =>
    cases List.mem_singleton.mp hMem
    intro hAccept
    obtain ⟨a, hDecoded, -⟩ := map_eq_ok ((if_pos rfl).symm.trans hAccept)
    exact hItem.broken hBroken a hDecoded
  | and _ _ ih ihOthers =>
    intro hAccept
    obtain ⟨⟨⟩, hFirst, hSecond⟩ := bind_eq_ok hAccept
    rcases List.mem_append.mp hMem with hMem | hMem
    · exact ih hMem hFirst
    · exact ihOthers hMem hSecond

theorem HasFields.not_yields (h : r.HasFields lenient fields) (hStrict : lenient = false)
    (hMem : name ∈ fields.map Prod.fst) (hNone : given name = none) :
    ¬ r.Yields given missing a := by
  induction h with
  | pure => cases hMem
  | field =>
    cases List.mem_singleton.mp hMem
    rw [yields_field_iff, hNone]
    rintro (⟨d, ⟨⟩, -⟩ | ⟨-, hDefault⟩)
    rw [hDefault] at hStrict
    cases hStrict
  | and _ _ ih ihOthers =>
    rw [yields_and_iff]
    rintro ⟨x, y, hX, hY, -⟩
    rw [List.map_append, List.mem_append] at hMem
    rcases hMem with hMem | hMem
    · exact ih hStrict hMem hX
    · exact ihOthers hStrict hMem hY

end

section

variable {α : Type} {r : Record α} {lenient : Bool} {fields : List (String × Shape)} {a : α}
  {title : String} {ms : List (Option String × Draft)}

theorem decoder_object_perm {others : List (Option String × Draft)} (h : ms.Perm others)
    (hDecoded : r.decoder title (.object ms true) = .ok a) :
    r.decoder title (.object others true) = .ok a := by
  obtain ⟨-, hAdmits, hCollects⟩ := decoder_object_eq_ok_iff.mp hDecoded
  exact decoder_object_eq_ok_iff.mpr ⟨rfl, fun m hMem => hAdmits m (h.mem_iff.mpr hMem),
    hCollects.perm (h.filterMap _)⟩

theorem decoder_object_extended {name : String} {d : Draft} (hUnknown : name ∉ r.names)
    (hSound : d.isSound = true) :
    r.decoder title (.object ms true) = .ok a ↔
      r.decoder title (.object ((some name, d) :: ms) true) = .ok a := by
  rw [decoder_object_eq_ok_iff, decoder_object_eq_ok_iff, List.forall_mem_cons,
    admits_iff_of_not_mem hUnknown, and_iff_right hSound, known_cons_of_not_mem hUnknown]

theorem HasFields.decoder_object_field (h : r.HasFields lenient fields)
    (hUnique : (fields.map Prod.fst).Nodup) {name : String} {shape : Shape} {d e : Draft}
    (hMem : (name, shape) ∈ fields) (hRearranged : Rearranged shape d e)
    (hDecoded : r.decoder title (.object ((some name, d) :: ms) true) = .ok a) :
    r.decoder title (.object ((some name, e) :: ms) true) = .ok a := by
  have hKnown : name ∈ r.names := h.names_eq ▸ List.mem_map.mpr ⟨(name, shape), hMem, rfl⟩
  rw [decoder_object_eq_ok_iff, List.forall_mem_cons, known_cons_of_mem hKnown] at hDecoded ⊢
  obtain ⟨-, ⟨-, hAdmits⟩, hNames, hYields⟩ := hDecoded
  refine ⟨rfl, ⟨⟨name, rfl, Or.inl hKnown⟩, hAdmits⟩, hNames,
    h.yields (fun field hField => ?_) hYields⟩
  by_cases hName : field.1 = name
  · obtain rfl : field = (name, shape) := List.inj_on_of_nodup_map hUnique hField hMem hName
    rw [List.lookup_cons_self, List.lookup_cons_self]
    exact .some hRearranged
  · rw [List.lookup_cons, List.lookup_cons, beq_false_of_ne hName]
    exact Rearranged.rel_refl _

theorem HasFields.decoder_listed (h : r.HasFields lenient fields)
    (hUnique : (fields.map Prod.fst).Nodup) {ds : List Draft}
    (hLength : ds.length = fields.length) :
    r.decoder title (.object (List.zip (fields.map fun field => some field.1) ds) true) = .ok a ↔
      r.decoder title (.array ds true) = .ok a := by
  have hNames : r.names.length = fields.length := by rw [h.names_eq, List.length_map]
  have hZip : List.zip (fields.map fun field => some field.1) ds =
      (r.names.zip ds).map fun m => (some m.1, m.2) := by
    rw [h.names_eq, List.zip_map_left, List.zip_map_left, List.map_map]
    rfl
  have hKeys : (r.names.zip ds).map Prod.fst = r.names :=
    List.map_fst_zip (Nat.le_of_eq (hNames.trans hLength.symm))
  rw [hZip, decoder_object_named_iff fun _ hKey => hKeys ▸ hKey,
    decoder_array_eq_ok_iff (h.names_eq ▸ hUnique) (hLength.trans hNames.symm)]
  exact ⟨fun hC => ⟨hC.unique, h.yields (fun _ _ => Rearranged.rel_refl _) hC.yields⟩,
    fun hC => ⟨hC.unique, h.yields (fun _ _ => Rearranged.rel_refl _) hC.yields⟩⟩

theorem HasFields.decoder_array (h : r.HasFields lenient fields)
    (hUnique : (fields.map Prod.fst).Nodup) {ds : List Draft}
    (hLength : ds.length = fields.length)
    (hFields : ∀ m ∈ (fields.map Prod.fst).zip ds, (some m.1, m.2) ∈ ms)
    (hDecoded : r.decoder title (.object ms true) = .ok a) :
    r.decoder title (.array ds true) = .ok a := by
  obtain ⟨-, -, hNames, hYields⟩ := decoder_object_eq_ok_iff.mp hDecoded
  rw [← h.names_eq] at hFields hUnique
  have hCount : ds.length = r.names.length := by rw [hLength, h.names_eq, List.length_map]
  have hKeys : (r.names.zip ds).map Prod.fst = r.names :=
    List.map_fst_zip (Nat.le_of_eq hCount.symm)
  have hItems : ((r.names.zip ds).map Prod.fst).Nodup := by rwa [hKeys]
  rw [decoder_array_eq_ok_iff hUnique hCount]
  refine ⟨hItems, h.yields (fun field hField => ?_) hYields⟩
  have hName : field.1 ∈ r.names := h.names_eq ▸ List.mem_map_of_mem hField
  obtain ⟨⟨_, d⟩, hMem, rfl⟩ := List.mem_map.mp (hKeys.symm ▸ hName)
  have hMember := mem_known_iff.mpr ⟨hName, hFields _ hMem⟩
  rw [(lookup_eq_some_iff_mem hNames).mpr hMember, (lookup_eq_some_iff_mem hItems).mpr hMem]
  exact .some (.refl _ _)

theorem HasFields.respects (h : r.HasFields lenient fields)
    (hUnique : (fields.map Prod.fst).Nodup) (title : String) :
    Respects (.struct lenient fields) (r.decoder title) where
  rearranged {d e} hRearranged := by
    generalize hShape : Shape.struct lenient fields = outer at hRearranged
    induction hRearranged with
    | refl => exact fun _ => Iff.rfl
    | symm _ ih => exact fun as => (ih hShape as).symm
    | trans _ _ ih ihNext => exact fun as => (ih hShape as).trans (ihNext hShape as)
    | permuted hPerm =>
      exact fun _ => ⟨decoder_object_perm hPerm, decoder_object_perm hPerm.symm⟩
    | extended ms hUnknown hSpelled =>
      cases hShape
      exact fun _ => decoder_object_extended (h.names_eq ▸ hUnknown) hSpelled.isSound
    | listed hLength =>
      cases hShape
      exact fun _ => h.decoder_listed hUnique hLength
    | field ms hMem hField =>
      cases hShape
      exact fun _ => ⟨h.decoder_object_field hUnique hMem hField,
        h.decoder_object_field hUnique hMem hField.symm⟩
    | item => cases hShape
  listed hListed a hDecoded := by
    cases hListed with
    | struct hLength hFields => exact h.decoder_array hUnique hLength hFields hDecoded
  broken {d} hBroken a hDecoded := by
    cases hBroken with
    | repeated hMem hSublist =>
      rw [← h.names_eq] at hMem
      obtain ⟨-, -, hNames, -⟩ := decoder_object_eq_ok_iff.mp hDecoded
      exact not_nodup_known hMem hSublist hNames
    | missing hMem hNone =>
      obtain ⟨-, -, hNames, hYields⟩ := decoder_object_eq_ok_iff.mp hDecoded
      refine h.not_yields rfl hMem (Option.eq_none_iff_forall_ne_some.mpr fun d hSome => ?_) hYields
      exact hNone d (mem_known_iff.mp ((lookup_eq_some_iff_mem hNames).mp hSome)).2
    | field hMem hGiven hField =>
      obtain ⟨-, -, hCollects⟩ := decoder_object_eq_ok_iff.mp hDecoded
      have hKnown := h.names_eq ▸ List.mem_map_of_mem (f := Prod.fst) hMem
      exact h.not_accept hMem hField (hCollects.accept (mem_known_iff.mpr ⟨hKnown, hGiven⟩))
    | listedField hMem hField =>
      refine h.not_accept (List.of_mem_zip hMem).1 hField (accept_of_ofItems hDecoded ?_)
      rw [h.names_eq, List.zip_map_left]
      exact List.mem_map.mpr ⟨_, hMem, rfl⟩

end

end Record

end LiteralLint.Json
