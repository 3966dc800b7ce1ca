import LiteralLint.Json.Decode
import LiteralLint.Proofs.Traversal
import Mathlib.Data.List.Nodup
import Mathlib.Data.List.Perm.Basic

/-! # How options, lists and records are read

A record reads its fields out of what is given under their names. An object and an array differ only
in how they give something under a name: an object by its members, once the unknown ones are left
out, an array by its items, in the order of the names. -/

set_option autoImplicit false

namespace LiteralLint.Json

section

variable {key : String} {d : Draft} {given others : List (String × Draft)}

theorem lookup_eq_some_iff_mem (hUnique : (given.map Prod.fst).Nodup) :
    List.lookup key given = some d ↔ (key, d) ∈ given := by
  induction given with
  | nil => exact ⟨nofun, nofun⟩
  | cons member given ih =>
    obtain ⟨name, value⟩ := member
    obtain ⟨hFresh, hOthers⟩ := List.nodup_cons.mp hUnique
    rw [List.mem_cons, Prod.mk.injEq, ← ih hOthers]
    by_cases hKey : key = name
    · subst hKey
      have hNone : List.lookup key given ≠ some d := fun hSome =>
        hFresh (List.mem_map.mpr ⟨(key, d), (ih hOthers).mp hSome, rfl⟩)
      rw [List.lookup_cons_self, Option.some.injEq, or_iff_left hNone, and_iff_right rfl, eq_comm]
    · rw [List.lookup_cons, beq_false_of_ne hKey, or_iff_right fun hHead => hKey hHead.1]

theorem lookup_perm (hUnique : (given.map Prod.fst).Nodup) (h : given.Perm others)
    (key : String) : List.lookup key given = List.lookup key others :=
  Option.ext fun d => by
    rw [lookup_eq_some_iff_mem hUnique,
      lookup_eq_some_iff_mem ((h.map Prod.fst).nodup_iff.mp hUnique), h.mem_iff]

theorem isSome_lookup_iff : (List.lookup key given).isSome = true ↔ key ∈ given.map Prod.fst := by
  rw [List.lookup_isSome_iff, List.mem_map]
  exact exists_congr fun _ => and_congr_right fun _ => beq_iff_eq.trans eq_comm

end

namespace Decode

variable {α : Type} {decoder : Decoder α} {d : Draft}

theorem optional_of_ne_null (h : d ≠ .null) :
    optional decoder d = some <$> decoder d := by
  cases d with
  | null => exact absurd rfl h
  | _ => rfl

theorem list_array_eq_ok_iff {ds : List Draft} {closed : Bool} {as : List α} :
    list decoder (.array ds closed) = .ok as ↔ ds.mapM decoder = .ok as ∧ closed = true := by
  constructor
  · intro h
    obtain ⟨bs, hItems, h⟩ := bind_eq_ok h
    split at h
    · rename_i hClosed
      cases h
      exact ⟨hItems, hClosed⟩
    · cases h
  · rintro ⟨hItems, hClosed⟩
    refine (bind_of_ok hItems).trans ?_
    rw [if_pos hClosed]
    rfl

end Decode

namespace Record

/-- The fields that are given are right, and the record that is built of them is `a`. -/
structure Yields {α : Type} (r : Record α) (given : String → Option Draft)
    (missing : String → DecodeError) (a : α) : Prop where
  accepted : ∀ {name : String} {d : Draft}, given name = some d → r.accept name d = .ok ()
  built : r.build given missing = .ok a

section

variable {α β γ : Type} {given : String → Option Draft} {missing : String → DecodeError}
  {name : String} {item : Decoder α} {default? : Option α}

theorem yields_pure_iff {a b : α} : (pure a).Yields given missing b ↔ a = b :=
  ⟨fun h => Except.ok.inj h.built, fun h => ⟨fun _ => rfl, congrArg Except.ok h⟩⟩

theorem yields_field_iff {a : α} :
    (field name item default?).Yields given missing a ↔
      (∃ d, given name = some d ∧ item d = .ok a) ∨ given name = none ∧ default? = some a := by
  constructor
  · rintro ⟨-, hBuilt⟩
    simp only [field] at hBuilt
    cases hGiven : given name with
    | some d =>
      rw [hGiven] at hBuilt
      exact Or.inl ⟨d, rfl, hBuilt⟩
    | none =>
      rw [hGiven] at hBuilt
      cases default? with
      | some b => exact Or.inr ⟨rfl, congrArg some (Except.ok.inj hBuilt)⟩
      | none => cases hBuilt
  · rintro (⟨d, hGiven, hItem⟩ | ⟨hGiven, rfl⟩)
    · refine ⟨fun {other value} hOther => ?_, ?_⟩
      · by_cases hName : other = name
        · subst hName
          obtain rfl : d = value := Option.some.inj (hGiven.symm.trans hOther)
          simp only [field, if_pos, hItem]
          rfl
        · simp only [field, if_neg hName]
      · simp only [field, hGiven, hItem]
    · refine ⟨fun {other value} hOther => ?_, ?_⟩
      · have hName : other ≠ name := by
          rintro rfl
          cases hGiven.symm.trans hOther
        simp only [field, if_neg hName]
      · simp only [field, hGiven]

theorem yields_and_iff {f : α → β → γ} {a : Record α} {b : Record β} {c : γ} :
    (and f a b).Yields given missing c ↔
      ∃ x y, a.Yields given missing x ∧ b.Yields given missing y ∧ f x y = c := by
  constructor
  · rintro ⟨hAccepted, hBuilt⟩
    obtain ⟨x, hX, hBuilt⟩ := bind_eq_ok hBuilt
    obtain ⟨y, hY, hBuilt⟩ := bind_eq_ok hBuilt
    refine ⟨x, y, ⟨fun hGiven => ?_, hX⟩, ⟨fun hGiven => ?_, hY⟩, Except.ok.inj hBuilt⟩
    · obtain ⟨⟨⟩, hA, -⟩ := bind_eq_ok (hAccepted hGiven)
      exact hA
    · obtain ⟨⟨⟩, -, hB⟩ := bind_eq_ok (hAccepted hGiven)
      exact hB
  · rintro ⟨x, y, hA, hB, rfl⟩
    refine ⟨fun {name d} hGiven => ?_, ?_⟩
    · simp only [and, hA.accepted hGiven]
      exact hB.accepted hGiven
    · simp only [and, hA.built, hB.built]
      rfl

end

section

variable {α : Type} {r : Record α} {a : α} {name : String} {d : Draft} {closed : Bool}
  {ms others : List (Option String × Draft)} {seen : List (String × Draft)}

def known (r : Record α) (ms : List (Option String × Draft)) : List (String × Draft) :=
  ms.filterMap fun m => m.1.bind fun name => if name ∈ r.names then some (name, m.2) else none

def Admits (r : Record α) (m : Option String × Draft) : Prop :=
  ∃ name, m.1 = some name ∧ (name ∈ r.names ∨ m.2.isSound = true)

theorem admits_iff_of_not_mem (h : name ∉ r.names) :
    r.Admits (some name, d) ↔ d.isSound = true := by
  constructor
  · rintro ⟨_, ⟨⟩, hKnown | hSound⟩
    · exact absurd hKnown h
    · exact hSound
  · exact fun hSound => ⟨name, rfl, Or.inr hSound⟩

theorem known_cons_of_mem (h : name ∈ r.names) :
    r.known ((some name, d) :: ms) = (name, d) :: r.known ms :=
  List.filterMap_cons_some (by rw [Option.bind_some, if_pos h])

theorem known_cons_of_not_mem (h : name ∉ r.names) :
    r.known ((some name, d) :: ms) = r.known ms :=
  List.filterMap_cons_none (by rw [Option.bind_some, if_neg h])

theorem mem_known_iff : (name, d) ∈ r.known ms ↔ name ∈ r.names ∧ (some name, d) ∈ ms := by
  simp only [known, List.mem_filterMap, Option.bind_eq_some_iff, Option.ite_none_right_eq_some,
    Option.some.injEq, Prod.mk.injEq, Prod.exists]
  constructor
  · rintro ⟨_, _, hMem, _, rfl, hKnown, rfl, rfl⟩
    exact ⟨hKnown, hMem⟩
  · rintro ⟨hKnown, hMem⟩
    exact ⟨some name, d, hMem, name, rfl, hKnown, rfl, rfl⟩

/-- No name is given twice, and the record is built of what is given. -/
structure Collects (r : Record α) (given : List (String × Draft)) (missing : String → DecodeError)
    (a : α) : Prop where
  unique : (given.map Prod.fst).Nodup
  yields : r.Yields (List.lookup · given) missing a

section

variable {given others : List (String × Draft)} {missing : String → DecodeError}

theorem Collects.accept (h : r.Collects given missing a) (hMem : (name, d) ∈ given) :
    r.accept name d = .ok () :=
  h.yields.accepted ((lookup_eq_some_iff_mem h.unique).mpr hMem)

theorem Collects.fresh (h : r.Collects (given ++ (name, d) :: others) missing a) :
    name ∉ others.map Prod.fst := by
  have hUnique := h.unique
  rw [List.map_append, List.map_cons] at hUnique
  exact (List.nodup_cons.mp hUnique.of_append_right).1

theorem Collects.perm (h : r.Collects given missing a) (hPerm : given.Perm others) :
    r.Collects others missing a := by
  have hLookup : (List.lookup · given) = (List.lookup · others) :=
    funext (lookup_perm h.unique hPerm)
  exact ⟨(hPerm.map Prod.fst).nodup_iff.mp h.unique, hLookup ▸ h.yields⟩

theorem collects_iff (hUnique : (given.map Prod.fst).Nodup) :
    r.Collects given missing a ↔
      (∀ m ∈ given, r.accept m.1 m.2 = .ok ()) ∧
        r.build (List.lookup · given) missing = .ok a :=
  ⟨fun h => ⟨fun _ hMem => h.accept hMem, h.yields.built⟩, fun ⟨hAccepted, hBuilt⟩ =>
    ⟨hUnique, fun hGiven => hAccepted _ ((lookup_eq_some_iff_mem hUnique).mp hGiven), hBuilt⟩⟩

end

theorem ofMembers_known_eq_ok_iff (hKnown : name ∈ r.names) :
    r.ofMembers closed seen ((some name, d) :: ms) = .ok a ↔
      name ∉ seen.map Prod.fst ∧ r.accept name d = .ok () ∧
        r.ofMembers closed ((name, d) :: seen) ms = .ok a := by
  rw [ofMembers, if_pos hKnown]
  split
  · rename_i hSeen
    exact ⟨nofun, fun h => absurd (isSome_lookup_iff.mp hSeen) h.1⟩
  · rename_i hFresh
    rw [and_iff_right (mt isSome_lookup_iff.mpr hFresh)]
    constructor
    · intro h
      obtain ⟨⟨⟩, hAccept, hOthers⟩ := bind_eq_ok h
      exact ⟨hAccept, hOthers⟩
    · rintro ⟨hAccept, hOthers⟩
      exact (bind_of_ok hAccept).trans hOthers

theorem ofMembers_unknown_eq_ok_iff (hUnknown : name ∉ r.names) :
    r.ofMembers closed seen ((some name, d) :: ms) = .ok a ↔
      r.Admits (some name, d) ∧ r.ofMembers closed seen ms = .ok a := by
  rw [ofMembers, if_neg hUnknown, admits_iff_of_not_mem hUnknown]
  split
  · rename_i hSound
    rw [and_iff_right hSound]
  · rename_i hFault
    exact ⟨nofun, fun h => absurd h.1 hFault⟩

/-- What was read before counts as given, and it was right. -/
theorem ofMembers_eq_ok_iff (hUnique : (seen.map Prod.fst).Nodup)
    (hAccepted : ∀ m ∈ seen, r.accept m.1 m.2 = .ok ()) :
    r.ofMembers closed seen ms = .ok a ↔
      closed = true ∧ (∀ m ∈ ms, r.Admits m) ∧
        r.Collects ((r.known ms).reverse ++ seen)
          (fun name => .mismatch (.missingField name)) a := by
  induction ms generalizing seen with
  | nil =>
    rw [ofMembers, and_iff_right (List.forall_mem_nil _), known, List.filterMap_nil,
      List.reverse_nil, List.nil_append, collects_iff hUnique, and_iff_right hAccepted]
    split
    · rename_i hClosed
      rw [and_iff_right hClosed]
    · rename_i hOpen
      exact ⟨nofun, fun h => absurd h.1 hOpen⟩
  | cons m ms ih =>
    obtain ⟨_ | name, d⟩ := m
    · rw [ofMembers, List.forall_mem_cons]
      exact ⟨nofun, fun ⟨_, ⟨⟨_, hNamed, _⟩, _⟩, _⟩ => nomatch hNamed⟩
    · rw [List.forall_mem_cons]
      by_cases hKnown : name ∈ r.names
      · have hAdmits : r.Admits (some name, d) := ⟨name, rfl, Or.inl hKnown⟩
        rw [ofMembers_known_eq_ok_iff hKnown, known_cons_of_mem hKnown, List.reverse_cons,
          List.append_assoc, List.singleton_append, and_iff_right hAdmits]
        have hSeen (hFresh : name ∉ seen.map Prod.fst) (hAccept : r.accept name d = .ok ()) :=
          @ih ((name, d) :: seen) (List.nodup_cons.mpr ⟨hFresh, hUnique⟩)
            (List.forall_mem_cons.mpr ⟨hAccept, hAccepted⟩)
        constructor
        · rintro ⟨hFresh, hAccept, hOthers⟩
          exact (hSeen hFresh hAccept).mp hOthers
        · intro h
          have hFresh := h.2.2.fresh
          have hAccept := h.2.2.accept (List.mem_append_right _ List.mem_cons_self)
          exact ⟨hFresh, hAccept, (hSeen hFresh hAccept).mpr h⟩
      · rw [ofMembers_unknown_eq_ok_iff hKnown, ih hUnique hAccepted, known_cons_of_not_mem hKnown,
          and_assoc, and_left_comm]

theorem decoder_object_eq_ok_iff {title : String} :
    r.decoder title (.object ms closed) = .ok a ↔
      closed = true ∧ (∀ m ∈ ms, r.Admits m) ∧
        r.Collects (r.known ms) (fun name => .mismatch (.missingField name)) a := by
  rw [decoder, ofMembers_eq_ok_iff, List.append_nil]
  · exact and_congr_right fun _ => and_congr_right fun _ =>
      ⟨fun h => h.perm (List.reverse_perm _), fun h => h.perm (List.reverse_perm _).symm⟩
  · exact List.nodup_nil
  · exact List.forall_mem_nil _

theorem known_named_eq_filter (r : Record α) (given : List (String × Draft)) :
    r.known (given.map fun m => (some m.1, m.2)) = given.filter (·.1 ∈ r.names) := by
  induction given with
  | nil => rfl
  | cons m given ih =>
    rw [List.map_cons]
    by_cases hKnown : m.1 ∈ r.names
    · have hHead : decide (m.1 ∈ r.names) = true := decide_eq_true hKnown
      rw [known_cons_of_mem hKnown, ih, List.filter_cons, if_pos hHead]
    · have hHead : ¬ decide (m.1 ∈ r.names) = true := mt of_decide_eq_true hKnown
      rw [known_cons_of_not_mem hKnown, ih, List.filter_cons, if_neg hHead]

theorem known_named {given : List (String × Draft)} (h : given.map Prod.fst ⊆ r.names) :
    r.known (given.map fun m => (some m.1, m.2)) = given := by
  rw [known_named_eq_filter, List.filter_eq_self]
  exact fun m hMem => decide_eq_true (h (List.mem_map_of_mem hMem))

theorem decoder_object_named_iff {title : String} {given : List (String × Draft)}
    (h : given.map Prod.fst ⊆ r.names) :
    r.decoder title (.object (given.map fun m => (some m.1, m.2)) true) = .ok a ↔
      r.Collects given (fun name => .mismatch (.missingField name)) a := by
  have hAdmits : ∀ m ∈ given.map fun m => (some m.1, m.2), r.Admits m := by
    rw [List.forall_mem_map]
    exact fun m hMem => ⟨m.1, rfl, Or.inl (h (List.mem_map_of_mem hMem))⟩
  rw [decoder_object_eq_ok_iff, and_iff_right rfl, and_iff_right hAdmits, known_named h]

theorem not_nodup_known {e : Draft} (hKnown : name ∈ r.names)
    (h : [(some name, d), (some name, e)].Sublist ms) : ¬ ((r.known ms).map Prod.fst).Nodup := by
  have hTwice : (r.known [(some name, d), (some name, e)]).Sublist (r.known ms) := h.filterMap _
  rw [known_cons_of_mem hKnown, known_cons_of_mem hKnown] at hTwice
  exact fun hUnique => List.nodup_iff_sublist.mp hUnique name (hTwice.map Prod.fst)

theorem accept_of_ofItems {title : String} {ds : List Draft} (h : r.ofItems title ds closed = .ok a)
    (hMem : (name, d) ∈ r.names.zip ds) : r.accept name d = .ok () := by
  obtain ⟨⟨⟩, hAccepted, -⟩ := bind_eq_ok h
  exact forM_eq_ok_iff.mp hAccepted _ hMem

def tooFew (r : Record α) (title : String) (items : List Draft) : DecodeError :=
  let count := r.names.length
  let plural := if count = 1 then "" else "s"
  .mismatch (.invalidLength items.length s!"struct {title} with {count} element{plural}")

theorem decoder_array_eq_ok_iff {title : String} {ds : List Draft} (hUnique : r.names.Nodup)
    (hLength : ds.length = r.names.length) :
    r.decoder title (.array ds true) = .ok a ↔
      r.Collects (r.names.zip ds) (fun _ => r.tooFew title ds) a := by
  have hEnough : r.names.length ≤ ds.length := Nat.le_of_eq hLength.symm
  have hNames : ((r.names.zip ds).map Prod.fst).Nodup := by
    rwa [List.map_fst_zip hEnough]
  rw [collects_iff hNames, ← forM_eq_ok_iff]
  constructor
  · intro h
    obtain ⟨⟨⟩, hAccepted, h⟩ := bind_eq_ok h
    rw [if_pos (Or.inl hEnough)] at h
    obtain ⟨b, hBuilt, h⟩ := bind_eq_ok h
    rw [if_pos ⟨Nat.le_of_eq hLength, rfl⟩] at h
    cases h
    exact ⟨hAccepted, hBuilt⟩
  · rintro ⟨hAccepted, hBuilt⟩
    refine (bind_of_ok hAccepted).trans ?_
    rw [if_pos (Or.inl hEnough)]
    refine (bind_of_ok hBuilt).trans ?_
    rw [if_pos ⟨Nat.le_of_eq hLength, rfl⟩]
    rfl

end

end Record

end LiteralLint.Json
