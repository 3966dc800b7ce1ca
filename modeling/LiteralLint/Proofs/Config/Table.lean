import LiteralLint.Config.Value
import Mathlib.Data.List.Induction
import Mathlib.Data.String.Basic

/-! # Entries of tables

What stands under a key after an entry is put into a table and after two tables are merged. The keys
of a table increase, so that each has one entry. -/

set_option autoImplicit false

namespace LiteralLint.Config

def Value.IsTable : Value → Prop
  | .table _ => True
  | _ => False

instance : DecidablePred Value.IsTable
  | .table _ => isTrue trivial
  | .unit | .bool _ | .text _ | .character _ | .signed _ | .unsigned _ | .wide _ | .real _
  | .list _ => isFalse id

theorem Value.merge_eq_of_not_isTable {older newer : Value} (h : ¬ newer.IsTable) :
    older.merge newer = newer := by
  cases newer with
  | table entries => exact absurd trivial h
  | _ => simp only [Value.merge]

namespace Table

variable {t older newer : Table} {key other : String} {value v : Value}

theorem lookup_cons (key other : String) (value : Value) (t : Table) :
    List.lookup key ((other, value) :: t) =
      if key = other then some value else List.lookup key t := by
  by_cases h : key = other
  · subst h
    rw [List.lookup_cons_self, if_pos rfl]
  · rw [List.lookup_cons, beq_false_of_ne h, if_neg h]

def Sorted (t : Table) : Prop := t.Pairwise fun a b => a.1 < b.1

theorem lookup_eq_none_of_lt (h : ∀ entry ∈ t, key < entry.1) : List.lookup key t = none := by
  rw [List.lookup_eq_none_iff]
  exact fun entry hEntry => bne_iff_ne.mpr (h entry hEntry).ne

theorem lookup_put (key other : String) (value : Value) (t : Table) :
    List.lookup other (t.put key value) =
      if other = key then some value else List.lookup other t := by
  induction t with
  | nil => rw [put, lookup_cons]
  | cons entry t ih =>
    obtain ⟨k, v⟩ := entry
    rw [put]
    split
    · rw [lookup_cons]
    · split
      · rename_i hEq
        subst hEq
        rw [lookup_cons, lookup_cons]
        split <;> rfl
      · rename_i hNe
        rw [lookup_cons, ih, lookup_cons]
        by_cases hOther : other = k
        · subst hOther
          simp [Ne.symm hNe]
        · simp [hOther]

theorem mem_put {entry : String × Value} (h : entry ∈ t.put key value) :
    entry.1 = key ∨ entry ∈ t := by
  induction t with
  | nil =>
    left
    rw [List.mem_singleton.mp h]
  | cons first t ih =>
    rw [put] at h
    split at h
    · rcases List.mem_cons.mp h with rfl | hMem
      · exact Or.inl rfl
      · exact Or.inr hMem
    · split at h
      · rcases List.mem_cons.mp h with rfl | hMem
        · exact Or.inl rfl
        · exact Or.inr (List.mem_cons_of_mem first hMem)
      · rcases List.mem_cons.mp h with rfl | hMem
        · exact Or.inr List.mem_cons_self
        · exact (ih hMem).imp_right (List.mem_cons_of_mem first)

theorem Sorted.put (h : t.Sorted) (key : String) (value : Value) : (t.put key value).Sorted := by
  induction t with
  | nil => exact List.pairwise_singleton _ _
  | cons first t ih =>
    obtain ⟨hFirst, hTail⟩ := List.pairwise_cons.mp h
    rw [Table.put]
    split
    · rename_i hLess
      refine List.pairwise_cons.mpr ⟨fun entry hEntry => ?_, h⟩
      rcases List.mem_cons.mp hEntry with rfl | hEntry
      · exact hLess
      · exact lt_trans hLess (hFirst entry hEntry)
    · rename_i hNotLess
      split
      · rename_i hEq
        subst hEq
        exact List.pairwise_cons.mpr ⟨hFirst, hTail⟩
      · rename_i hNe
        refine List.pairwise_cons.mpr ⟨fun entry hEntry => ?_, ih hTail⟩
        rcases mem_put hEntry with hKey | hMem
        · rw [hKey]
          exact lt_of_le_of_ne (not_lt.mp hNotLess) (Ne.symm hNe)
        · exact hFirst entry hMem

theorem sorted_nil : Sorted [] := List.Pairwise.nil

theorem sorted_ofList (entries : List (String × Value)) : (ofList entries).Sorted := by
  induction entries using List.reverseRecOn with
  | nil => exact sorted_nil
  | append_singleton entries entry ih =>
    rw [ofList, List.foldl_append]
    exact ih.put _ _

theorem Sorted.merge (h : older.Sorted) (newer : List (String × Value)) :
    (older.merge newer).Sorted := by
  induction newer generalizing older with
  | nil =>
    rw [Table.merge]
    exact h
  | cons entry newer ih =>
    obtain ⟨key, value⟩ := entry
    rw [Table.merge]
    exact ih (h.put _ _)

theorem lookup_merge_of_none (h : List.lookup key newer = none) :
    List.lookup key (older.merge newer) = List.lookup key older := by
  induction newer generalizing older with
  | nil => rw [merge]
  | cons entry newer ih =>
    obtain ⟨k, v⟩ := entry
    rw [lookup_cons] at h
    split at h
    · cases h
    · rename_i hNe
      rw [merge, ih h, lookup_put, if_neg hNe]

theorem lookup_merge_of_some (hSorted : newer.Sorted) (h : List.lookup key newer = some value) :
    List.lookup key (older.merge newer) =
      some ((List.lookup key older).elim value fun old => old.merge value) := by
  induction newer generalizing older with
  | nil => cases h
  | cons entry newer ih =>
    obtain ⟨k, v⟩ := entry
    obtain ⟨hFirst, hTail⟩ := List.pairwise_cons.mp hSorted
    rw [lookup_cons] at h
    split at h
    · rename_i hEq
      cases h
      subst hEq
      rw [merge, lookup_merge_of_none (lookup_eq_none_of_lt hFirst), lookup_put, if_pos rfl]
      cases List.lookup key older <;> rfl
    · rename_i hNe
      rw [merge, ih hTail h, lookup_put, if_neg hNe]

theorem lookup_merge_of_not_isTable (hSorted : newer.Sorted)
    (h : List.lookup key newer = some value) (hPlain : ¬ value.IsTable) :
    List.lookup key (older.merge newer) = some value := by
  rw [lookup_merge_of_some hSorted h]
  cases List.lookup key older with
  | none => rfl
  | some old => exact congrArg some (Value.merge_eq_of_not_isTable hPlain)

end Table

end LiteralLint.Config
