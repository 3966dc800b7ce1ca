import LiteralLint.Config.Load
import LiteralLint.Proofs.Config.Reading

/-! # Layers of settings

What stands under a key after all layers are merged: what the last layer with that key says, as long
as no layer has a table there. The environment is a layer of its own, in which every variable says
something about one key. -/

set_option autoImplicit false

namespace LiteralLint.Config

section

variable {α β : Type} {f : α → Option β} {xs : List α} {b : β}

theorem findSome?_reverse_eq_some_iff :
    xs.reverse.findSome? f = some b ↔
      ∃ before a after, xs = before ++ a :: after ∧ f a = some b ∧ ∀ x ∈ after, f x = none := by
  rw [List.findSome?_eq_some_iff]
  constructor
  · rintro ⟨after, a, before, hReverse, hFound, hAfter⟩
    refine ⟨before.reverse, a, after.reverse, ?_, hFound,
      fun x hx => hAfter x (List.mem_reverse.mp hx)⟩
    rw [← List.reverse_reverse xs, hReverse, List.reverse_append, List.reverse_cons,
      List.append_assoc, List.singleton_append]
  · rintro ⟨before, a, after, rfl, hFound, hAfter⟩
    refine ⟨after.reverse, a, before.reverse, ?_, hFound,
      fun x hx => hAfter x (List.mem_reverse.mp hx)⟩
    rw [List.reverse_append, List.reverse_cons, List.append_assoc, List.singleton_append]

theorem findSome?_reverse_eq_none_iff : xs.reverse.findSome? f = none ↔ ∀ x ∈ xs, f x = none := by
  rw [List.findSome?_eq_none_iff]
  simp only [List.mem_reverse]

end

namespace Table

variable {tables : List Table} {key : String}

/-- Several tables as one; later ones weigh more. -/
def mergeAll (tables : List Table) : Table := tables.foldl Table.merge []

theorem mergeAll_concat (tables : List Table) (t : Table) :
    mergeAll (tables ++ [t]) = (mergeAll tables).merge t :=
  List.foldl_concat Table.merge [] t tables

theorem sorted_mergeAll (tables : List Table) : (mergeAll tables).Sorted := by
  induction tables using List.reverseRecOn with
  | nil => exact sorted_nil
  | append_singleton tables t ih =>
    rw [mergeAll_concat]
    exact ih.merge t

theorem lookup_mergeAll (hSorted : ∀ t ∈ tables, t.Sorted)
    (hPlain : ∀ t ∈ tables, ∀ value, List.lookup key t = some value → ¬ value.IsTable) :
    List.lookup key (mergeAll tables) = tables.reverse.findSome? (List.lookup key) := by
  induction tables using List.reverseRecOn with
  | nil => rfl
  | append_singleton tables t ih =>
    have hLast : t ∈ tables ++ [t] := by simp
    have ih := ih (fun u hu => hSorted u (List.mem_append_left _ hu))
      (fun u hu => hPlain u (List.mem_append_left _ hu))
    rw [mergeAll_concat, List.reverse_concat, List.findSome?_cons]
    cases hLookup : List.lookup key t with
    | none => rw [lookup_merge_of_none hLookup, ih]
    | some value =>
      rw [lookup_merge_of_not_isTable (hSorted t hLast) hLookup (hPlain t hLast value hLookup)]

end Table

namespace Environment

variable {entries : List (String × String)} {entry : String × String} {key : String}

def keyOf? (name : String) : Option String := (keys? name).bind List.head?

def entryTable (entry : String × String) : Table :=
  match keys? entry.1 with
  | some (key :: keys) => [(key, nest (value entry.2) keys)]
  | _ => []

theorem table_eq_mergeAll (entries : List (String × String)) :
    table entries = Table.mergeAll (entries.map entryTable) := by
  rw [table, Table.mergeAll, List.foldl_map]
  congr 1
  funext t entry
  rcases hKeys : keys? entry.1 with _ | (_ | ⟨key, keys⟩)
  all_goals simp only [entryTable, hKeys, Table.merge]

theorem sorted_table (entries : List (String × String)) : (table entries).Sorted := by
  rw [table_eq_mergeAll]
  exact Table.sorted_mergeAll _

theorem table_concat (entries : List (String × String)) (entry : String × String) :
    table (entries ++ [entry]) = (table entries).merge (entryTable entry) := by
  rw [table_eq_mergeAll, List.map_append, List.map_singleton, Table.mergeAll_concat,
    ← table_eq_mergeAll]

theorem sorted_entryTable (entry : String × String) : (entryTable entry).Sorted := by
  rw [entryTable]
  split
  · exact List.pairwise_singleton _ _
  · exact Table.sorted_nil

theorem lookup_entryTable_of_ne (h : keyOf? entry.1 ≠ some key) :
    List.lookup key (entryTable entry) = none := by
  rw [entryTable]
  split
  · rename_i first keys hKeys
    rw [keyOf?, hKeys] at h
    rw [Table.lookup_cons, if_neg fun hEq => h (congrArg some hEq.symm), List.lookup_nil]
  · exact List.lookup_nil

def ofKey (entries : List (String × String)) (key : String) : List (String × String) :=
  entries.filter fun entry => keyOf? entry.1 = some key

theorem mem_ofKey : entry ∈ ofKey entries key ↔ entry ∈ entries ∧ keyOf? entry.1 = some key := by
  simp [ofKey]

theorem lookup_table_of_ofKey_eq_nil (h : ofKey entries key = []) :
    List.lookup key (table entries) = none := by
  induction entries using List.reverseRecOn with
  | nil => rfl
  | append_singleton entries entry ih =>
    rw [ofKey, List.filter_append, List.append_eq_nil_iff] at h
    have hEntry : keyOf? entry.1 ≠ some key := by simpa [List.filter_eq_nil_iff] using h.2
    rw [table_concat, Table.lookup_merge_of_none (lookup_entryTable_of_ne hEntry)]
    exact ih h.1

theorem lookup_table_of_ofKey_eq_singleton (h : ofKey entries key = [entry]) :
    List.lookup key (table entries) = List.lookup key (entryTable entry) := by
  induction entries using List.reverseRecOn with
  | nil => cases h
  | append_singleton entries last ih =>
    rw [ofKey, List.filter_append, List.filter_singleton] at h
    rw [table_concat]
    by_cases hLast : keyOf? last.1 = some key
    · rw [decide_eq_true hLast] at h
      obtain ⟨hNone, hEq⟩ := List.append_inj' (h.trans (List.nil_append [entry]).symm) rfl
      obtain rfl : last = entry := List.singleton_inj.mp hEq
      have hUnset : List.lookup key (table entries) = none := lookup_table_of_ofKey_eq_nil hNone
      cases hEntry : List.lookup key (entryTable last) with
      | none => rw [Table.lookup_merge_of_none hEntry, hUnset]
      | some value => rw [Table.lookup_merge_of_some (sorted_entryTable last) hEntry, hUnset]; rfl
    · rw [decide_eq_false hLast] at h
      rw [Table.lookup_merge_of_none (lookup_entryTable_of_ne hLast)]
      exact ih ((List.append_nil _).symm.trans h)

end Environment

end LiteralLint.Config
