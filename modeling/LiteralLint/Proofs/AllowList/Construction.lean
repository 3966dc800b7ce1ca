import LiteralLint.AllowList
import Mathlib.Data.List.Basic
import Mathlib.Data.List.Induction

/-! # Allow-lists from values

An allow-list made from values holds each of them once, where it came first. Each step of the
construction puts a new value behind the others or changes nothing, so that what holds of the values
read so far is carried to the end. -/

set_option autoImplicit false

namespace LiteralLint.AllowList

variable {allow : AllowList} {value added : String} {xs : List String}

theorem contains_iff : allow.contains value = true ↔ value ∈ allow.values :=
  List.contains_iff_mem

theorem insert_of_mem (h : value ∈ allow.values) : allow.insert value = allow :=
  dif_pos h

theorem values_insert_of_not_mem (h : value ∉ allow.values) :
    (allow.insert value).values = allow.values ++ [value] := by
  rw [insert, dif_neg h]

theorem mem_values_insert :
    value ∈ (allow.insert added).values ↔ value ∈ allow.values ∨ value = added := by
  by_cases hThere : added ∈ allow.values
  · rw [insert_of_mem hThere]
    exact ⟨Or.inl, fun h => h.elim id fun hEq => hEq ▸ hThere⟩
  · rw [values_insert_of_not_mem hThere, List.mem_append, List.mem_singleton]

theorem ofList_concat (xs : List String) (value : String) :
    ofList (xs ++ [value]) = (ofList xs).insert value :=
  List.foldl_concat ..

theorem mem_values_ofList : value ∈ (ofList xs).values ↔ value ∈ xs := by
  induction xs using List.reverseRecOn with
  | nil => rfl
  | append_singleton xs last ih =>
    rw [ofList_concat, mem_values_insert, ih, List.mem_append, List.mem_singleton]

theorem pairwise_values_ofList (xs : List String) :
    (ofList xs).values.Pairwise fun v w => xs.idxOf v < xs.idxOf w := by
  induction xs using List.reverseRecOn with
  | nil => exact List.Pairwise.nil
  | append_singleton xs last ih =>
    have hPlace {v : String} (hv : v ∈ (ofList xs).values) :
        (xs ++ [last]).idxOf v = xs.idxOf v :=
      List.idxOf_append_of_mem (mem_values_ofList.mp hv)
    have hFront : (ofList xs).values.Pairwise
        fun v w => (xs ++ [last]).idxOf v < (xs ++ [last]).idxOf w := by
      refine ih.imp_of_mem fun hv hw hLess => ?_
      rwa [hPlace hv, hPlace hw]
    rw [ofList_concat]
    by_cases hThere : last ∈ (ofList xs).values
    · rwa [insert_of_mem hThere]
    · rw [values_insert_of_not_mem hThere, List.pairwise_append]
      refine ⟨hFront, List.pairwise_singleton _ _, ?_⟩
      intro v hv w hw
      obtain rfl := List.mem_singleton.mp hw
      rw [hPlace hv, List.idxOf_append_of_notMem (mt mem_values_ofList.mpr hThere)]
      have hBefore := List.idxOf_lt_length_iff.mpr (mem_values_ofList.mp hv)
      omega

theorem idxOf_lt_idxOf {v w : String}
    (h : (ofList xs).values.idxOf v < (ofList xs).values.idxOf w) : xs.idxOf v < xs.idxOf w := by
  have hv : (ofList xs).values.idxOf v < (ofList xs).values.length :=
    Nat.lt_of_lt_of_le h List.idxOf_le_length
  by_cases hMem : w ∈ xs
  · have hw := List.idxOf_lt_length_iff.mpr (mem_values_ofList.mpr hMem)
    have hOrder := List.pairwise_iff_getElem.mp (pairwise_values_ofList xs) _ _ hv hw h
    rwa [List.getElem_idxOf, List.getElem_idxOf] at hOrder
  · rw [List.idxOf_of_notMem hMem, List.idxOf_lt_length_iff, ← mem_values_ofList]
    exact List.idxOf_lt_length_iff.mp hv

/-- The order of two values is that of their first occurrences, also where one of them or both are
missing, which counts as the end. -/
theorem idxOf_lt_idxOf_iff {v w : String} :
    (ofList xs).values.idxOf v < (ofList xs).values.idxOf w ↔ xs.idxOf v < xs.idxOf w := by
  refine ⟨idxOf_lt_idxOf, fun h => ?_⟩
  have hv : v ∈ xs := List.idxOf_lt_length_iff.mp (Nat.lt_of_lt_of_le h List.idxOf_le_length)
  rcases Nat.lt_trichotomy ((ofList xs).values.idxOf v) ((ofList xs).values.idxOf w) with
    hLess | hEq | hMore
  · exact hLess
  · obtain rfl := (List.idxOf_inj (mem_values_ofList.mpr hv)).mp hEq
    exact absurd h (Nat.lt_irrefl _)
  · exact absurd (idxOf_lt_idxOf hMore) (Nat.lt_asymm h)

theorem values_ofList_of_nodup (h : xs.Nodup) : (ofList xs).values = xs := by
  induction xs using List.reverseRecOn with
  | nil => rfl
  | append_singleton xs last ih =>
    obtain ⟨hFront, -, hApart⟩ := List.nodup_append.mp h
    have hNew : last ∉ (ofList xs).values := by
      rw [mem_values_ofList]
      exact fun hMem => hApart last hMem last (List.mem_singleton_self last) rfl
    rw [ofList_concat, values_insert_of_not_mem hNew, ih hFront]

theorem eq_of_values_eq {other : AllowList} (h : allow.values = other.values) : allow = other := by
  cases allow
  cases other
  cases h
  rfl

theorem ofList_values (allow : AllowList) : ofList allow.values = allow :=
  eq_of_values_eq (values_ofList_of_nodup allow.nodup)

theorem values_ofList_append (xs ys : List String) :
    (ofList (xs ++ ys)).values =
      (ofList xs).values ++ (ofList ys).values.filter fun v => v ∉ xs := by
  induction ys using List.reverseRecOn with
  | nil => simp [ofList, empty]
  | append_singleton ys last ih =>
    rw [← List.append_assoc, ofList_concat, ofList_concat]
    by_cases hThere : last ∈ ys
    · have hBoth : last ∈ (ofList (xs ++ ys)).values :=
        mem_values_ofList.mpr (List.mem_append_right xs hThere)
      rw [insert_of_mem hBoth, insert_of_mem (mem_values_ofList.mpr hThere), ih]
    · rw [values_insert_of_not_mem (mt mem_values_ofList.mp hThere), List.filter_append,
        ← List.append_assoc, ← ih]
      by_cases hFront : last ∈ xs
      · have hBoth : last ∈ (ofList (xs ++ ys)).values :=
          mem_values_ofList.mpr (List.mem_append_left ys hFront)
        simp [insert_of_mem hBoth, hFront]
      · have hNew : last ∉ (ofList (xs ++ ys)).values := by
          rw [mem_values_ofList, List.mem_append]
          exact fun h => h.elim hFront hThere
        simp [values_insert_of_not_mem hNew, hFront]

/-- What an allow-list made from values is: each value once and none besides, in the order of the
first occurrences; made again from its own values it is the same, and what is given later adds the
values that are new. -/
theorem ofList_exact :
    (∀ xs : List String,
      (ofList xs).values.Nodup ∧
      (∀ v, (ofList xs).contains v = true ↔ v ∈ xs) ∧
      (∀ v w, (ofList xs).values.idxOf v < (ofList xs).values.idxOf w ↔
        xs.idxOf v < xs.idxOf w) ∧
      ofList (ofList xs).values = ofList xs) ∧
    ∀ xs ys : List String, (ofList (xs ++ ys)).values =
      (ofList xs).values ++ (ofList ys).values.filter fun v => v ∉ xs := by
  refine ⟨fun xs => ⟨(ofList xs).nodup, ?_, ?_, ofList_values _⟩, values_ofList_append⟩
  · intro v
    rw [contains_iff, mem_values_ofList]
  · intro v w
    exact idxOf_lt_idxOf_iff

end LiteralLint.AllowList
