import LiteralLint.Config.File
import LiteralLint.Proofs.Config.Table
import Mathlib.Data.Option.Basic

/-! # The tables of configuration files

Whatever the format of a file, the keys of the table that is read from it increase. -/

set_option autoImplicit false

namespace LiteralLint

open Config (Table Value)

theorem Toml.sorted_of_read? {text : String} {t : Table} (h : Toml.read? text = some t) :
    t.Sorted := by
  simp only [Toml.read?, Toml.tableOf?, Option.bind_eq_bind, Option.bind_eq_some_iff,
    Option.pure_def, Option.some.injEq] at h
  obtain ⟨_, _, _, _, rfl⟩ := h
  exact Table.sorted_ofList _

namespace Yaml

def Composed.IsSorted (node : Composed) : Prop :=
  node.text = none → ∀ entries, node.content = .table entries → Table.Sorted entries

theorem isSorted_sequenceNode (tag : Option String) (items : List Composed) :
    (sequenceNode tag items).IsSorted := by
  intro _ entries hContent
  cases hContent

theorem isSorted_of_mappingNode? {tag : Option String} {entries : List (Composed × Composed)}
    {node : Composed} (h : mappingNode? tag entries = some node) : node.IsSorted := by
  simp only [mappingNode?, Option.bind_eq_bind, Option.bind_eq_some_iff, Option.pure_def,
    Option.some.injEq] at h
  obtain ⟨pairs, _, rfl⟩ := h
  intro _ entries hContent
  cases hContent
  exact Table.sorted_ofList pairs

theorem isSorted_of_scalarNode? {tag : Option String} {text : String} {plain : Bool}
    {node : Composed} (h : scalarNode? tag text plain = some node) : node.IsSorted := by
  simp only [scalarNode?, Option.bind_eq_bind, Option.bind_eq_some_iff, Option.pure_def,
    Option.some.injEq] at h
  obtain ⟨_, _, rfl⟩ := h
  intro hText
  cases hText

theorem isSorted_emptyNode : emptyNode.IsSorted := fun hText => nomatch hText

theorem isSorted_of_readNode {handles : Handles} {block indentless : Bool} {fuel : Nat}
    {ts : List Token} {result : Composed × Anchors × List Token}
    (h : readNode handles block indentless fuel {} ts = some result) : result.1.IsSorted := by
  unfold readNode at h
  split at h
  · cases h
  · simp [Anchors.get?] at h
  · simp only [Option.bind_eq_bind, Option.pure_def, Option.bind_some, Option.bind_none,
      Option.bind_eq_some_iff] at h
    obtain ⟨tag, -, h⟩ := h
    repeat' split at h
    all_goals
      simp only [Option.bind_eq_some_iff, Option.some.injEq, reduceCtorEq] at h
    all_goals
      grind only [isSorted_sequenceNode, isSorted_of_mappingNode?, isSorted_of_scalarNode?]

theorem isSorted_of_readOptional {handles : Handles} {block indentless : Bool}
    {ends ts : List Token} {fuel : Nat} {result : Composed × Anchors × List Token}
    (h : readOptional handles block indentless ends fuel {} ts = some result) :
    result.1.IsSorted := by
  cases fuel with
  | zero => cases h
  | succ fuel =>
    rw [readOptional] at h
    split at h
    · cases h
      exact isSorted_emptyNode
    · exact isSorted_of_readNode h

theorem isSorted_of_compose? {ts : List Token} {node : Composed}
    (h : compose? ts = some (some node)) : node.IsSorted := by
  simp only [compose?, Option.bind_eq_bind, Option.pure_def, Option.bind_some,
    Option.bind_none] at h
  split at h
  · cases h
  · simp only [Option.bind_eq_some_iff] at h
    obtain ⟨⟨handles, content⟩, -, h⟩ := h
    repeat' split at h
    all_goals simp only [Option.bind_eq_some_iff, Option.some.injEq, reduceCtorEq] at h
    all_goals grind only [isSorted_emptyNode, → isSorted_of_readOptional, → isSorted_of_readNode]

theorem sorted_of_read? {text : String} {t : Table} (h : Yaml.read? text = some t) :
    t.Sorted := by
  simp only [read?, Option.bind_eq_bind, Option.bind_eq_some_iff] at h
  obtain ⟨tokens, -, composed, hComposed, h⟩ := h
  split at h
  · cases h
    exact Table.sorted_nil
  · rename_i node
    split at h
    · rename_i hText hContent
      cases h
      exact isSorted_of_compose? hComposed hText _ hContent
    · simp only [Option.bind_eq_some_iff, Option.pure_def, Option.some.injEq] at h
      obtain ⟨-, -, rfl⟩ := h
      exact Table.sorted_nil
    · cases h

end Yaml

namespace Config

theorem Value.sorted_of_ofJson? {depth : Nat} {draft : Json.Draft} {t : Table}
    (h : Value.ofJson? depth draft = some (.table t)) : t.Sorted := by
  cases draft with
  | object members closed =>
    rw [Value.ofJson?] at h
    split at h
    · obtain ⟨entries, -, hEntries⟩ := Option.map_eq_some_iff.mp h
      cases hEntries
      exact Table.sorted_ofList entries
    · cases h
  | array items closed =>
    rw [Value.ofJson?] at h
    split at h
    · obtain ⟨items, -, hItems⟩ := Option.map_eq_some_iff.mp h
      cases hItems
    · cases h
  | number numeral =>
    rw [Value.ofJson?] at h
    split at h <;> cases h
  | string s =>
    rw [Value.ofJson?] at h
    cases s <;> cases h
  | _ =>
    rw [Value.ofJson?] at h
    cases h

theorem sorted_of_readJson? {text : String} {t : Table} (h : readJson? text = some t) :
    t.Sorted := by
  simp only [readJson?, Option.bind_eq_bind, Option.bind_eq_some_iff] at h
  obtain ⟨-, -, value, hValue, h⟩ := h
  split at h
  · cases h
    exact Value.sorted_of_ofJson? hValue
  · cases h

theorem FileFormat.sorted_of_read? {format : FileFormat} {text : String} {t : Table}
    (h : format.read? text = some t) : t.Sorted := by
  cases format with
  | toml => exact Toml.sorted_of_read? h
  | yaml => exact Yaml.sorted_of_read? h
  | json => exact sorted_of_readJson? h

end Config

end LiteralLint
