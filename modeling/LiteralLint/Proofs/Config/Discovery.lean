import LiteralLint.Proofs.Config.Boundary
import Mathlib.Data.List.Nodup
import Mathlib.Data.List.Perm.Subperm

/-! # What a search finds

The directories that a search visits follow from the parents and the marker alone. From the first of
them with any configuration file the search takes all of those, and nothing from the others. Every
parent has fewer components, so that the way up ends. -/

set_option autoImplicit false

namespace LiteralLint.Config

def IsMarked (s : Surroundings) (marker : Option String) (directory : String) : Prop :=
  ∃ name ∈ marker, s.exists? (Path.join directory name) = true

/-- The directories that a search visits above one of them: its parent, the parent of that, and so
on, up to and with the first that is marked, else up to the last. -/
inductive Ascent (s : Surroundings) (marker : Option String) : String → List String → Prop where
  | top {path : String} : Path.parent? path = none → Ascent s marker path []
  | marked {path parent : String} :
      Path.parent? path = some parent → IsMarked s marker parent → Ascent s marker path [parent]
  | unmarked {path parent : String} {above : List String} :
      Path.parent? path = some parent → ¬ IsMarked s marker parent →
      Ascent s marker parent above → Ascent s marker path (parent :: above)

def IsRegularFile (s : Surroundings) (path : String) : Prop :=
  ∃ content, s.tree.find s.directory path = .ok (.file content)

/-- The configuration files of a directory: all regular files with one of the names, in the order of
the names. -/
structure Offers (s : Surroundings) (directory : String) (files : List String) : Prop where
  ordered : files.Sublist (projectFileNames.map (Path.join directory))
  mem_iff : ∀ name ∈ projectFileNames,
    Path.join directory name ∈ files ↔ IsRegularFile s (Path.join directory name)

/-- The configuration files of the first of some directories that has any. -/
inductive Finds (s : Surroundings) (directories : List String) : List String → Prop where
  | first {before after files : List String} {directory : String} :
      directories = before ++ directory :: after → (∀ earlier ∈ before, Offers s earlier []) →
      Offers s directory files → files ≠ [] → Finds s directories files
  | nothing : (∀ directory ∈ directories, Offers s directory []) → Finds s directories []

variable {s : Surroundings} {marker : Option String} {start directory path parent : String}
  {directories above others files : List String} {fuel : Nat}

theorem Ascent.unique (h : Ascent s marker path above) (hOther : Ascent s marker path others) :
    others = above := by
  induction h generalizing others with
  | top hTop =>
    cases hOther with
    | top => rfl
    | marked hParent _ | unmarked hParent _ _ =>
      rw [hTop] at hParent
      cases hParent
  | marked hParent hMarked =>
    cases hOther with
    | top hTop =>
      rw [hTop] at hParent
      cases hParent
    | marked hSame _ => rw [Option.some.inj (hParent.symm.trans hSame)]
    | unmarked hSame hUnmarked _ =>
      rw [Option.some.inj (hParent.symm.trans hSame)] at hMarked
      exact absurd hMarked hUnmarked
  | unmarked hParent hUnmarked _ ih =>
    cases hOther with
    | top hTop =>
      rw [hTop] at hParent
      cases hParent
    | marked hSame hMarked =>
      rw [Option.some.inj (hParent.symm.trans hSame)] at hUnmarked
      exact absurd hMarked hUnmarked
    | unmarked hSame _ hAbove =>
      obtain rfl := Option.some.inj (hParent.symm.trans hSame)
      rw [ih hAbove]

theorem eq_filter_of_sublist {names : List String} {p : String → Bool} (hNodup : names.Nodup)
    (hSublist : files.Sublist names) (hMem : ∀ name ∈ names, name ∈ files ↔ p name = true) :
    files = names.filter p := by
  have hSelf : files.filter p = files :=
    List.filter_eq_self.mpr fun name hName => (hMem name (hSublist.subset hName)).mp hName
  have hPart : files.Sublist (names.filter p) := hSelf ▸ hSublist.filter p
  have hWhole : names.filter p ⊆ files := fun name hName =>
    (hMem name (List.mem_of_mem_filter hName)).mpr (List.of_mem_filter hName)
  exact hPart.eq_of_length_le (List.Nodup.subperm (hNodup.filter p) hWhole).length_le

theorem isAbsolute_of_mem_projectFileNames :
    ∀ name ∈ projectFileNames, Path.isAbsolute name = false := by
  decide +kernel

theorem join_injective {a b : String} (hA : Path.isAbsolute a = false)
    (hB : Path.isAbsolute b = false) (h : Path.join directory a = Path.join directory b) :
    a = b := by
  simp only [Path.join, hA, hB, Bool.false_eq_true, false_or] at h
  split at h
  · exact h
  · split at h <;> exact (String.append_right_inj _).mp h

theorem nodup_map_join (directory : String) :
    (projectFileNames.map (Path.join directory)).Nodup := by
  refine List.Nodup.map_on (fun a hA b hB h => ?_) (by decide +kernel)
  exact join_injective (isAbsolute_of_mem_projectFileNames a hA)
    (isAbsolute_of_mem_projectFileNames b hB) h

theorem isFile_iff : s.isFile path = true ↔ IsRegularFile s path := by
  rw [Surroundings.isFile, FileTree.isFile, IsRegularFile]
  split
  · rename_i content hFind
    simp [hFind]
  · rename_i hOther
    simp only [Bool.false_eq_true, false_iff, not_exists]
    exact hOther

theorem offers_iff : Offers s directory files ↔ files = projectFilesIn s directory := by
  constructor
  · intro h
    refine eq_filter_of_sublist (nodup_map_join directory) h.ordered fun path hPath => ?_
    obtain ⟨name, hName, rfl⟩ := List.mem_map.mp hPath
    rw [h.mem_iff name hName, isFile_iff]
  · rintro rfl
    refine ⟨List.filter_sublist, fun name hName => ?_⟩
    rw [projectFilesIn, List.mem_filter, isFile_iff]
    exact and_iff_right (List.mem_map_of_mem hName)

theorem finds_nil_iff : Finds s [] files ↔ files = [] := by
  constructor
  · intro h
    cases h with
    | first hEq => simp at hEq
    | nothing => rfl
  · rintro rfl
    exact .nothing (List.forall_mem_nil _)

theorem finds_cons_of_eq_nil (hHere : projectFilesIn s directory = []) :
    Finds s (directory :: directories) files ↔ Finds s directories files := by
  constructor
  · intro h
    cases h with
    | @first before after files place hEq hBefore hOffers hSome =>
      cases before with
      | nil =>
        obtain ⟨rfl, -⟩ := List.cons.inj hEq
        exact absurd ((offers_iff.mp hOffers).trans hHere) hSome
      | cons earlier before =>
        obtain ⟨rfl, rfl⟩ := List.cons.inj hEq
        exact .first rfl (List.forall_mem_cons.mp hBefore).2 hOffers hSome
    | nothing hNone => exact .nothing (List.forall_mem_cons.mp hNone).2
  · have hOffers : Offers s directory [] := offers_iff.mpr hHere.symm
    intro h
    cases h with
    | first hEq hBefore hFound hSome =>
      rw [hEq]
      exact .first (List.cons_append ..).symm (List.forall_mem_cons.mpr ⟨hOffers, hBefore⟩)
        hFound hSome
    | nothing hNone => exact .nothing (List.forall_mem_cons.mpr ⟨hOffers, hNone⟩)

theorem finds_cons_of_ne_nil (hHere : projectFilesIn s directory ≠ []) :
    Finds s (directory :: directories) files ↔ files = projectFilesIn s directory := by
  constructor
  · intro h
    cases h with
    | @first before after files place hEq hBefore hOffers hSome =>
      cases before with
      | nil =>
        obtain ⟨rfl, -⟩ := List.cons.inj hEq
        exact offers_iff.mp hOffers
      | cons earlier before =>
        obtain ⟨rfl, -⟩ := List.cons.inj hEq
        exact absurd (offers_iff.mp (hBefore _ List.mem_cons_self)).symm hHere
    | nothing hNone => exact absurd (offers_iff.mp (hNone _ List.mem_cons_self)).symm hHere
  · rintro rfl
    exact .first (List.nil_append _).symm (List.forall_mem_nil _) (offers_iff.mpr rfl) hHere

theorem finds_cons_iff : Finds s (directory :: directories) files ↔
    if projectFilesIn s directory = [] then Finds s directories files
    else files = projectFilesIn s directory := by
  split
  · exact finds_cons_of_eq_nil ‹_›
  · exact finds_cons_of_ne_nil ‹_›

theorem Finds.unique (h : Finds s directories files) (hOther : Finds s directories others) :
    others = files := by
  induction directories with
  | nil => rw [finds_nil_iff.mp h, finds_nil_iff.mp hOther]
  | cons directory directories ih =>
    rw [finds_cons_iff] at h hOther
    split at h
    · rename_i hHere
      rw [if_pos hHere] at hOther
      exact ih h hOther
    · rename_i hHere
      rw [if_neg hHere] at hOther
      rw [h, hOther]

theorem finds_singleton (s : Surroundings) (directory : String) :
    Finds s [directory] (projectFilesIn s directory) := by
  rw [finds_cons_iff]
  split
  · rename_i hHere
    exact finds_nil_iff.mpr hHere
  · rfl

theorem exists_ancestorsFrom_eq_cons (fuel : Nat) (path : String) :
    ∃ rest, ancestorsFrom fuel path = path :: rest := by
  cases fuel with
  | zero => exact ⟨[], rfl⟩
  | succ fuel =>
    rw [ancestorsFrom]
    split
    · exact ⟨_, rfl⟩
    · exact ⟨[], rfl⟩

theorem ancestorsFrom_of_top (h : Path.parent? path = none) (fuel : Nat) :
    ancestorsFrom fuel path = [path] := by
  cases fuel with
  | zero => rfl
  | succ fuel => rw [ancestorsFrom, h]

theorem ancestorsFrom_of_parent (h : Path.parent? path = some parent)
    (hFuel : (Path.components path).length ≤ fuel) :
    ∃ less, ancestorsFrom fuel path = path :: ancestorsFrom less parent ∧
      (Path.components parent).length ≤ less := by
  have hLess := length_components_parent_lt h
  cases fuel with
  | zero => omega
  | succ fuel => exact ⟨fuel, by rw [ancestorsFrom, h], by omega⟩

theorem isBoundary_iff (h : Path.same directory start = false) :
    isBoundary s marker start directory = true ↔ IsMarked s marker directory := by
  cases marker <;> simp [isBoundary, IsMarked, h]

theorem searchProject_cons (h : isBoundary s marker start directory = false) :
    searchProject s marker start (directory :: directories) =
      if projectFilesIn s directory = [] then searchProject s marker start directories
      else projectFilesIn s directory := by
  rw [searchProject, h]
  split
  · rename_i hNone
    rw [if_pos hNone, if_neg Bool.false_ne_true]
  · rename_i hSome
    rw [if_neg hSome]

theorem searchProject_cons_of_boundary (h : isBoundary s marker start directory = true) :
    searchProject s marker start (directory :: directories) = projectFilesIn s directory := by
  rw [searchProject, h]
  split
  · rename_i hNone
    rw [hNone, if_pos rfl]
  · rfl

theorem exists_ascent_finds (hFuel : (Path.components path).length ≤ fuel)
    (hBelow : (Path.components path).length ≤ (Path.components start).length)
    (hPasses : isBoundary s marker start path = false) :
    ∃ above, Ascent s marker path above ∧
      Finds s (path :: above) (searchProject s marker start (ancestorsFrom fuel path)) := by
  induction hLength : (Path.components path).length using Nat.strongRecOn
    generalizing path fuel with
  | ind length ih =>
  cases hParent : Path.parent? path with
  | none =>
    refine ⟨[], .top hParent, ?_⟩
    rw [ancestorsFrom_of_top hParent, searchProject_cons hPasses, finds_cons_iff]
    split
    · exact finds_nil_iff.mpr rfl
    · rfl
  | some parent =>
    have hLess := length_components_parent_lt hParent
    obtain ⟨less, hAncestors, hEnough⟩ := ancestorsFrom_of_parent hParent hFuel
    have hOther : Path.same parent start = false := by
      rw [Path.same, beq_eq_false_iff_ne]
      intro hEq
      rw [hEq] at hLess
      omega
    rw [hAncestors, searchProject_cons hPasses]
    by_cases hMarked : IsMarked s marker parent
    · refine ⟨[parent], .marked hParent hMarked, ?_⟩
      obtain ⟨rest, hRest⟩ := exists_ancestorsFrom_eq_cons less parent
      rw [hRest, searchProject_cons_of_boundary ((isBoundary_iff hOther).mpr hMarked),
        finds_cons_iff]
      split
      · exact finds_singleton s parent
      · rfl
    · have hNotBoundary : isBoundary s marker start parent = false :=
        Bool.eq_false_iff.mpr fun hBoundary => hMarked ((isBoundary_iff hOther).mp hBoundary)
      obtain ⟨above, hAscent, hFinds⟩ :=
        ih _ (hLength ▸ hLess) hEnough (by omega) hNotBoundary rfl
      refine ⟨parent :: above, .unmarked hParent hMarked hAscent, ?_⟩
      rw [finds_cons_iff]
      split
      · exact hFinds
      · rfl

theorem isBoundary_start (s : Surroundings) (marker : Option String) (start : String) :
    isBoundary s marker start start = false := by
  cases marker <;> simp [isBoundary, Path.same]

/-- What a search finds, whatever the tree, the start and the marker. -/
theorem findProjectFiles_exact (s : Surroundings) (marker : Option String) (start : String) :
    projectFileNames =
      [".format-lint.toml", ".format-lint.yaml", ".format-lint.yml", ".format-lint.json",
        "format-lint.toml", "format-lint.yaml", "format-lint.yml", "format-lint.json"] ∧
    (∃ above, (∀ others, Ascent s marker start others ↔ others = above) ∧
      ∀ files, Finds s (start :: above) files ↔ files = findProjectFiles s marker start) ∧
    ∀ path, s.tree.find s.directory path = .ok .directory →
      path ∉ findProjectFiles s marker start := by
  obtain ⟨above, hAscent, hFinds⟩ := exists_ascent_finds (Path.length_components_le start)
    (Nat.le_refl _) (isBoundary_start s marker start)
  refine ⟨by decide +kernel, ⟨above, fun others => ?_, fun files => ?_⟩, fun path hPath hMem => ?_⟩
  · exact ⟨hAscent.unique, fun hEq => hEq ▸ hAscent⟩
  · exact ⟨hFinds.unique, fun hEq => hEq ▸ hFinds⟩
  · obtain ⟨content, hFile⟩ := isFile_iff.mp (isFile_of_mem_findProjectFiles hMem)
    rw [hPath] at hFile
    cases hFile

end LiteralLint.Config
