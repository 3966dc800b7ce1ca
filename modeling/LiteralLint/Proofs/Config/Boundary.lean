import LiteralLint.Config.Discovery
import LiteralLint.Proofs.Path.Parent

/-! # The boundary of a search

Directories are counted upwards: place 0 is the one where the search begins. No file is taken from
beyond a directory above the beginning that holds the marker. A marker at the beginning itself is
passed over, so that the search may leave it. -/

set_option autoImplicit false

namespace LiteralLint.Config

variable {s : Surroundings} {marker : Option String} {start directory file : String}
  {directories : List String} {place : Nat}

theorem length_components_parent_lt {path parent : String} (h : Path.parent? path = some parent) :
    (Path.components parent).length < (Path.components path).length := by
  obtain ⟨hNotEmpty, hParent⟩ := Path.components_parent h
  rw [hParent, List.length_dropLast]
  exact Nat.pred_lt (List.length_pos_iff.mpr hNotEmpty).ne'

theorem length_components_of_ancestorsFrom {fuel : Nat} {path : String}
    (h : (ancestorsFrom fuel path)[place + 1]? = some directory) :
    (Path.components directory).length < (Path.components path).length := by
  induction fuel generalizing path place with
  | zero => cases h
  | succ fuel ih =>
    rw [ancestorsFrom] at h
    split at h
    · rename_i parent hParent
      have hParentLess := length_components_parent_lt hParent
      rw [List.getElem?_cons_succ] at h
      cases place with
      | zero =>
        cases fuel <;> rw [ancestorsFrom] at h
        · cases h
          exact hParentLess
        · split at h <;> cases h <;> exact hParentLess
      | succ place => exact Nat.lt_trans (ih h) hParentLess
    · cases h

theorem ancestors_zero (start : String) : (ancestors start)[0]? = some start := by
  rw [ancestors]
  cases start.length with
  | zero => rfl
  | succ fuel =>
    rw [ancestorsFrom]
    split <;> rfl

theorem same_eq_false_of_above (hAbove : 0 < place)
    (h : (ancestors start)[place]? = some directory) : Path.same directory start = false := by
  obtain ⟨place, rfl⟩ := Nat.exists_eq_succ_of_ne_zero hAbove.ne'
  have hLess := length_components_of_ancestorsFrom h
  rw [Path.same, beq_eq_false_iff_ne]
  intro hEq
  rw [hEq] at hLess
  exact Nat.lt_irrefl _ hLess

theorem mem_projectFilesIn_iff : file ∈ projectFilesIn s directory ↔
    (∃ name ∈ projectFileNames, file = Path.join directory name) ∧ s.isFile file = true := by
  simp only [projectFilesIn, List.mem_filter, List.mem_map, eq_comm]

theorem exists_of_mem_searchProject (h : file ∈ searchProject s marker start directories) :
    ∃ directory ∈ directories, file ∈ projectFilesIn s directory := by
  induction directories with
  | nil => cases h
  | cons first directories ih =>
    rw [searchProject] at h
    split at h
    · split at h
      · cases h
      · obtain ⟨directory, hMem, hFile⟩ := ih h
        exact ⟨directory, List.mem_cons_of_mem first hMem, hFile⟩
    · exact ⟨first, List.mem_cons_self, h⟩

theorem exists_of_mem_searchProject_of_boundary (hPlace : directories[place]? = some directory)
    (hBoundary : isBoundary s marker start directory = true)
    (h : file ∈ searchProject s marker start directories) :
    ∃ i source, i ≤ place ∧ directories[i]? = some source ∧ file ∈ projectFilesIn s source := by
  induction directories generalizing place with
  | nil => cases h
  | cons first directories ih =>
    rw [searchProject] at h
    split at h
    · split at h
      · cases h
      · rename_i hNotHere
        cases place with
        | zero =>
          cases hPlace
          exact absurd hBoundary hNotHere
        | succ place =>
          obtain ⟨i, source, hLe, hSource, hFile⟩ := ih hPlace h
          exact ⟨i + 1, source, Nat.succ_le_succ hLe, hSource, hFile⟩
    · exact ⟨0, first, Nat.zero_le _, rfl, h⟩

def HoldsMarker (s : Surroundings) (name start : String) (place : Nat) : Prop :=
  ∃ directory, (ancestors start)[place]? = some directory ∧
    s.exists? (Path.join directory name) = true

/-- The file has one of the names in one of the directories up to a place. -/
def LiesWithin (start : String) (place : Nat) (file : String) : Prop :=
  ∃ i directory, i ≤ place ∧ (ancestors start)[i]? = some directory ∧
    ∃ name ∈ projectFileNames, file = Path.join directory name

theorem LiesWithin.of_mem_projectFilesIn {i : Nat} (hLe : i ≤ place)
    (hPlace : (ancestors start)[i]? = some directory) (h : file ∈ projectFilesIn s directory) :
    LiesWithin start place file :=
  ⟨i, directory, hLe, hPlace, (mem_projectFilesIn_iff.mp h).1⟩

theorem findProjectFiles_of_projectFilesIn (h : projectFilesIn s start ≠ []) :
    findProjectFiles s marker start = projectFilesIn s start := by
  have hStart := ancestors_zero start
  rw [findProjectFiles]
  cases hAll : ancestors start with
  | nil =>
    rw [hAll] at hStart
    cases hStart
  | cons first above =>
    rw [hAll] at hStart
    cases hStart
    rw [searchProject]
    split
    · exact absurd ‹_› h
    · rfl

theorem isFile_of_mem_findProjectFiles (h : file ∈ findProjectFiles s marker start) :
    s.isFile file = true := by
  obtain ⟨_, _, hFile⟩ := exists_of_mem_searchProject h
  exact (mem_projectFilesIn_iff.mp hFile).2

theorem liesWithin_start_iff : (∀ file ∈ findProjectFiles s marker start, LiesWithin start 0 file) ↔
    projectFilesIn s start ≠ [] ∨ findProjectFiles s marker start = [] := by
  constructor
  · intro h
    cases hFound : findProjectFiles s marker start with
    | nil => exact Or.inr rfl
    | cons file files =>
      left
      have hMem : file ∈ findProjectFiles s marker start := hFound ▸ List.mem_cons_self
      obtain ⟨i, directory, hLe, hPlace, hName⟩ := h file hMem
      obtain rfl := Nat.le_zero.mp hLe
      obtain rfl := Option.some.inj ((ancestors_zero start).symm.trans hPlace)
      exact List.ne_nil_of_mem
        (mem_projectFilesIn_iff.mpr ⟨hName, isFile_of_mem_findProjectFiles hMem⟩)
  · rintro (hHere | hNone) file hFile
    · rw [findProjectFiles_of_projectFilesIn hHere] at hFile
      exact .of_mem_projectFilesIn (Nat.le_refl 0) (ancestors_zero start) hFile
    · rw [hNone] at hFile
      cases hFile

theorem liesWithin_of_holdsMarker {name : String} (hAbove : 0 < place)
    (hMarker : HoldsMarker s name start place) (h : file ∈ findProjectFiles s (some name) start) :
    LiesWithin start place file := by
  obtain ⟨directory, hPlace, hExists⟩ := hMarker
  have hBoundary : isBoundary s (some name) start directory = true := by
    rw [isBoundary, hExists, same_eq_false_of_above hAbove hPlace]
    rfl
  obtain ⟨i, source, hLe, hSource, hFile⟩ :=
    exists_of_mem_searchProject_of_boundary hPlace hBoundary h
  exact .of_mem_projectFilesIn hLe hSource hFile

/-- When a search respects a marker: always, if the marker is above the beginning, and at the
beginning only if it has no reason to go on. -/
theorem findProjectFiles_respects_marker_iff {s : Surroundings} {name start : String} {place : Nat}
    (hMarker : HoldsMarker s name start place) :
    (∀ file ∈ findProjectFiles s (some name) start, LiesWithin start place file) ↔
      0 < place ∨ projectFilesIn s start ≠ [] ∨ findProjectFiles s (some name) start = [] := by
  rcases Nat.eq_zero_or_pos place with rfl | hAbove
  · rw [liesWithin_start_iff]
    simp
  · simp only [hAbove, true_or, iff_true]
    exact fun file hFile => liesWithin_of_holdsMarker hAbove hMarker hFile

def nestedRepositories : Surroundings where
  tree := ⟨[
    (["work"], .directory), (["work", ".hg"], .directory),
    (["work", ".format-lint.toml"], .file .empty),
    (["work", "inner"], .directory), (["work", "inner", ".git"], .directory)]⟩
  directory := []
  environment := []
  today := "2026-01-01"

theorem projectFilesIn_nestedRepositories :
    projectFilesIn nestedRepositories "/work/inner" = [] ∧
      projectFilesIn nestedRepositories "/work" = ["/work/.format-lint.toml"] := by
  decide +kernel

theorem findProjectFiles_nestedRepositories (name : String) :
    findProjectFiles nestedRepositories (some name) "/work/inner" =
      ["/work/.format-lint.toml"] := by
  obtain ⟨hInner, hOuter⟩ := projectFilesIn_nestedRepositories
  have hAncestors : ancestors "/work/inner" = ["/work/inner", "/work", "/"] := by decide +kernel
  have hStart : isBoundary nestedRepositories (some name) "/work/inner" "/work/inner" = false := by
    simp [isBoundary, Path.same]
  simp only [findProjectFiles, hAncestors, searchProject, hInner, hOuter, hStart]
  rfl

theorem search_from_inner_respects_outer_marker :
    HoldsMarker nestedRepositories ".hg" "/work/inner" 1 ∧
      findProjectFiles nestedRepositories (some ".hg") "/work/inner" =
        ["/work/.format-lint.toml"] ∧
      ∀ file ∈ findProjectFiles nestedRepositories (some ".hg") "/work/inner",
        LiesWithin "/work/inner" 1 file := by
  have hMarker : HoldsMarker nestedRepositories ".hg" "/work/inner" 1 :=
    ⟨"/work", by decide +kernel, by decide +kernel⟩
  exact ⟨hMarker, findProjectFiles_nestedRepositories ".hg",
    (findProjectFiles_respects_marker_iff hMarker).mpr (Or.inl (by decide))⟩

/-- A marker at the beginning does not keep the search from going further up. -/
theorem search_leaves_marked_start : ¬ ∀ (s : Surroundings) (name start : String) (place : Nat),
    HoldsMarker s name start place →
      ∀ file ∈ findProjectFiles s (some name) start, LiesWithin start place file := by
  intro hAlways
  have hMarker : HoldsMarker nestedRepositories ".git" "/work/inner" 0 :=
    ⟨"/work/inner", by decide +kernel, by decide +kernel⟩
  rcases liesWithin_start_iff.mp (hAlways _ _ _ _ hMarker) with hHere | hNone
  · exact hHere projectFilesIn_nestedRepositories.1
  · rw [findProjectFiles_nestedRepositories] at hNone
    cases hNone

end LiteralLint.Config
