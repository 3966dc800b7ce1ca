import LiteralLint.Proofs.FileTree.Growth
import LiteralLint.Proofs.Path.Names

/-! # Opening the file that a path names

The way to a directory is made piece by piece, and then leads there: whoever follows the path in the
new tree comes to the file that was opened. Nothing else is new but the directories on the way. -/

set_option autoImplicit false

namespace LiteralLint

namespace FileTree

variable {tree made later : FileTree} {base here there location place : Location}
  {pieces : List (List Char)} {path other directory name : String}

theorem makeWay_filter (tree : FileTree) (here : Location) (pieces : List (List Char)) :
    tree.makeWay here (pieces.filter (!Path.isVoid ·)) = tree.makeWay here pieces := by
  induction pieces generalizing tree here with
  | nil => rfl
  | cons piece pieces ih =>
    by_cases hHere : tree.node? here = some .directory
    · cases hVoid : Path.isVoid piece with
      | true =>
        rw [List.filter_cons_of_neg (by simp [hVoid]), ih, makeWay_void hHere hVoid]
      | false =>
        rw [List.filter_cons_of_pos (by simp [hVoid]), makeWay, makeWay, hHere]
        simp only [ih]
    · rw [makeWay_of_not_directory hHere, makeWay_of_not_directory hHere]

theorem grows_of_makeWay {found : Option Location} (h : tree.makeWay here pieces = (made, found)) :
    tree.Grows made := by
  have hMade := (adds_makeWay tree here pieces).grows
  rwa [h] at hMade

theorem file_of_makeWay {found : Option Location} (h : tree.makeWay here pieces = (made, found))
    {content : ByteArray} (hFile : made.node? place = some (.file content)) :
    tree.node? place = some (.file content) := by
  refine makeWay_induction (motive := fun made => made.node? place = some (.file content) →
    tree.node? place = some (.file content)) ?_ pieces here id (by rwa [h])
  intro between there hBefore hFree hThere
  by_cases hPlace : place = there
  · subst hPlace
    rw [node?_insert_self between .directory (ne_nil_of_free hFree)] at hThere
    cases hThere
  · exact hBefore (node?_insert_of_ne hPlace ▸ hThere)

theorem follow_of_makeWay (h : tree.makeWay here pieces = (made, some there))
    (hGrows : made.Grows later) (more : List (List Char)) :
    later.follow here (pieces ++ more) = later.follow there more ∧
      later.node? there = some .directory := by
  induction pieces generalizing tree here with
  | nil =>
    rw [makeWay] at h
    split at h
    · rename_i hHere
      cases h
      exact ⟨rfl, hGrows _ _ hHere⟩
    · cases h
  | cons piece pieces ih =>
    -- `later` grows from each tree on the way, so that no step has to compare two trees
    have hTree := (grows_of_makeWay h).trans hGrows
    by_cases hHere : tree.node? here = some .directory
    · have hLater := hTree here _ hHere
      rw [List.cons_append]
      cases pieceKind piece with
      | void hVoid =>
        rw [makeWay_void hHere hVoid] at h
        rw [follow_void hLater hVoid]
        exact ih h
      | up hUp =>
        subst hUp
        rw [makeWay_up hHere] at h
        rw [follow_up hLater]
        exact ih h
      | long hLong =>
        rw [makeWay_long hHere hLong] at h
        cases h
      | name hName =>
        cases hThere : tree.node? (here ++ [String.ofList piece]) with
        | some node =>
          rw [makeWay_name hHere hName hThere] at h
          rw [follow_name hLater hName (hTree _ node hThere)]
          exact ih h
        | none =>
          rw [makeWay_missing hHere hName hThere] at h
          have hNew := (grows_of_makeWay h).trans hGrows _ _
            (node?_insert_self tree .directory (ne_nil_of_free hThere))
          rw [follow_name hLater hName hNew]
          exact ih h
    · rw [makeWay_of_not_directory hHere] at h
      cases h

theorem Fits.of_append (h : Fits (path ++ other)) : Fits path := by
  have hNul := h.no_nul
  have hShort := h.short
  rw [String.toList_append, List.mem_append, not_or] at hNul
  rw [String.utf8ByteSize_append] at hShort
  exact ⟨hNul.1, (Nat.le_add_right _ _).trans hShort⟩

theorem makeDirectories_of_fits (h : Fits path) :
    tree.makeDirectories base path =
      tree.makeWay (if Path.isAbsolute path then [] else base) (Path.steps path) := by
  rw [makeDirectories, if_neg, Path.steps, makeWay_filter]
  exact not_or.mpr ⟨h.no_nul, Nat.not_lt_of_le h.short⟩

theorem grows_of_openFile (h : tree.openFile there name = (later, some location)) :
    tree.Grows later := by
  have hOpened := (adds_openFile tree there name).grows
  rwa [h] at hOpened

theorem openFile_eq_some (h : tree.openFile there name = (later, some location)) :
    location = there ++ [name] ∧ name.utf8ByteSize ≤ greatestNameLength ∧
      (∃ content, later.node? location = some (.file content)) ∧
      ∀ place, place ≠ location → later.node? place = tree.node? place := by
  rw [openFile] at h
  split at h
  · cases h
  · rename_i hShort
    have hPlace : there ++ [name] ≠ [] := List.append_ne_nil_of_right_ne_nil _ (by simp)
    split at h <;> cases h
    · rename_i content hFile
      exact ⟨rfl, Nat.le_of_not_lt hShort, ⟨content, hFile⟩, fun _ _ => rfl⟩
    · exact ⟨rfl, Nat.le_of_not_lt hShort, ⟨_, node?_insert_self tree _ hPlace⟩,
        fun _ hOther => node?_insert_of_ne hOther⟩

/-- The file that a path names can be opened: its directory is there or can be made, and so is the
file in it. -/
inductive Opens (tree : FileTree) (base : Location) (path : String) (later : FileTree)
    (location : Location) : Prop where
  | of_names {directory name : String} {made : FileTree} {there : Location}
      (names : Path.Names path directory name) (fits : Fits path)
      (way : tree.makeDirectories base directory = (made, some there))
      (opened : made.openFile there name = (later, some location))

namespace Opens

variable (h : tree.Opens base path later location)
include h

theorem exists_makeWay : ∃ directory name made there, Path.Names path directory name ∧
    Fits path ∧ made.openFile there name = (later, some location) ∧
    tree.makeWay (if Path.isAbsolute path then [] else base) (Path.steps directory) =
      (made, some there) := by
  cases h with
  | @of_names directory name made there names fits way opened =>
  refine ⟨directory, name, made, there, names, fits, opened, ?_⟩
  rw [names.isAbsolute_eq, ← makeDirectories_of_fits, way]
  exact Fits.of_append (names.written ▸ fits)

theorem grows : tree.Grows later := by
  obtain ⟨directory, name, made, there, -, -, hOpen, hWay⟩ := h.exists_makeWay
  exact (grows_of_makeWay hWay).trans (grows_of_openFile hOpen)

theorem is_file : ∃ content, later.node? location = some (.file content) := by
  obtain ⟨directory, name, made, there, -, -, hOpen, -⟩ := h.exists_makeWay
  obtain ⟨-, -, hFile, -⟩ := openFile_eq_some hOpen
  exact hFile

theorem file_iff (hPlace : place ≠ location) (content : ByteArray) :
    later.node? place = some (.file content) ↔ tree.node? place = some (.file content) := by
  obtain ⟨directory, name, made, there, -, -, hOpen, hWay⟩ := h.exists_makeWay
  obtain ⟨-, -, -, hOthers⟩ := openFile_eq_some hOpen
  rw [hOthers place hPlace]
  exact ⟨file_of_makeWay hWay, grows_of_makeWay hWay place _⟩

theorem locate_eq : later.locate base path = .ok location := by
  obtain ⟨directory, name, made, there, hNames, hFits, hOpen, hWay⟩ := h.exists_makeWay
  obtain ⟨front, hSplit, hFront⟩ := hNames.split_eq
  obtain ⟨rfl, hShort, ⟨content, hFile⟩, -⟩ := openFile_eq_some hOpen
  rw [← hFront, makeWay_filter] at hWay
  obtain ⟨hFollow, hThere⟩ := follow_of_makeWay hWay (grows_of_openFile hOpen) [name.toList]
  have hSome : path ≠ "" := by
    rintro rfl
    exact hNames.name_ne_nil (List.append_eq_nil_iff.mp hNames.toList_eq.symm).2
  have hUp : name.toList ≠ ['.', '.'] := fun hUp => hNames.not_up (String.toList_injective hUp)
  have hName : IsName name.toList := ⟨hNames.counts, hUp, by rwa [String.ofList_toList]⟩
  rw [← String.ofList_toList (s := name)] at hFile
  rw [locate_of_fits hFits hSome, hSplit, hFollow, follow_name hThere hName hFile,
    String.ofList_toList, follow]

end Opens

end FileTree

end LiteralLint
