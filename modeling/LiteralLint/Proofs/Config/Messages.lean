import LiteralLint.Proofs.Config.Boundary
import LiteralLint.Proofs.Config.Precedence
import LiteralLint.Proofs.Config.Unstyled
import LiteralLint.Proofs.Path.Unstyled

/-! # Messages about settings

If neither the paths of the files nor any text in them is styled, a configuration is loaded that
allows unstyled values only, or the messages why there is none are unstyled. -/

set_option autoImplicit false

namespace LiteralLint.Config

section

variable {s : Surroundings} {r : Request} {base path start directory file : String}
  {marker : Option String} {files : List String} {layers : List Layer} {e : LoadError}

theorem unstyled_accessFault (cause : AccessFault) : Unstyled cause.message := by
  cases cause <;> decide

theorem Origin.unstyled_describe_ofPath (h : Unstyled path) :
    Unstyled ((Origin.ofPath path).describe base) := by
  have hFormat (format : FileFormat) : Unstyled format.name := by cases format <;> decide
  have hName : Unstyled (Origin.ofPath path).name := by
    change Unstyled s!"{(FileFormat.ofPath path).name} file"
    simp [hFormat]
    decide
  change Unstyled s!"{Path.shown base path} {(Origin.ofPath path).name}"
  simp [Path.unstyled_shown h, hName]
  decide

theorem LoadError.unstyled_text (hOrigin : Unstyled (e.origin.describe base))
    (hMisfit : ∀ misfit, e.fault = .misfit misfit → misfit.Unstyled) :
    Unstyled (e.text base) := by
  have hReason : Unstyled e.reason := by
    unfold reason
    split
    · exact unstyled_append.mpr ⟨unstyled_accessFault _, by decide⟩
    · exact unstyled_accessFault _
    · decide
    · rename_i misfit hFault
      have hCause : Unstyled (describeMismatch misfit.cause) := hMisfit misfit hFault
      dsimp only
      split
      · exact unstyled_append.mpr ⟨hCause, by decide⟩
      · simp only [unstyled_append, unstyled_toString, unstyled_quoted, hCause, true_and]
        decide
  change Unstyled s!"{e.reason} in {e.origin.describe base}"
  simp [hReason, hOrigin]
  decide

theorem LoadError.unstyled_texts {errors : List LoadError}
    (h : ∀ e ∈ errors, Unstyled (e.text base)) : Unstyled (texts base errors) :=
  unstyled_intercalate (by decide) (List.forall_mem_map.mpr h)

theorem LoadError.unstyled_message {errors : List LoadError} (h : Unstyled (texts base errors)) :
    Unstyled (message base errors) := by
  change Unstyled s!"invalid configuration: {texts base errors}"
  simp [h]
  decide

theorem unstyled_of_mem_ancestorsFrom {fuel : Nat} (h : Unstyled path)
    (hMem : directory ∈ ancestorsFrom fuel path) : Unstyled directory := by
  induction fuel generalizing path with
  | zero => exact List.mem_singleton.mp hMem ▸ h
  | succ fuel ih =>
    rw [ancestorsFrom] at hMem
    split at hMem
    · rename_i parent hParent
      rcases List.mem_cons.mp hMem with rfl | hMem
      · exact h
      · exact ih (Path.unstyled_parent h hParent) hMem
    · exact List.mem_singleton.mp hMem ▸ h

theorem unstyled_of_mem_findProjectFiles (h : Unstyled start)
    (hMem : file ∈ findProjectFiles s marker start) : Unstyled file := by
  obtain ⟨directory, hDirectory, hFile⟩ := exists_of_mem_searchProject hMem
  obtain ⟨⟨name, hName, rfl⟩, -⟩ := mem_projectFilesIn_iff.mp hFile
  have hNames : ∀ name ∈ projectFileNames, Unstyled name := by decide
  exact Path.unstyled_join (unstyled_of_mem_ancestorsFrom h hDirectory) (hNames name hName)

theorem unstyled_findUserFile (h : ∀ directory ∈ s.configDirectory?, Unstyled directory)
    (hFound : findUserFile? s = some file) : Unstyled file := by
  obtain ⟨directory, hDirectory, hFile⟩ := Option.bind_eq_some_iff.mp hFound
  obtain ⟨name, hName, rfl⟩ := List.mem_map.mp (List.mem_of_find?_eq_some hFile)
  have hNames : ∀ name ∈ userFileNames, Unstyled name := by decide
  exact Path.unstyled_join (h directory hDirectory) (hNames name hName)

structure Request.Unstyled (r : Request) (s : Surroundings) : Prop where
  start : ∀ start ∈ r.start, LiteralLint.Unstyled start
  userDirectory : ∀ directory ∈ s.configDirectory?, LiteralLint.Unstyled directory
  explicitFiles : ∀ file ∈ r.explicitFiles, LiteralLint.Unstyled file

theorem Request.Unstyled.sources (h : r.Unstyled s) :
    ∀ file ∈ (r.sources s).files, LiteralLint.Unstyled file := by
  intro file hFile
  simp only [Sources.files, Request.sources, List.mem_append, Option.mem_toList] at hFile
  rcases hFile with (hUser | hProject) | hExplicit
  · split at hUser
    · exact unstyled_findUserFile h.userDirectory hUser
    · cases hUser
  · split at hProject
    · rename_i start hStart
      exact unstyled_of_mem_findProjectFiles (h.start start hStart) hProject
    · cases hProject
  · exact h.explicitFiles file hExplicit

/-- The layers that the settings of a run come from. -/
def IsLayer (s : Surroundings) (files : List String) (layer : Layer) : Prop :=
  layer = environmentLayer s ∨ ∃ file ∈ files, IsReadAs s file layer

theorem originOf_eq (layers : List Layer) (path : List String) :
    originOf layers path = .environment ∨
      ∃ layer ∈ layers, originOf layers path = layer.origin := by
  unfold originOf
  split
  · rename_i layer hFind
    exact .inr ⟨layer, List.mem_reverse.mp (List.mem_of_find?_eq_some hFind), rfl⟩
  · exact .inl rfl

theorem mem_reported {errors : List LoadError} (h : e ∈ reported errors) : e ∈ errors := by
  unfold reported at h
  split at h
  · exact h
  · exact h
  · rcases List.mem_cons.mp h with rfl | h
    · exact List.mem_cons_self
    · exact List.mem_singleton.mp h ▸ List.getLastD_mem_cons

theorem ends_ofLayers (hTables : ∀ layer ∈ layers, layer.table.Unstyled)
    (hOrigins : ∀ layer ∈ layers, Unstyled (layer.origin.describe base)) :
    Ends AllowsUnstyled (fun e => Unstyled (e.text base)) (ofLayers layers) := by
  have hRead := ends_ofTable (unstyled_mergeLayers hTables)
  unfold ofLayers
  split
  · rename_i config hConfig
    exact hRead.of_ok hConfig
  · rename_i misfit hMisfit
    refine LoadError.unstyled_text ?_ fun m hFault =>
      Fault.misfit.inj hFault ▸ hRead.of_error hMisfit
    obtain hOrigin | ⟨layer, hLayer, hOrigin⟩ := originOf_eq layers misfit.path
    · rw [hOrigin]
      exact (by decide : Unstyled Origin.environment.name)
    · rw [hOrigin]
      exact hOrigins layer hLayer

theorem IsLayer.unstyled_describe (hFiles : ∀ file ∈ files, Unstyled file) {layer : Layer}
    (h : IsLayer s files layer) : Unstyled (layer.origin.describe base) := by
  rcases h with rfl | ⟨file, hFile, hRead⟩
  · exact (by decide : Unstyled Origin.environment.name)
  · unfold IsReadAs readFile at hRead
    split at hRead
    · cases hRead
    · split at hRead
      · cases hRead
        exact Origin.unstyled_describe_ofPath (hFiles file hFile)
      · cases hRead

theorem error_of_readFile (h : readFile s path = .error e) :
    e.origin = .ofPath path ∧ ∀ misfit, e.fault ≠ .misfit misfit := by
  unfold readFile at h
  split at h
  · cases h
    exact ⟨rfl, fun _ hEq => by cases hEq⟩
  · split at h
    · cases h
    · cases h
      exact ⟨rfl, fun _ hEq => by cases hEq⟩

theorem ends_loadFiles (hFiles : ∀ file ∈ files, Unstyled file)
    (hLayers : ∀ layer, IsLayer s files layer → layer.table.Unstyled) :
    Ends AllowsUnstyled (fun errors => ∀ e ∈ errors, Unstyled (e.text base))
      (loadFiles s files) := by
  have hErrors : ∀ e ∈ (files.map (readFile s)).filterMap failureOf, Unstyled (e.text base) := by
    intro e he
    obtain ⟨read, hRead, hFailed⟩ := List.mem_filterMap.mp he
    obtain ⟨file, hFile, rfl⟩ := List.mem_map.mp hRead
    cases hEnd : readFile s file with
    | ok layer =>
      rw [hEnd] at hFailed
      cases hFailed
    | error e =>
      rw [hEnd] at hFailed
      cases hFailed
      obtain ⟨hOrigin, hFault⟩ := error_of_readFile hEnd
      refine LoadError.unstyled_text ?_ fun misfit hMisfit => absurd hMisfit (hFault misfit)
      rw [hOrigin]
      exact Origin.unstyled_describe_ofPath (hFiles file hFile)
  unfold loadFiles
  dsimp only
  split
  · rename_i hNone
    have hLayer : ∀ layer ∈ (files.map (readFile s)).filterMap Except.toOption ++
        [environmentLayer s], IsLayer s files layer := by
      rw [List.forall_mem_append, List.forall_mem_singleton]
      exact ⟨fun layer hLayer => .inr (exists_isReadAs (forall₂_isReadAs hNone) layer hLayer),
        .inl rfl⟩
    have hEnd : Ends AllowsUnstyled (fun e => Unstyled (e.text base)) (ofLayers
        ((files.map (readFile s)).filterMap Except.toOption ++ [environmentLayer s])) :=
      ends_ofLayers (fun layer hMem => hLayers layer (hLayer layer hMem))
        fun layer hMem => (hLayer layer hMem).unstyled_describe hFiles
    split
    · rename_i config hConfig
      exact hEnd.of_ok hConfig
    · rename_i e hError
      exact List.forall_mem_singleton.mpr (hEnd.of_error hError)
  · exact fun e he => hErrors e (mem_reported he)

theorem ends_load (hRequest : r.Unstyled s)
    (hLayers : ∀ layer, IsLayer s (r.sources s).files layer → layer.table.Unstyled) :
    Ends (fun loaded => loaded.1.AllowsUnstyled)
      (fun errors => ∀ e ∈ errors, Unstyled (e.text base)) (load s r) := by
  rw [load_eq]
  exact (ends_loadFiles hRequest.sources hLayers).bind fun _ h => h

end

end LiteralLint.Config
