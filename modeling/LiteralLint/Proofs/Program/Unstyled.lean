import LiteralLint.Proofs.Check.Unstyled
import LiteralLint.Proofs.FileTree.Growth
import LiteralLint.Proofs.Program.Running

/-! # Runs without colours

What a run prints when it is told to use no colours and nothing that it works with is styled. -/

set_option autoImplicit false

namespace LiteralLint

theorem FileTree.exists_node_of_find {tree : FileTree} {base : Location} {path : String}
    {node : Node} (h : tree.find base path = .ok node) :
    ∃ location, tree.node? location = some node := by
  obtain ⟨location, -, hNode⟩ := bind_eq_ok h
  refine ⟨location, ?_⟩
  split at hNode
  · rename_i hThere
    cases hNode
    exact hThere
  · cases hNode

theorem ne_empty_of_not_unstyled {text : String} (h : ¬ Unstyled text) :
    text.toUTF8 ≠ ByteArray.empty := by
  intro hEmpty
  have hText : text = "" := String.toByteArray_inj.mp hEmpty
  exact h (hText ▸ by decide)

namespace Program

open CommandLine

structure Failure.Unstyled (f : Failure) : Prop where
  message : LiteralLint.Unstyled f.message
  causes : ∀ cause ∈ f.causes, LiteralLint.Unstyled cause

theorem Failure.unstyled_of_message {message : String} (h : LiteralLint.Unstyled message) :
    Failure.Unstyled { message } :=
  ⟨h, List.forall_mem_nil _⟩

theorem Failure.unstyled_causeText {mark cause : String} (hMark : LiteralLint.Unstyled mark)
    (h : LiteralLint.Unstyled cause) : LiteralLint.Unstyled (causeText mark cause) := by
  have hIndented (c : Char) (hMem : c ∈ cause.toList) :
      '\x1b' ∉ if c = '\n' then '\n' :: List.replicate mark.length ' ' else [c] := by
    split
    · simp
    · rw [List.mem_singleton]
      rintro rfl
      exact h hMem
  rw [causeText, unstyled_append, unstyled_append]
  refine ⟨⟨by decide, hMark⟩, ?_⟩
  rw [unstyled_ofList, List.mem_flatMap]
  rintro ⟨c, hMem, hEscape⟩
  exact hIndented c hMem hEscape

theorem Failure.unstyled_causesText {causes : List String}
    (h : ∀ cause ∈ causes, LiteralLint.Unstyled cause) :
    LiteralLint.Unstyled (causesText causes) := by
  unfold causesText
  split
  · decide
  · rename_i cause
    rw [unstyled_append]
    exact ⟨by decide, unstyled_causeText (by decide) (List.forall_mem_singleton.mp h)⟩
  · rw [unstyled_append]
    refine ⟨by decide, unstyled_join fun text hText => ?_⟩
    obtain ⟨n, hLess, rfl⟩ := List.mem_mapIdx.mp hText
    refine unstyled_causeText ?_ (h _ (List.getElem_mem hLess))
    simp
    decide

theorem Failure.Unstyled.text {f : Failure} (h : f.Unstyled) : LiteralLint.Unstyled f.text := by
  simp [Failure.text, h.message, unstyled_causesText h.causes]
  decide

/-- No path, no file and no setting that a run works with holds an escape. -/
structure HandlesUnstyled (s : Surroundings) (invocation : Invocation) : Prop where
  directory : ∀ name ∈ s.directory, Unstyled name
  userDirectory : ∀ path ∈ s.configDirectory?, Unstyled path
  chdir : ∀ path ∈ invocation.chdir, Unstyled path
  config : ∀ path ∈ invocation.config, Unstyled path
  arguments : ∀ arguments, invocation.command = some (.check arguments) →
    ∀ word ∈ arguments.files ++ arguments.allow, Unstyled word
  contents : ∀ location (text : String), s.tree.node? location = some (.file text.toUTF8) →
    Unstyled text
  settings : ∀ inner, enter s invocation.chdir = .ok inner → ∀ layer,
    Config.IsLayer inner ((request inner invocation).sources inner).files layer →
      layer.table.Unstyled

variable {s inner : Surroundings} {words : List String} {invocation : Invocation}
  {command : Command} {config : Config} {sources : Sources}

theorem ends_enter (h : HandlesUnstyled s invocation) :
    Ends (fun inner => ∃ there : Location, inner = { s with directory := there } ∧
        ∀ name ∈ there, Unstyled name) Failure.Unstyled (enter s invocation.chdir) := by
  unfold enter
  split
  · exact ⟨s.directory, rfl, h.directory⟩
  · rename_i path hPath
    split
    · rename_i there hThere
      exact ⟨there, rfl, FileTree.unstyled_enter h.directory (h.chdir path hPath) hThere⟩
    · rename_i cause _
      refine ⟨?_, List.forall_mem_singleton.mpr (Config.unstyled_accessFault cause)⟩
      simp [h.chdir path hPath]
      decide

theorem ends_loadConfig (h : HandlesUnstyled s invocation)
    (hEnter : enter s invocation.chdir = .ok inner) :
    Ends (fun loaded => loaded.1.AllowsUnstyled) Failure.Unstyled
      (loadConfig inner invocation) := by
  obtain ⟨there, rfl, hThere⟩ := (ends_enter h).of_ok hEnter
  have hRequest : (request { s with directory := there } invocation).Unstyled
      { s with directory := there } := by
    refine ⟨?_, h.userDirectory, fun file hFile => h.config file (Option.mem_toList.mp hFile)⟩
    rintro _ ⟨⟩
    exact FileTree.unstyled_pathOf hThere
  have hLoad : Ends (fun loaded => loaded.1.AllowsUnstyled)
      (fun errors => ∀ e ∈ errors, Unstyled (e.text (FileTree.pathOf there)))
      (Config.load { s with directory := there }
        (request { s with directory := there } invocation)) :=
    Config.ends_load hRequest (h.settings _ hEnter)
  unfold loadConfig
  split
  · rename_i loaded hLoaded
    exact hLoad.of_ok hLoaded
  · rename_i errors hErrors
    have hTexts := Config.LoadError.unstyled_texts (hLoad.of_error hErrors)
    refine ⟨(by decide : Unstyled "failed to load configuration"), ?_⟩
    rw [List.forall_mem_cons, List.forall_mem_singleton]
    exact ⟨Config.LoadError.unstyled_message hTexts, hTexts⟩

theorem unstyled_of_find_jobOf (h : HandlesUnstyled s invocation)
    (hEnter : enter s invocation.chdir = .ok inner) {path text : String}
    (hFound : (jobOf inner invocation command config sources).surroundings.tree.find
      inner.directory path = .ok (.file text.toUTF8)) : Unstyled text := by
  have hAdds : inner.tree.Adds (jobOf inner invocation command config sources).surroundings.tree :=
    Log.Destination.adds_openIn inner _
  obtain ⟨location, hNode⟩ := FileTree.exists_node_of_find hFound
  obtain ⟨there, rfl, -⟩ := (ends_enter h).of_ok hEnter
  by_contra hText
  exact hText (h.contents location text (hAdds.file hNode (ne_empty_of_not_unstyled hText)))

theorem unstyled_of_mem_outcomes (h : HandlesUnstyled s invocation)
    (hEnter : enter s invocation.chdir = .ok inner) {arguments : Check.Arguments}
    (hCommand : invocation.command = some (.check arguments)) (hConfig : config.AllowsUnstyled) :
    ∀ r ∈ Check.outcomes (jobOf inner invocation command config sources).surroundings config
      arguments, r.Unstyled := by
  have hWords := h.arguments arguments hCommand
  rw [List.forall_mem_append] at hWords
  rw [Check.outcomes, List.forall_mem_map]
  intro path hPath
  exact (Check.verdict_iff.mpr rfl).unstyled (hWords.1 path hPath)
    (Check.unstyled_allowList hConfig hWords.2 path) fun text hFound =>
      unstyled_of_find_jobOf h hEnter hFound

theorem unstyled_run_jobOf (h : HandlesUnstyled s invocation)
    (hEnter : enter s invocation.chdir = .ok inner) (hColor : invocation.color = .never)
    (hCommand : invocation.command = some command) (hNoServer : command ≠ .serve)
    (hConfig : config.AllowsUnstyled) (sources : Sources) (input : List String) :
    let result := (jobOf inner invocation command config sources).run input
    Unstyled result.stderr ∧
      (Unstyled result.stdout ↔ ¬ (command = .info ∧ invocation.json = false)) ∧
      (command = .info → result.exitCode = 0) := by
  intro result
  cases command with
  | serve => exact absurd rfl hNoServer
  | info =>
    obtain ⟨hExit, hErr, hOut⟩ := run_jobOf_info inner invocation config sources input
    refine ⟨hErr ▸ (by decide : Unstyled ""), ?_, fun _ => hExit⟩
    rw [hOut, Info.unstyled_stdout_iff]
    simp
  | check arguments =>
    have hOutcomes : ∀ r ∈ Check.outcomes (jobOf inner invocation (.check arguments) config
        sources).surroundings config arguments, r.Unstyled :=
      unstyled_of_mem_outcomes h hEnter hCommand hConfig
    obtain ⟨hOut, hErr, hFailure⟩ := Check.unstyled_output invocation.json hOutcomes
    obtain ⟨-, hStdout, hStderr, -⟩ :=
      run_jobOf_check inner invocation arguments config sources input
    rw [hColor] at hStdout hStderr
    refine ⟨?_, iff_of_true (hStdout ▸ hOut) (by simp), fun hInfo => by cases hInfo⟩
    rw [hStderr, unstyled_append]
    refine ⟨hErr, ?_⟩
    cases hReason : (Check.run (jobOf inner invocation (.check arguments) config
        sources).surroundings config invocation.json .never arguments).failure with
    | none => decide
    | some reason => exact (Failure.unstyled_of_message (hFailure reason hReason)).text

def studio : Surroundings where
  tree := (FileTree.empty.withFile [".format-lint.toml"] "allowed_values = ['gif']".toUTF8).withFile
    ["a.ts"] "format: 'bmp'".toUTF8
  directory := []
  environment := [("FORCE_COLOR", "1")]
  today := "2026-01-01"

theorem handlesUnstyled_studio (hChdir : invocation.chdir = none)
    (hConfig : invocation.config = none)
    (hFiles : ∀ arguments, invocation.command = some (.check arguments) →
      arguments = ⟨["a.ts"], []⟩) : HandlesUnstyled studio invocation where
  directory := List.forall_mem_nil _
  userDirectory := by
    have hNone : studio.configDirectory? = none := by decide +kernel
    rw [hNone]
    exact fun path hPath => absurd hPath (Option.not_mem_none path)
  chdir := by simp [hChdir]
  config := by simp [hConfig]
  arguments arguments hCheck := by
    rw [hFiles arguments hCheck]
    decide
  contents location text hNode := by
    have hSame (other : String) (hOther : Unstyled other)
        (h : some (Node.file other.toUTF8) = some (.file text.toUTF8)) : Unstyled text :=
      String.toByteArray_inj.mp (Node.file.inj (Option.some.inj h)) ▸ hOther
    have hTree : studio.tree = (FileTree.empty.insert [".format-lint.toml"]
        (.file "allowed_values = ['gif']".toUTF8)).insert ["a.ts"]
        (.file "format: 'bmp'".toUTF8) := rfl
    rw [hTree] at hNode
    by_cases hChecked : location = ["a.ts"]
    · rw [hChecked, FileTree.node?_insert_self _ _ (by decide)] at hNode
      exact hSame "format: 'bmp'" (by decide) hNode
    · rw [FileTree.node?_insert_of_ne hChecked] at hNode
      by_cases hConfigured : location = [".format-lint.toml"]
      · rw [hConfigured, FileTree.node?_insert_self _ _ (by decide)] at hNode
        exact hSame "allowed_values = ['gif']" (by decide) hNode
      · rw [FileTree.node?_insert_of_ne hConfigured] at hNode
        cases location <;> cases hNode
  settings inner hEnter layer hLayer := by
    rw [hChdir, enter] at hEnter
    obtain rfl := Except.ok.inj hEnter
    have hFound : ((request studio invocation).sources studio).files = ["/.format-lint.toml"] := by
      simp only [request, hConfig]
      decide +kernel
    rw [hFound] at hLayer
    rcases hLayer with hVariables | ⟨file, hMem, hRead⟩
    · have hNone : (Config.environmentLayer studio).table.Unstyled := by decide +kernel
      rwa [hVariables]
    · have hFile : ((Config.readFile studio "/.format-lint.toml").toOption.all
          fun layer => decide layer.table.Unstyled) = true := by decide +kernel
      rw [List.mem_singleton] at hMem
      rw [hMem] at hRead
      rw [hRead] at hFile
      exact of_decide_eq_true hFile

end Program

end LiteralLint
