import LiteralLint.Check
import LiteralLint.Proofs.Diagnostic.Exactness
import LiteralLint.Proofs.Input.Reading
import LiteralLint.Proofs.Override.Choice

/-! # The verdict on a file

What the check of a file comes to, said by what stands at its path, the limit on its size and its
allow-list. There is one verdict for each, and nothing else takes part in it. -/

set_option autoImplicit false

namespace LiteralLint.Check

/-- What the check of a file comes to. The size is looked at before the content, also where a
directory stands at the path. -/
inductive Verdict (found : Except AccessFault Node) (limit : Option Nat) (allow : AllowList)
    (path : String) : Outcome → Prop where
  | unreachable {cause : AccessFault} (at_path : found = .error cause) :
      Verdict found limit allow path (.failed ⟨path, .unreadable cause⟩)
  | oversized {node : Node} {bound : Nat} (at_path : found = .ok node)
      (limited : limit = some bound) (greater : bound < node.size) :
      Verdict found limit allow path (.failed ⟨path, .tooLarge ⟨node.size, bound⟩⟩)
  | directory (at_path : found = .ok .directory) (admitted : Admits limit Node.directory.size) :
      Verdict found limit allow path (.failed ⟨path, .unreadable .isADirectory⟩)
  | undecodable {content : ByteArray} (at_path : found = .ok (.file content))
      (admitted : Admits limit content.size) (no_text : ∀ text : String, text.toUTF8 ≠ content) :
      Verdict found limit allow path (.failed ⟨path, .unreadable .invalidText⟩)
  | checked {text : String} {diagnostics : List Diagnostic}
      (at_path : found = .ok (.file text.toUTF8)) (admitted : Admits limit text.toUTF8.size)
      (found_in : checkText text allow = .ok diagnostics) :
      Verdict found limit allow path (.checked
        { uri := path
          languageId := languageOfExtension (Path.extension? path)
          version := 0
          diagnostics
          pass := diagnostics.isEmpty })

section

variable {s : Surroundings} {limit : Option Nat} {allow : AllowList} {path : String}

theorem checkFile_of_readInput_error {e : InputError} (h : s.readInput path limit = .error e) :
    checkFile s limit allow path = .error e := by
  rw [checkFile, h]
  rfl

theorem checkFile_of_readInput_ok {text : String} {diagnostics : List Diagnostic}
    (h : s.readInput path limit = .ok text) (hCheck : checkText text allow = .ok diagnostics) :
    checkFile s limit allow path = .ok
      { uri := path
        languageId := languageOfExtension (Path.extension? path)
        version := 0
        diagnostics
        pass := diagnostics.isEmpty } := by
  rw [checkFile, h]
  simp only [bind, Except.bind, Document.check, documentOf, hCheck]
  rfl

end

section

variable {s : Surroundings} {config : Config} {arguments : Arguments} {path : String}
  {result : Outcome}

theorem outcome_of_checkFile_error {e : InputError}
    (h : checkFile s config.inputLimit (allowList config arguments path) path = .error e) :
    outcome s config arguments path = .failed e := by
  rw [outcome, h]

theorem outcome_of_checkFile_ok {report : Report}
    (h : checkFile s config.inputLimit (allowList config arguments path) path = .ok report) :
    outcome s config arguments path = .checked report := by
  rw [outcome, h]

theorem Verdict.outcome_eq (h : Verdict (s.tree.find s.directory path) config.inputLimit
    (allowList config arguments path) path result) :
    outcome s config arguments path = result := by
  cases h with
  | unreachable at_path =>
    refine outcome_of_checkFile_error (checkFile_of_readInput_error ?_)
    exact Surroundings.readInput_of_find_error at_path
  | oversized at_path limited greater =>
    refine outcome_of_checkFile_error (checkFile_of_readInput_error ?_)
    rw [limited]
    exact Surroundings.readInput_of_lt at_path greater
  | directory at_path admitted =>
    refine outcome_of_checkFile_error (checkFile_of_readInput_error ?_)
    rw [Surroundings.readInput_of_admits at_path admitted,
      FileTree.readText_of_find_directory at_path]
    rfl
  | @undecodable content at_path admitted no_text =>
    have hNone : String.fromUTF8? content = none :=
      Option.eq_none_iff_forall_ne_some.mpr fun text h =>
        no_text text (fromUTF8?_eq_some_iff.mp h)
    refine outcome_of_checkFile_error (checkFile_of_readInput_error ?_)
    rw [Surroundings.readInput_of_admits at_path admitted,
      FileTree.readText_of_find_file at_path, hNone]
    rfl
  | checked at_path admitted found_in =>
    have hInput := Surroundings.readInput_of_text at_path admitted
    exact outcome_of_checkFile_ok (checkFile_of_readInput_ok hInput found_in)

theorem exists_verdict (found : Except AccessFault Node) (limit : Option Nat) (allow : AllowList)
    (path : String) : ∃ result, Verdict found limit allow path result := by
  cases found with
  | error cause => exact ⟨_, .unreachable rfl⟩
  | ok node =>
    rcases admits_or_lt limit node.size with hAdmits | ⟨bound, hLimit, hLess⟩
    · cases node with
      | directory => exact ⟨_, .directory rfl hAdmits⟩
      | file content =>
        by_cases hText : ∃ text : String, text.toUTF8 = content
        · obtain ⟨text, rfl⟩ := hText
          exact ⟨_, .checked rfl hAdmits (checkText_eq_map_refused text allow)⟩
        · exact ⟨_, .undecodable rfl hAdmits fun text h => hText ⟨text, h⟩⟩
    · exact ⟨_, .oversized rfl hLimit hLess⟩

theorem verdict_iff : Verdict (s.tree.find s.directory path) config.inputLimit
    (allowList config arguments path) path result ↔ result = outcome s config arguments path := by
  refine ⟨fun h => h.outcome_eq.symm, ?_⟩
  rintro rfl
  obtain ⟨result, hVerdict⟩ := exists_verdict (s.tree.find s.directory path) config.inputLimit
    (allowList config arguments path) path
  rwa [hVerdict.outcome_eq]

end

/-- The allow-list that a path is checked against: the values of the call if there are any, else
those of the override that decides on the path, else the configured ones. -/
inductive Governs (config : Config) (arguments : Arguments) (path : String) : AllowList → Prop where
  | given (values : arguments.allow ≠ []) :
      Governs config arguments path (.ofList arguments.allow)
  | overridden {place rank : Nat} {o : Override} (no_values : arguments.allow = [])
      (decides : Override.Decides (config.overrides.getD []) path place o rank) :
      Governs config arguments path (.ofList o.allowedValues)
  | configured (no_values : arguments.allow = [])
      (no_hits : ∀ o ∈ config.overrides.getD [], ∀ rank, ¬ o.Hits path rank) :
      Governs config arguments path (.ofList config.allowedValues)

section

variable {config : Config} {arguments : Arguments} {path : String} {allow : AllowList}

theorem allowList_of_given (h : arguments.allow ≠ []) :
    allowList config arguments path = .ofList arguments.allow := by
  have hEmpty : arguments.allow.isEmpty = false := by simpa using h
  simp [allowList, overrides, fallback, hEmpty, resolve, resolve?, Override.best?]

theorem allowList_of_not_given (h : arguments.allow = []) :
    allowList config arguments path =
      resolve (config.overrides.getD []) path (.ofList config.allowedValues) := by
  simp [allowList, overrides, fallback, h, Config.allowList]

theorem Governs.allowList_eq (h : Governs config arguments path allow) :
    allowList config arguments path = allow := by
  cases h with
  | given values => exact allowList_of_given values
  | overridden no_values decides =>
    rw [allowList_of_not_given no_values, resolve_of_decides decides]
  | configured no_values no_hits =>
    rw [allowList_of_not_given no_values, resolve_of_no_hits no_hits]

theorem exists_governs (config : Config) (arguments : Arguments) (path : String) :
    ∃ allow, Governs config arguments path allow := by
  by_cases hGiven : arguments.allow = []
  · rcases decides_or_no_hits (config.overrides.getD []) path with ⟨_, _, _, hDecides⟩ | hNone
    · exact ⟨_, .overridden hGiven hDecides⟩
    · exact ⟨_, .configured hGiven hNone⟩
  · exact ⟨_, .given hGiven⟩

theorem governs_iff :
    Governs config arguments path allow ↔ allow = allowList config arguments path := by
  refine ⟨fun h => h.allowList_eq.symm, ?_⟩
  rintro rfl
  obtain ⟨allow, hGoverns⟩ := exists_governs config arguments path
  rwa [hGoverns.allowList_eq]

end

end LiteralLint.Check
