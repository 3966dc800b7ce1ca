import LiteralLint.Config.Load

/-! # The files of a configuration in one list

A configuration is merged from the file of the user, the files of the project and those that are
named, one kind after the other. That is the same as merging one list of files, in which later ones
weigh more. -/

set_option autoImplicit false

namespace LiteralLint.Config

def Request.sources (r : Request) (s : Surroundings) : Sources where
  userFile := if r.userFile then findUserFile? s else none
  projectFiles :=
    match r.start with
    | some start => findProjectFiles s r.marker start
    | none => []
  explicitFiles := r.explicitFiles

def failureOf {α : Type} : Except LoadError α → Option LoadError
  | .error e => some e
  | .ok _ => none

/-- The configuration that comes of a list of files and the environment. -/
def loadFiles (s : Surroundings) (files : List String) : Except (List LoadError) Config :=
  let read := files.map (readFile s)
  match read.filterMap failureOf with
  | [] =>
    match ofLayers (read.filterMap Except.toOption ++ [environmentLayer s]) with
    | .ok config => .ok config
    | .error e => .error [e]
  | errors => .error (reported errors)

namespace Loading

variable {s : Surroundings} {r : Request} {done : List String} {sources : Sources}

/-- What there is when some files have been merged. -/
def ofFiles (s : Surroundings) (done : List String) (sources : Sources) : Loading where
  layers := (done.map (readFile s)).filterMap Except.toOption
  faults := (done.map (readFile s)).filterMap failureOf
  sources

theorem extract_ofFiles (s : Surroundings) (done : List String) (sources : Sources) :
    (ofFiles s done sources).extract s = loadFiles s done := rfl

theorem mergeFile_ofFiles (s : Surroundings) (done : List String) (sources : Sources)
    (file : String) :
    (ofFiles s done sources).mergeFile s file = ofFiles s (done ++ [file]) sources := by
  simp only [mergeFile, ofFiles, List.map_append, List.filterMap_append, List.map_singleton]
  cases readFile s file with
  | ok layer => simp [failureOf, Except.toOption]
  | error e => simp [failureOf, Except.toOption]

theorem mergeFiles_ofFiles (s : Surroundings) (done : List String) (sources : Sources)
    (files : List String) :
    (ofFiles s done sources).mergeFiles s files = ofFiles s (done ++ files) sources := by
  induction files generalizing done with
  | nil => rw [List.append_nil]; rfl
  | cons file files ih =>
    rw [mergeFiles, List.foldl_cons, mergeFile_ofFiles, ← mergeFiles, ih, List.append_assoc,
      List.singleton_append]

theorem mergeUserFile_ofFiles (h : sources.userFile = none) :
    (ofFiles s done sources).mergeUserFile s r =
      ofFiles s (done ++ (r.sources s).userFile.toList)
        { sources with userFile := (r.sources s).userFile } := by
  unfold mergeUserFile Request.sources
  cases if r.userFile then findUserFile? s else none with
  | none =>
    dsimp only
    rw [Option.toList_none, List.append_nil, ← h]
  | some file =>
    simp only [mergeFile_ofFiles]
    rfl

theorem mergeProjectFiles_ofFiles (h : sources.projectFiles = []) :
    (ofFiles s done sources).mergeProjectFiles s r =
      ofFiles s (done ++ (r.sources s).projectFiles)
        { sources with projectFiles := (r.sources s).projectFiles } := by
  unfold mergeProjectFiles Request.sources
  cases r.start with
  | none =>
    dsimp only
    rw [List.append_nil, ← h]
  | some start =>
    simp only [mergeFiles_ofFiles]
    rfl

theorem mergeExplicitFiles_ofFiles :
    (ofFiles s done sources).mergeExplicitFiles s r =
      ofFiles s (done ++ r.explicitFiles) { sources with explicitFiles := r.explicitFiles } := by
  rw [mergeExplicitFiles, mergeFiles_ofFiles]
  rfl

end Loading

theorem load_eq (s : Surroundings) (r : Request) :
    load s r = do
      let config ← loadFiles s (r.sources s).files
      return (config, r.sources s) := by
  have hNothing : ({} : Loading) = .ofFiles s [] {} := rfl
  simp only [load, hNothing, Loading.mergeUserFile_ofFiles, Loading.mergeProjectFiles_ofFiles,
    Loading.mergeExplicitFiles_ofFiles, Loading.extract_ofFiles]
  rfl

theorem load_of_loadFiles {s : Surroundings} {r : Request} {config : Config}
    (h : loadFiles s (r.sources s).files = .ok config) : load s r = .ok (config, r.sources s) := by
  rw [load_eq, h]
  rfl

end LiteralLint.Config
