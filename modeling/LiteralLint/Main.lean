import LiteralLint.Program
import Std.Time.DateTime
import Std.Time.Format

/-! # The executable

Looks at the parts of the file system that a run can ask for, runs the program on them, and writes
what the run gives. -/

set_option autoImplicit false

namespace LiteralLint.Terminal

/-- Adds what stands at a location. What cannot be looked at counts as absent. -/
def see (tree : FileTree) (location : Location) : IO FileTree := do
  if (tree.node? location).isSome then return tree
  try
    let path := (← IO.currentDir) / FileTree.pathOf location
    let node ←
      match (← path.metadata).type with
      | .dir => pure Node.directory
      | _ => Node.file <$> IO.FS.readBinFile path
    return tree.insert location node
  catch _ => return tree

def seeWay (tree : FileTree) (here : Location) : List (List Char) → IO FileTree
  | [] => return tree
  | piece :: pieces => do
    if Path.isVoid piece then seeWay tree here pieces
    else if piece = ['.', '.'] then seeWay tree here.dropLast pieces
    else
      let there := here ++ [String.ofList piece]
      seeWay (← see tree there) there pieces

def look (s : Surroundings) (paths : List String) : IO Surroundings := do
  let tree ← paths.foldlM (fun tree path => do
    let base := if Path.isAbsolute path then [] else s.directory
    seeWay tree base (Text.split '/' path.toList)) s.tree
  return { s with tree }

def configPaths (s : Surroundings) : List String :=
  let project := (Config.ancestors s.workingDirectory).flatMap fun directory =>
    (Config.standardMarker :: Config.projectFileNames).map (Path.join directory)
  let user := s.configDirectory?.toList.flatMap fun directory =>
    Config.userFileNames.map (Path.join directory)
  project ++ user

def commandPaths : Option CommandLine.Command → List String
  | some (.check arguments) => arguments.files
  | _ => []

def logPaths (s : Surroundings) (config : Config) : List String :=
  match (Log.Destination.choose? s config.logDir).bind (Log.Destination.place? s.today) with
  | some (directory, name) => [directory, Path.join directory name]
  | none => []

def lookAround (s : Surroundings) (words : List String) : IO Surroundings := do
  match CommandLine.read words with
  | .error _ => return s
  | .ok invocation =>
    let s ← look s invocation.chdir.toList
    match Program.enter s invocation.chdir with
    | .error _ => return s
    | .ok inner =>
      let inner ← look inner
        (configPaths inner ++ invocation.config.toList ++ commandPaths invocation.command)
      match Program.loadConfig inner invocation with
      | .error _ => return { s with tree := inner.tree }
      | .ok (config, _) =>
        let inner ← look inner (logPaths inner config)
        return { s with tree := inner.tree }

def variablesOf (block : ByteArray) : List (String × String) :=
  let (done, _) := block.foldl (fun (done, current) byte =>
    if byte = 0 then (current :: done, ByteArray.empty) else (done, current.push byte)) ([], .empty)
  done.reverse.filterMap fun bytes => do
    let entry := (← String.fromUTF8? bytes).toList
    match entry.dropWhile (· ≠ '=') with
    | _ :: value => return (String.ofList (entry.takeWhile (· ≠ '=')), String.ofList value)
    | [] => none

def now : IO Std.Time.PlainDateTime := do
  let stamp ← Std.Time.Timestamp.now
  return (Std.Time.DateTime.ofTimestampWithZone stamp .GMT).toPlainDateTime

def surroundings : IO Surroundings := do
  let directory := (Text.split '/' (← IO.currentDir).toString.toList).filter (!·.isEmpty)
  let location := directory.map String.ofList
  let tree ← seeWay .empty [] directory
  let environment := variablesOf (← IO.FS.readBinFile "/proc/self/environ")
  return { tree, directory := location, environment, today := (← now).date.toLeanDateString }

/-- Writes events to the log and to the error stream. A log that cannot be written is left out. -/
def report (log : Option Location) (events : List Log.Event) : IO Unit := do
  let time := s!"{(← now).toLeanDateTimeString}Z"
  let lines := events.map fun e =>
    (Json.obj [("timestamp", .str time), ("level", .str e.level.name), ("fields", e.toJson),
      ("target", .str e.target)]).compact
  if let some location := log then
    try
      let path := (← IO.currentDir) / FileTree.pathOf location
      if let some parent := path.parent then IO.FS.createDirAll parent
      let file ← IO.FS.Handle.mk path .append
      file.putStr (Output.lines lines)
    catch _ => pure ()
  let errors ← IO.getStderr
  for e in events do
    errors.putStrLn s!"{time} {e.level.name} {e.toJson.compact}"

partial def converse (session : Session) : IO Session := do
  let line ← (← IO.getStdin).getLine
  if line.isEmpty then return session
  let (session, answers) := session.receiveLine line
  let output ← IO.getStdout
  output.putStr (Output.lines answers)
  output.flush
  if session.phase = .refused then return session else converse session

def conclude (result : Program.Result) : IO UInt32 := do
  (← IO.getStdout).putStr result.stdout
  (← IO.getStderr).putStr result.stderr
  return result.exitCode.toUInt32

def serve (job : Program.Job) : IO UInt32 := do
  let first := job.events none
  report job.log first
  let session ← converse { server := job.server }
  let result := job.finish { stdout := "" } (Program.Job.sessionFailure session)
  report job.log (result.events.drop first.length)
  conclude result

def run (words : List String) : IO UInt32 := do
  let s ← lookAround (← surroundings) words
  match Program.start s words with
  | .ended result => conclude result
  | .ready job =>
    match job.command with
    | .serve => serve job
    | .check _ | .info =>
      let result := job.run []
      report result.log result.events
      conclude result

end LiteralLint.Terminal

def main (words : List String) : IO UInt32 := LiteralLint.Terminal.run words
