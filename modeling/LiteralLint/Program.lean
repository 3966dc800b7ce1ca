import LiteralLint.CommandLine.Read
import LiteralLint.CommandLine.Usage
import LiteralLint.Config.Load
import LiteralLint.Info
import LiteralLint.Log.Destination
import LiteralLint.Log.Filter
import LiteralLint.Server.Session

/-! # The program

A run reads the command line, enters the directory it names, loads the configuration, opens the log
and then does what the command says. -/

set_option autoImplicit false

namespace LiteralLint.Program

structure Failure where
  message : String
  causes : List String := []
deriving DecidableEq, Repr

namespace Failure

def summary (f : Failure) : String := ": ".intercalate (f.message :: f.causes)

/-- A cause below a failure, with a mark in front; what follows on its first line is indented. -/
def causeText (mark cause : String) : String :=
  let indented := cause.toList.flatMap fun c =>
    if c = '\n' then '\n' :: List.replicate mark.length ' ' else [c]
  "\n" ++ mark ++ String.ofList indented

def causesText : List String → String
  | [] => ""
  | [cause] => "\n\nCaused by:" ++ causeText "    " cause
  | causes =>
    "\n\nCaused by:" ++ String.join (causes.mapIdx fun n => causeText s!"    {n}: ")

/-- The failure as it is printed where no backtrace is asked for. -/
def text (f : Failure) : String := s!"Error: {f.message}{causesText f.causes}\n"

end Failure

structure Result where
  exitCode : Nat := 0
  stdout : String := ""
  stderr : String := ""
  tree : FileTree
  log : Option Location := none
  events : List Log.Event := []

structure Job where
  command : CommandLine.Command
  invocation : CommandLine.Invocation
  /-- What the command finds: its directory was entered and its log was opened. -/
  surroundings : Surroundings
  config : Config
  sources : Sources
  filter : Log.Filter
  log : Option Location

namespace Job

def server (job : Job) : Server where
  allow := job.config.allowList
  limit := job.config.inputLimit
  dialect := job.surroundings.schemaDialect

def output (job : Job) : Output :=
  match job.command with
  | .check arguments =>
    Check.run job.surroundings job.config job.invocation.json job.invocation.color arguments
  | .info => Info.run job.config job.sources job.invocation.json
  | .serve => { stdout := "" }

def commandEvents (job : Job) : List Log.Event :=
  match job.command with
  | .check arguments => Log.checkEvents job.surroundings job.config arguments
  | .info => [.informing job.invocation.json]
  | .serve => [.serving job.server.allow]

def events (job : Job) (failure : Option Failure) : List Log.Event :=
  let first := Log.Event.starting job.sources.primaryFile job.invocation.json job.invocation.verbose
  let last := failure.toList.map fun f => Log.Event.failed f.summary
  (first :: job.commandEvents ++ last).filter job.filter.admits

def finish (job : Job) (output : Output) (failure : Option Failure) : Result where
  exitCode := if failure.isSome then 1 else 0
  stdout := output.stdout
  stderr := output.stderr ++ (failure.map Failure.text).getD ""
  tree := job.surroundings.tree
  log := job.log
  events := job.events failure

def sessionFailure (session : Session) : Option Failure :=
  session.failure?.map fun reason => ⟨"failed to start MCP server", [reason]⟩

/-- Carries the command out; only a server takes any input. It is taken to answer its requests one
after the other, though a runtime that works on several at once may write replies in another
order. -/
def run (job : Job) (input : List String) : Result :=
  match job.command with
  | .serve =>
    let session : Session := { server := job.server }
    let (session, answers) := session.receiveLines input
    job.finish { stdout := Output.lines answers } (sessionFailure session)
  | .check _ | .info =>
    let output := job.output
    job.finish output (output.failure.map fun message => { message })

end Job

inductive Start where
  | ended (result : Result)
  | ready (job : Job)

def ended (s : Surroundings) (output : Output) (exitCode : Nat) : Start :=
  .ended { exitCode, stdout := output.stdout, stderr := output.stderr, tree := s.tree }

def failed (s : Surroundings) (failure : Failure) : Start :=
  ended s { stdout := "", stderr := failure.text } 1

def enter (s : Surroundings) (directory : Option String) : Except Failure Surroundings :=
  match directory with
  | none => .ok s
  | some path =>
    match s.tree.enter s.directory path with
    | .ok there => .ok { s with directory := there }
    | .error cause => .error ⟨s!"failed to change directory to {path}", [cause.message]⟩

/-- All files are looked for: those of the user, of the project around the working directory, and
the one that the command line names. -/
def request (s : Surroundings) (invocation : CommandLine.Invocation) : Config.Request where
  start := some s.workingDirectory
  explicitFiles := invocation.config.toList

def loadConfig (s : Surroundings) (invocation : CommandLine.Invocation) :
    Except Failure (Config × Sources) :=
  match Config.load s (request s invocation) with
  | .ok loaded => .ok loaded
  | .error errors =>
    let base := s.workingDirectory
    .error ⟨"failed to load configuration",
      [Config.LoadError.message base errors, Config.LoadError.texts base errors]⟩

def prepare (s : Surroundings) (invocation : CommandLine.Invocation)
    (command : CommandLine.Command) : Except Failure Job := do
  let s ← enter s invocation.chdir
  let (config, sources) ← loadConfig s invocation
  let (tree, log) := Log.Destination.openIn s (Log.Destination.choose? s config.logDir)
  return {
    command, invocation, config, sources, log
    surroundings := { s with tree }
    filter := .choose (s.getVariable Log.Filter.variableName) invocation.quiet invocation.verbose
      config.logLevel }

def start (s : Surroundings) (words : List String) : Start :=
  match CommandLine.read words with
  | .error refusal => ended s refusal.output refusal.exitCode
  | .ok invocation =>
    if invocation.versionOnly then ended s { stdout := Output.line About.version } 0
    else
      match invocation.command with
      | none => ended s { stdout := "" } 0
      | some command =>
        match prepare s invocation command with
        | .ok job => .ready job
        | .error failure => failed s failure

def run (s : Surroundings) (words input : List String) : Result :=
  match start s words with
  | .ended result => result
  | .ready job => job.run input

end LiteralLint.Program
