import LiteralLint.Check
import LiteralLint.Diagnostic

/-! # The command line

Which commands there are and which arguments each of them takes. -/

set_option autoImplicit false

namespace LiteralLint.CommandLine

inductive Key where
  | versionOnly
  | config
  | chdir
  | quiet
  | verbose
  | color
  | json
  | files
  | allow
  | help
  | version
deriving DecidableEq, Repr

def Key.name : Key → String
  | versionOnly => "version_only"
  | config => "config"
  | chdir => "chdir"
  | quiet => "quiet"
  | verbose => "verbose"
  | color => "color"
  | json => "json"
  | files => "files"
  | allow => "allow"
  | help => "help"
  | version => "version"

/-- What an argument takes, and how often it may be given: a single argument and a list take a value
each time, a counter and a list may be given again, and a request ends the reading. -/
inductive Kind where
  | flag
  | counter
  | single
  | list
  | request
deriving DecidableEq, Repr

namespace Kind

def takesValue : Kind → Bool
  | single | list => true
  | flag | counter | request => false

def isRepeatable : Kind → Bool
  | counter | list => true
  | flag | single | request => false

end Kind

structure Argument where
  key : Key
  kind : Kind
  short : Option Char := none
  long : Option String := none
  isGlobal : Bool := false
  isRequired : Bool := false
  isPositional : Bool := false
deriving DecidableEq, Repr

structure Form where
  name : String
  version : Option String := none
  arguments : List Argument := []
  /-- Whether the name of a command is expected among the arguments. -/
  hasCommands : Bool := false
deriving DecidableEq, Repr

def helpArgument : Argument where
  key := .help
  kind := .request
  short := some 'h'
  long := some "help"

def versionArgument : Argument where
  key := .version
  kind := .request
  short := some 'V'
  long := some "version"

/-- What stands in front of the name of a command. Global arguments may also follow it. -/
def rootForm : Form where
  name := About.name
  version := some About.version
  hasCommands := true
  arguments := [
    { key := .versionOnly, kind := .flag, long := some "version-only" },
    { key := .config, kind := .single, short := some 'c', long := some "config", isGlobal := true },
    { key := .chdir, kind := .single, short := some 'C', long := some "chdir", isGlobal := true },
    { key := .quiet, kind := .flag, short := some 'q', long := some "quiet", isGlobal := true },
    { key := .verbose, kind := .counter, short := some 'v', long := some "verbose",
      isGlobal := true },
    { key := .color, kind := .single, long := some "color", isGlobal := true },
    { key := .json, kind := .flag, long := some "json", isGlobal := true }]

inductive CommandName where
  | check
  | info
  | serve
deriving DecidableEq, Repr

namespace CommandName

def all : List CommandName := [check, info, serve]

def form : CommandName → Form
  | check => {
      name := "check"
      arguments := [
        { key := .files, kind := .list, isRequired := true, isPositional := true },
        { key := .allow, kind := .list, long := some "allow" }] }
  | info => { name := "info" }
  | serve => { name := "serve" }

def ofText? (word : String) : Option CommandName := all.find? (·.form.name == word)

end CommandName

def helpWord : String := "help"

def isCommandWord (word : String) : Bool :=
  word == helpWord || (CommandName.ofText? word).isSome

def rootOptions : List Argument := rootForm.arguments ++ [helpArgument, versionArgument]

def CommandName.options (command : CommandName) : List Argument :=
  command.form.arguments ++ rootForm.arguments.filter (·.isGlobal) ++ [helpArgument]

inductive Command where
  | check (arguments : Check.Arguments)
  | info
  | serve
deriving DecidableEq, Repr

structure Invocation where
  command : Option Command := none
  versionOnly : Bool := false
  config : Option String := none
  chdir : Option String := none
  quiet : Bool := false
  verbose : Nat := 0
  json : Bool := false
  color : ColorChoice := .auto
deriving DecidableEq, Repr, Inhabited

inductive Refusal where
  | helpRequested
  | versionRequested
  | nothingGiven
  | unknownArgument
  | unknownCommand
  | missingArgument
  | missingOrInvalidValue
  | excessValue
  | repeatedArgument
deriving DecidableEq, Repr

/-- Asking for help or for the version is no mistake. -/
def Refusal.exitCode : Refusal → Nat
  | helpRequested | versionRequested => 0
  | _ => 2

end LiteralLint.CommandLine
