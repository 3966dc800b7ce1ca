import LiteralLint.CommandLine.Basic
import LiteralLint.Output

/-! # Usage

What is printed when a command line asks for help or cannot be read. -/

set_option autoImplicit false

namespace LiteralLint.CommandLine

def Argument.usage (a : Argument) : String :=
  let short := a.short.toList.map fun c => s!"-{c}"
  let long := a.long.toList.map fun name => s!"--{name}"
  let positional := if a.isPositional then [a.key.name] else []
  let value := if a.kind.takesValue ∧ !a.isPositional then " VALUE" else ""
  ", ".intercalate (short ++ long ++ positional) ++ value

def usage : String :=
  let entry (text : String) := "  " ++ text
  let command (form : Form) := " ".intercalate (form.name :: form.arguments.map (·.usage))
  Output.lines (
    [s!"{About.name} [OPTIONS] COMMAND", "", "Commands:"]
    ++ CommandName.all.map (fun c => entry (command c.form))
    ++ ["", "Options:"]
    ++ rootOptions.map (fun a => entry a.usage))

def Refusal.describe : Refusal → String
  | helpRequested | versionRequested | nothingGiven => ""
  | unknownArgument => "unexpected argument"
  | unknownCommand => "unrecognized command"
  | missingArgument => "a required argument was not given"
  | missingOrInvalidValue => "a value is missing or invalid"
  | excessValue => "an argument was given a value that it does not take"
  | repeatedArgument => "an argument was given more than once"

def Refusal.output : Refusal → Output
  | helpRequested => { stdout := usage }
  | versionRequested => { stdout := Output.line s!"{About.name} {About.version}" }
  | nothingGiven => { stdout := "", stderr := usage }
  | refusal => { stdout := "", stderr := Output.line s!"error: {refusal.describe}" ++ usage }

end LiteralLint.CommandLine
