import LiteralLint.CommandLine.Basic
import LiteralLint.Text.Split

/-! # Reading a command line

The words are read one after the other, first those in front of the name of a command and then those
behind it. An argument that takes a value gets the rest of its own word or else the next word,
unless that one starts with a dash. A value is looked at only when the next argument comes. -/

set_option autoImplicit false

namespace LiteralLint.CommandLine

/-- What was given, in order; arguments without a value are given with the empty text. -/
abbrev Settings := List (Key × String)

namespace Settings

def has (settings : Settings) (key : Key) : Bool := settings.any (·.1 == key)

def values (settings : Settings) (key : Key) : List String :=
  (settings.filter (·.1 == key)).map (·.2)

def count (settings : Settings) (key : Key) : Nat := (settings.values key).length

end Settings

/-- An argument whose value has not been looked at, or has not been given yet. -/
structure Pending where
  argument : Argument
  value : Option String
deriving DecidableEq, Repr

structure Reading where
  settings : Settings := []
  pending : Option Pending := none
  /-- Whether only positional words follow. -/
  trailing : Bool := false
deriving DecidableEq, Repr, Inhabited

def isValidValue (key : Key) (value : String) : Bool :=
  match key with
  | .config | .chdir => !value.isEmpty
  | .color => (ColorChoice.ofName? value).isSome
  | _ => true

namespace Reading

def give (r : Reading) (argument : Argument) (value : String) : Except Refusal Reading :=
  if !argument.kind.isRepeatable ∧ r.settings.has argument.key then .error .repeatedArgument
  else if isValidValue argument.key value then
    .ok { r with settings := r.settings ++ [(argument.key, value)] }
  else .error .missingOrInvalidValue

def settle (r : Reading) : Except Refusal Reading :=
  match r.pending with
  | none => .ok r
  | some ⟨_, none⟩ => .error .missingOrInvalidValue
  | some ⟨argument, some value⟩ => { r with pending := none }.give argument value

def awaitsValue (r : Reading) : Bool :=
  match r.pending with
  | some ⟨_, none⟩ => true
  | _ => false

def expect (r : Reading) (argument : Argument) (value : Option String) :
    Except Refusal Reading := do
  let r ← r.settle
  return { r with pending := some ⟨argument, value⟩ }

def mention (r : Reading) (argument : Argument) : Except Refusal Reading := do
  let r ← r.settle
  match argument.key with
  | .help => throw .helpRequested
  | .version => throw .versionRequested
  | _ => r.give argument ""

def readLong (options : List Argument) (r : Reading) (body : List Char) : Except Refusal Reading :=
  let name := String.ofList (body.takeWhile (· ≠ '='))
  let value :=
    match body.dropWhile (· ≠ '=') with
    | '=' :: rest => some (String.ofList rest)
    | _ => none
  match options.find? (·.long == some name) with
  | none => .error .unknownArgument
  | some argument =>
    if argument.kind.takesValue then r.expect argument value
    else if value.isSome then .error .excessValue
    else r.mention argument

/-- The letters behind one dash. The first one that takes a value takes the rest of the word. -/
def readShort (options : List Argument) : Reading → List Char → Except Refusal Reading
  | r, [] => .ok r
  | r, letter :: rest =>
    match options.find? (·.short == some letter) with
    | none => .error .unknownArgument
    | some argument =>
      if argument.kind.takesValue then
        r.expect argument <|
          match rest with
          | [] => none
          | '=' :: value => some (String.ofList value)
          | value => some (String.ofList value)
      else do
        let r ← r.mention argument
        readShort options r rest

def readStray (form : Form) (r : Reading) (word : String) : Except Refusal Reading :=
  match form.arguments.find? (·.isPositional) with
  | some argument => do
    let r ← r.settle
    r.give argument word
  | none =>
    if form.hasCommands ∧ !(r.trailing ∧ isCommandWord word) then .error .unknownCommand
    else .error .unknownArgument

def readWord (form : Form) (options : List Argument) (r : Reading) (word : String) :
    Except Refusal Reading :=
  let stray (word : String) : Except Refusal Reading :=
    match r.pending with
    | some ⟨argument, none⟩ => .ok { r with pending := some ⟨argument, some word⟩ }
    | _ => r.readStray form word
  if r.trailing then r.readStray form word
  else
    match word.toList with
    | ['-', '-'] => .ok { r with trailing := true }
    | '-' :: '-' :: body => r.readLong options body
    | ['-'] => stray word
    | '-' :: letters => r.readShort options letters
    | _ => stray word

end Reading

def readTopics : List String → Refusal
  | [] => .helpRequested
  | [topic] => if isCommandWord topic then .helpRequested else .unknownCommand
  | _ => .unknownCommand

/-- Reads the words up to the name of a command. It is looked for wherever no value is awaited. -/
def readRoot : Reading → List String →
    Except Refusal (Reading × Option (CommandName × List String))
  | r, [] => .ok (r, none)
  | r, word :: words =>
    if r.trailing || r.awaitsValue then do
      let r ← r.readWord rootForm rootOptions word
      readRoot r words
    else if word = helpWord then .error (readTopics words)
    else
      match CommandName.ofText? word with
      | some command => .ok (r, some (command, words))
      | none => do
        let r ← r.readWord rootForm rootOptions word
        readRoot r words

def readCommand (command : CommandName) (words : List String) : Except Refusal Settings := do
  let r ← words.foldlM (Reading.readWord command.form command.options) {}
  let r ← r.settle
  if command.form.arguments.all fun a => !a.isRequired || r.settings.has a.key then
    return r.settings
  else throw .missingArgument

def greatestCount : Nat := 255

def Command.ofSettings (name : CommandName) (settings : Settings) : Command :=
  match name with
  | .check => .check ⟨settings.values .files, settings.values .allow⟩
  | .info => .info
  | .serve => .serve

/-- An argument that was given on both sides of the name of a command counts as it was given
behind it. -/
def Invocation.ofSettings (root inner : Settings) (command : Option Command) : Invocation :=
  let chosen (key : Key) : Settings := if inner.has key then inner else root
  let value (key : Key) : Option String := ((chosen key).values key).head?
  { command
    versionOnly := root.has .versionOnly
    config := value .config
    chdir := value .chdir
    quiet := (chosen .quiet).has .quiet
    verbose := min greatestCount ((chosen .verbose).count .verbose)
    json := (chosen .json).has .json
    color := ((value .color).bind ColorChoice.ofName?).getD .auto }

def read (words : List String) : Except Refusal Invocation := do
  let (r, rest) ← readRoot {} words
  match rest with
  | some (name, words) =>
    let inner ← readCommand name words
    let root ← r.settle
    return .ofSettings root.settings inner (some (.ofSettings name inner))
  | none =>
    let root ← r.settle
    if root.settings.isEmpty then throw .nothingGiven
    return .ofSettings root.settings [] none

end LiteralLint.CommandLine
