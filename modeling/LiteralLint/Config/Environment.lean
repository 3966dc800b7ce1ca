import LiteralLint.Config.Value
import LiteralLint.Number.Decimal
import LiteralLint.Text.Classes
import LiteralLint.Text.Quotation
import LiteralLint.Text.Split

/-! # Settings in environment variables

A variable whose name begins with `FORMAT_LINT_` sets what the rest of its name says, with a dot
between the keys of nested tables. Its value is read as a truth value, a number, a list in brackets,
a table in braces or a quoted text where it is written like one, and else stands for itself. -/

set_option autoImplicit false

namespace LiteralLint.Config.Environment

def isSpace (c : Char) : Bool :=
  c == ' ' || c == '\t' || c == '\n' || c == '\x0c' || c == '\r'

def skipSpace (cs : List Char) : List Char := cs.dropWhile isSpace

def isSeparator (c : Char) : Bool :=
  c == ',' || c == '\x7b' || c == '\x7d' || c == '[' || c == ']'

def isKeyChar (c : Char) : Bool := c.isAlphanum || c == '_' || c == '-'

def readKey (cs : List Char) : Option (String × List Char) :=
  match cs with
  | '"' :: rest => Text.readQuoted rest
  | cs =>
    match cs.takeWhile isKeyChar with
    | [] => none
    | key => some (String.ofList key, cs.dropWhile isKeyChar)

def signedMinimum : Int := -Int.ofNat (Nat.pow 2 63)

def unsignedBound : Nat := Nat.pow 2 64

/-- A value without quotes or brackets. Only what has a point is a number with a fraction. -/
def ofBare (cs : List Char) : Value :=
  let text := trimBlanks cs
  let integer :=
    match Text.integer? text with
    | some n =>
      if text.head? = some '-' then if signedMinimum ≤ n then some (Value.signed n) else none
      else if n < unsignedBound then some (Value.unsigned n.toNat)
      else none
    | none => none
  let fraction := if '.' ∈ text then (Binary64.ofText? text).map Value.real else none
  (fraction <|> integer).getD (.text (String.ofList text))

mutual

def readValue : Nat → List Char → Option (Value × List Char)
  | 0, _ => none
  | fuel + 1, cs => do
    let cs := skipSpace cs
    let (value, rest) ←
      if ['t', 'r', 'u', 'e'].isPrefixOf cs then some (.bool true, cs.drop 4)
      else if ['f', 'a', 'l', 's', 'e'].isPrefixOf cs then some (.bool false, cs.drop 5)
      else
        match cs with
        | '\x7b' :: rest => do
          let (entries, rest) ← readEntries fuel rest
          some (.table (Table.ofList entries), rest)
        | '[' :: rest => do
          let (items, rest) ← readItems fuel rest
          some (.list items, rest)
        | '"' :: rest => do
          let (text, rest) ← Text.readQuoted rest
          some (.text text, rest)
        | '\'' :: c :: '\'' :: rest => some (.character c, rest)
        | '\'' :: _ => none
        | cs => some (ofBare (cs.takeWhile (!isSeparator ·)), cs.dropWhile (!isSeparator ·))
    return (value, skipSpace rest)

def readItems : Nat → List Char → Option (List Value × List Char)
  | 0, _ => none
  | _ + 1, ']' :: rest => some ([], rest)
  | fuel + 1, cs => do
    let (item, rest) ← readValue fuel cs
    match rest with
    | ',' :: rest =>
      let (items, rest) ← readItems fuel rest
      return (item :: items, rest)
    | ']' :: rest => return ([item], rest)
    | _ => none

def readEntries : Nat → List Char → Option (List (String × Value) × List Char)
  | 0, _ => none
  | _ + 1, '\x7d' :: rest => some ([], rest)
  | fuel + 1, cs => do
    let (key, rest) ← readKey (skipSpace cs)
    match skipSpace rest with
    | '=' :: rest =>
      let (value, rest) ← readValue fuel rest
      match rest with
      | ',' :: rest =>
        let (entries, rest) ← readEntries fuel rest
        return ((key, value) :: entries, rest)
      | '\x7d' :: rest => return ([(key, value)], rest)
      | _ => none
    | _ => none

end

/-- The value of a variable. A text that is not well-formed as a whole stands for itself. -/
def value (text : String) : Value :=
  match readValue (2 * text.length + 2) text.toList with
  | some (v, []) => v
  | _ => .text text

def namePrefix : String := "FORMAT_LINT_"

def lower (cs : List Char) : List Char := cs.map Char.toLower

/-- The keys that a variable's name stands for; `none` if it is no setting. Case does not matter. -/
def keys? (name : String) : Option (List String) :=
  let trimmed := trimBlanks name.toList
  let start := namePrefix.toList
  if lower (trimmed.take start.length) = lower start then
    let pieces := Text.split '.' (trimBlanks (trimmed.drop start.length))
    if pieces.any List.isEmpty then none else some (pieces.map fun p => String.ofList (lower p))
  else none

def nest (v : Value) : List String → Value
  | [] => v
  | key :: keys => .table [(key, nest v keys)]

/-- The settings of all variables; a later one weighs more. -/
def table (entries : List (String × String)) : Table :=
  entries.foldl (fun t (name, text) =>
    match keys? name with
    | some (key :: keys) => Table.merge t [(key, nest (value text) keys)]
    | _ => t) []

end LiteralLint.Config.Environment
