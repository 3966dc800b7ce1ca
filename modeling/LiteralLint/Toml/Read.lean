import LiteralLint.Toml.Scalar
import LiteralLint.Toml.Table

/-! # TOML texts

A text is read line by line into statements. Arrays and inline tables are read as values; the latter
are built from assignments like any table. -/

set_option autoImplicit false

namespace LiteralLint.Toml

open Config (Value)

/-- Values and keys are nested less deeply than this. -/
def depthLimit : Nat := 80

def isKeyChar (c : Char) : Bool := c.isAlphanum || c == '_' || c == '-'

def readSimpleKey : Reader String
  | '"' :: rest => Text.readQuoted rest
  | '\'' :: rest => readLiteral rest
  | cs =>
    match cs.takeWhile isKeyChar with
    | [] => none
    | key => some (String.ofList key, cs.dropWhile isKeyChar)

def readKeyFrom : Nat → List Char → Option (List String × List Char)
  | 0, _ => none
  | fuel + 1, cs => do
    let (key, rest) ← readSimpleKey (skipSpace cs)
    match skipSpace rest with
    | '.' :: rest =>
      let (keys, rest) ← readKeyFrom fuel rest
      return (key :: keys, rest)
    | rest => return ([key], rest)

def readKey (cs : List Char) : Option (List String × List Char) := do
  let (keys, rest) ← readKeyFrom (cs.length + 1) cs
  guard (keys.length < depthLimit)
  return (keys, rest)

def isCommentChar (c : Char) : Bool := Text.isPlain c

def skipComment : List Char → List Char
  | '#' :: rest => rest.dropWhile isCommentChar
  | cs => cs

def skipGap : Nat → List Char → Option (List Char)
  | 0, _ => none
  | fuel + 1, cs =>
    match skipSpace cs with
    | '#' :: rest =>
      match readNewline (rest.dropWhile isCommentChar) with
      | some rest => skipGap fuel rest
      | none => none
    | '\n' :: rest => skipGap fuel rest
    | '\r' :: rest =>
      match rest with
      | '\n' :: rest => skipGap fuel rest
      | _ => none
    | rest => some rest

mutual

def readValue : Nat → Nat → List Char → Option (Value × List Char)
  | 0, _, _ => none
  | fuel + 1, depth, cs =>
    match cs with
    | '[' :: rest => do
      guard (depth + 1 < depthLimit)
      let (items, rest) ← readItems fuel (depth + 1) rest
      return (.list items, rest)
    | '\x7b' :: rest => do
      guard (depth + 1 < depthLimit)
      match skipSpace rest with
      | '\x7d' :: rest => return (.table [], rest)
      | rest =>
        let (statements, rest) ← readEntries fuel (depth + 1) rest
        return (.table (← tableOf? statements), rest)
    | cs => readScalar cs

def readItems : Nat → Nat → List Char → Option (List Value × List Char)
  | 0, _, _ => none
  | fuel + 1, depth, cs => do
    match ← skipGap fuel cs with
    | ']' :: rest => return ([], rest)
    | cs =>
      let (item, rest) ← readValue fuel depth cs
      match ← skipGap fuel rest with
      | ',' :: rest =>
        let (items, rest) ← readItems fuel depth rest
        return (item :: items, rest)
      | ']' :: rest => return ([item], rest)
      | _ => none

def readEntries : Nat → Nat → List Char → Option (List Statement × List Char)
  | 0, _, _ => none
  | fuel + 1, depth, cs => do
    let (key, rest) ← readKey cs
    let rest ← skipWord ['='] rest
    let (value, rest) ← readValue fuel depth (skipSpace rest)
    match skipSpace rest with
    | ',' :: rest =>
      let (statements, rest) ← readEntries fuel depth rest
      return (.assign key value :: statements, rest)
    | '\x7d' :: rest => return ([.assign key value], rest)
    | _ => none

end

def readLineEnd (cs : List Char) : Option (List Char) :=
  match skipComment (skipSpace cs) with
  | [] => some []
  | rest => readNewline rest

def readStatement (cs : List Char) : Option (Statement × List Char) :=
  match cs with
  | '[' :: '[' :: rest => do
    let (key, rest) ← readKey rest
    let rest ← skipWord [']', ']'] rest
    return (.arrayHeader key, rest)
  | '[' :: rest => do
    let (key, rest) ← readKey rest
    let rest ← skipWord [']'] rest
    return (.header key, rest)
  | cs => do
    let (key, rest) ← readKey cs
    let rest ← skipWord ['='] rest
    let (value, rest) ← readValue (2 * rest.length + 2) 0 (skipSpace rest)
    return (.assign key value, rest)

def readStatements : Nat → List Char → Option (List Statement)
  | 0, _ => none
  | fuel + 1, cs =>
    match skipSpace cs with
    | [] => some []
    | '#' :: rest => do readStatements fuel (← readLineEnd ('#' :: rest))
    | c :: rest =>
      match readNewline (c :: rest) with
      | some rest => readStatements fuel rest
      | none => do
        let (statement, rest) ← readStatement (c :: rest)
        let statements ← readStatements fuel (← readLineEnd rest)
        return statement :: statements

/-- The table that a text describes; `none` if it is no TOML. A byte order mark in front is skipped.
-/
def read? (text : String) : Option Config.Table := do
  let cs :=
    match text.toList with
    | '\ufeff' :: cs => cs
    | cs => cs
  tableOf? (← readStatements (cs.length + 1) cs)

end LiteralLint.Toml
