import LiteralLint.Text.Digits

/-! # JSON values and their text

Objects keep their members in order. All numbers that are written are integers. -/

set_option autoImplicit false

namespace LiteralLint

inductive Json where
  | null
  | bool (value : Bool)
  | int (value : Int)
  | str (value : String)
  | arr (items : List Json)
  | obj (members : List (String × Json))
deriving Repr, Inhabited

namespace Json

def strings (values : List String) : Json := .arr (values.map .str)

def optional {α : Type} (write : α → Json) : Option α → Json
  | none => .null
  | some a => write a

/-- A character within a string. Only quotes, backslashes and controls are escaped. -/
def writeChar (c : Char) : List Char :=
  match c with
  | '"' => ['\\', '"']
  | '\\' => ['\\', '\\']
  | '\x08' => ['\\', 'b']
  | '\t' => ['\\', 't']
  | '\n' => ['\\', 'n']
  | '\x0c' => ['\\', 'f']
  | '\r' => ['\\', 'r']
  | c => if c.toNat < 0x20 then ['\\', 'u'] ++ Text.hexadecimal4 c.toNat else [c]

def writeString (s : String) : List Char := '"' :: s.toList.flatMap writeChar ++ ['"']

def writeBool (b : Bool) : List Char :=
  if b then ['t', 'r', 'u', 'e'] else ['f', 'a', 'l', 's', 'e']

def writeNull : List Char := ['n', 'u', 'l', 'l']

mutual

def compactChars : Json → List Char
  | .null => writeNull
  | .bool b => writeBool b
  | .int n => Text.integer n
  | .str s => writeString s
  | .arr items => '[' :: compactItems items ++ [']']
  | .obj members => '\x7b' :: compactMembers members ++ ['\x7d']

def compactItems : List Json → List Char
  | [] => []
  | [item] => compactChars item
  | item :: items => compactChars item ++ ',' :: compactItems items

def compactMembers : List (String × Json) → List Char
  | [] => []
  | [(key, value)] => writeString key ++ ':' :: compactChars value
  | (key, value) :: members =>
    writeString key ++ ':' :: (compactChars value ++ ',' :: compactMembers members)

end

def compact (j : Json) : String := String.ofList j.compactChars

def newline (depth : Nat) : List Char := '\n' :: List.replicate (2 * depth) ' '

mutual

/-- The text with one item or member a line; empty arrays and objects stay on theirs. -/
def prettyChars (depth : Nat) : Json → List Char
  | .null => writeNull
  | .bool b => writeBool b
  | .int n => Text.integer n
  | .str s => writeString s
  | .arr [] => ['[', ']']
  | .arr items => '[' :: prettyItems (depth + 1) items ++ newline depth ++ [']']
  | .obj [] => ['\x7b', '\x7d']
  | .obj members => '\x7b' :: prettyMembers (depth + 1) members ++ newline depth ++ ['\x7d']

def prettyItems (depth : Nat) : List Json → List Char
  | [] => []
  | [item] => newline depth ++ prettyChars depth item
  | item :: items => newline depth ++ prettyChars depth item ++ ',' :: prettyItems depth items

def prettyMembers (depth : Nat) : List (String × Json) → List Char
  | [] => []
  | [(key, value)] => newline depth ++ writeString key ++ [':', ' '] ++ prettyChars depth value
  | (key, value) :: members =>
    newline depth ++ writeString key ++ [':', ' '] ++ prettyChars depth value
      ++ ',' :: prettyMembers depth members

end

def pretty (j : Json) : String := String.ofList (j.prettyChars 0)

end Json

end LiteralLint
