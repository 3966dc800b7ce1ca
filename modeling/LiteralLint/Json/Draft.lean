import LiteralLint.Json.Number

/-! # JSON texts as far as they can be read

A text is read into a draft: the values it holds up to its first fault, in the order of the text. A
draft of a faultless text is a complete value. Strings and numbers are kept even where their content
has no value, so that a part that is not looked at need not make sense. -/

set_option autoImplicit false

namespace LiteralLint.Json

/-- `string none` is a string with half of a surrogate pair, `faulty` a value that cannot be read.
`closed` says whether the closing bracket was reached. -/
inductive Draft where
  | null
  | bool (value : Bool)
  | number (numeral : Numeral)
  | string (value : Option String)
  | array (items : List Draft) (closed : Bool)
  | object (members : List (Option String × Draft)) (closed : Bool)
  | faulty
deriving Repr, Inhabited

/-- Arrays and objects are nested less deeply than this where all of a text is read. -/
def depthLimit : Nat := 128

/-- What a step read, and what follows it; nothing follows a fault. -/
structure Reading (α : Type) where
  value : α
  rest : Option (List Char)

def isSpace (c : Char) : Bool := c == ' ' || c == '\n' || c == '\t' || c == '\r'

def skipSpace (cs : List Char) : List Char := cs.dropWhile isSpace

inductive CodeUnit where
  | high (value : Nat)
  | low (value : Nat)
  | whole (c : Char)
deriving DecidableEq, Repr

def CodeUnit.ofNat (n : Nat) : CodeUnit :=
  if 0xD800 ≤ n ∧ n < 0xDC00 then .high n
  else if 0xDC00 ≤ n ∧ n < 0xE000 then .low n
  else .whole (Char.ofNat n)

def joinUnits : List CodeUnit → Option (List Char)
  | [] => some []
  | .whole c :: units => (joinUnits units).map (c :: ·)
  | .high h :: .low l :: units =>
    (joinUnits units).map (Char.ofNat (0x10000 + (h - 0xD800) * 0x400 + (l - 0xDC00)) :: ·)
  | _ :: _ => none

def simpleEscape? : Char → Option Char
  | '"' => some '"'
  | '\\' => some '\\'
  | '/' => some '/'
  | 'b' => some '\x08'
  | 'f' => some '\x0c'
  | 'n' => some '\n'
  | 'r' => some '\r'
  | 't' => some '\t'
  | _ => none

def readUnits : List Char → Option (List CodeUnit × List Char)
  | '"' :: rest => some ([], rest)
  | '\\' :: 'u' :: a :: b :: c :: d :: rest => do
    let code ← Text.natural? 16 [a, b, c, d]
    let (units, rest) ← readUnits rest
    return (.ofNat code :: units, rest)
  | '\\' :: e :: rest => do
    let c ← simpleEscape? e
    let (units, rest) ← readUnits rest
    return (.whole c :: units, rest)
  | c :: rest => do
    guard (0x20 ≤ c.toNat ∧ c ≠ '\\')
    let (units, rest) ← readUnits rest
    return (.whole c :: units, rest)
  | [] => none

def readString (cs : List Char) : Option (Option String × List Char) := do
  let (units, rest) ← readUnits cs
  return ((joinUnits units).map String.ofList, rest)

def readDigits (cs : List Char) : Option (List Char × List Char) :=
  match cs.takeWhile Char.isDigit with
  | [] => none
  | ds => some (ds, cs.dropWhile Char.isDigit)

def readFraction : List Char → Option (Option (List Char) × List Char)
  | '.' :: rest => do
    let (ds, rest) ← readDigits rest
    return (some ds, rest)
  | rest => some (none, rest)

def readExponent (cs : List Char) : Option (Option Int × List Char) :=
  let digits (sign : Int) (rest : List Char) := do
    let (ds, rest) ← readDigits rest
    return (some (sign * (Text.ofDigits 10 ds : Int)), rest)
  match cs with
  | c :: rest =>
    if c = 'e' ∨ c = 'E' then
      match rest with
      | '+' :: rest => digits 1 rest
      | '-' :: rest => digits (-1) rest
      | rest => digits 1 rest
    else some (none, cs)
  | [] => some (none, cs)

/-- Reads a number behind its sign. No digit stands in front of another unless it is above zero. -/
def readNumeral (negative : Bool) (cs : List Char) : Option (Numeral × List Char) := do
  let (whole, rest) ← readDigits cs
  guard (whole.length = 1 ∨ whole.head? ≠ some '0')
  let (fraction, rest) ← readFraction rest
  let (exponent, rest) ← readExponent rest
  return (⟨negative, whole, fraction, exponent⟩, rest)

def readWord (word : List Char) (value : Draft) (cs : List Char) : Reading Draft :=
  if word.isPrefixOf cs then ⟨value, some (cs.drop word.length)⟩ else ⟨.faulty, none⟩

def readScalar (cs : List Char) : Reading Draft :=
  let numeral (negative : Bool) (rest : List Char) : Reading Draft :=
    match readNumeral negative rest with
    | some (n, rest) => ⟨.number n, some rest⟩
    | none => ⟨.faulty, none⟩
  match cs with
  | 'n' :: _ => readWord ['n', 'u', 'l', 'l'] .null cs
  | 't' :: _ => readWord ['t', 'r', 'u', 'e'] (.bool true) cs
  | 'f' :: _ => readWord ['f', 'a', 'l', 's', 'e'] (.bool false) cs
  | '"' :: rest =>
    match readString rest with
    | some (s, rest) => ⟨.string s, some rest⟩
    | none => ⟨.faulty, none⟩
  | '-' :: rest => numeral true rest
  | cs => numeral false cs

mutual

def readValue : Nat → List Char → Reading Draft
  | 0, _ => ⟨.faulty, none⟩
  | fuel + 1, cs =>
    match skipSpace cs with
    | '[' :: rest =>
      match skipSpace rest with
      | ']' :: rest => ⟨.array [] true, some rest⟩
      | rest =>
        let r := readItems fuel rest
        ⟨.array r.value r.rest.isSome, r.rest⟩
    | '\x7b' :: rest =>
      match skipSpace rest with
      | '\x7d' :: rest => ⟨.object [] true, some rest⟩
      | rest =>
        let r := readMembers fuel rest
        ⟨.object r.value r.rest.isSome, r.rest⟩
    | cs => readScalar cs

def readItems : Nat → List Char → Reading (List Draft)
  | 0, _ => ⟨[], none⟩
  | fuel + 1, cs =>
    match skipSpace cs with
    | ']' :: _ => ⟨[], none⟩
    | cs =>
      let item := readValue fuel cs
      match item.rest.map skipSpace with
      | some (',' :: rest) =>
        let items := readItems fuel rest
        ⟨item.value :: items.value, items.rest⟩
      | some (']' :: rest) => ⟨[item.value], some rest⟩
      | _ => ⟨[item.value], none⟩

def readMembers : Nat → List Char → Reading (List (Option String × Draft))
  | 0, _ => ⟨[], none⟩
  | fuel + 1, cs =>
    match skipSpace cs with
    | '"' :: rest =>
      match readString rest with
      | none => ⟨[], none⟩
      | some (key, rest) =>
        match skipSpace rest with
        | ':' :: rest =>
          let value := readValue fuel rest
          match value.rest.map skipSpace with
          | some (',' :: rest) =>
            let members := readMembers fuel rest
            ⟨(key, value.value) :: members.value, members.rest⟩
          | some ('\x7d' :: rest) => ⟨[(key, value.value)], some rest⟩
          | _ => ⟨[(key, value.value)], none⟩
        | _ => ⟨[(key, .faulty)], none⟩
    | _ => ⟨[], none⟩

end

/-- A whole text. `complete` says that one value was read and that nothing but space follows it. -/
structure Document where
  root : Draft
  complete : Bool
deriving Repr

def read (text : List Char) : Document :=
  let r := readValue (2 * text.length + 1) text
  ⟨r.value, match r.rest with
    | some rest => (skipSpace rest).isEmpty
    | none => false⟩

end LiteralLint.Json
