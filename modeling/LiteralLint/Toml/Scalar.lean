import LiteralLint.Config.Value
import LiteralLint.Number.Decimal
import LiteralLint.Text.Quotation

/-! # Scalars of TOML

Strings, numbers, truth values and dates, each read off the front of a text. -/

set_option autoImplicit false

namespace LiteralLint.Toml

open Config (Value)

abbrev Reader (α : Type) := List Char → Option (α × List Char)

def isSpace (c : Char) : Bool := c == ' ' || c == '\t'

def skipSpace (cs : List Char) : List Char := cs.dropWhile isSpace

def skipWord (word cs : List Char) : Option (List Char) :=
  if word.isPrefixOf cs then some (cs.drop word.length) else none

def readNewline : List Char → Option (List Char)
  | '\n' :: rest => some rest
  | '\r' :: '\n' :: rest => some rest
  | _ => none

def skipNewline (cs : List Char) : List Char := (readNewline cs).getD cs

def skipLines : List Char → List Char
  | '\n' :: rest => skipLines rest
  | '\r' :: '\n' :: rest => skipLines rest
  | c :: rest => if isSpace c then skipLines rest else c :: rest
  | [] => []

def readLiteral (cs : List Char) : Option (String × List Char) :=
  let body := cs.takeWhile fun c => Text.isPlain c && c != '\''
  match cs.drop body.length with
  | '\'' :: rest => some (String.ofList body, rest)
  | _ => none

/-- The quotes at the front of a string of several lines. Three of them close it, and up to two in
front of those belong to it. -/
def readQuotes (quote : Char) (cs : List Char) : List Char × Bool × List Char :=
  let count := min 5 (cs.takeWhile (· == quote)).length
  if count ≥ 3 then (List.replicate (count - 3) quote, true, cs.drop count)
  else (List.replicate count quote, false, cs.drop count)

/-- A string of several lines behind its opening quotes. In one with escapes a backslash at the end
of a line takes away the line end and all space behind it. -/
def readLinesFrom (quote : Char) (escapes : Bool) :
    Nat → List Char → Option (List Char × List Char)
  | 0, _ => none
  | _ + 1, [] => none
  | fuel + 1, c :: cs => do
    if c = quote then
      let (quotes, closed, rest) := readQuotes quote (c :: cs)
      if closed then return (quotes, rest)
      else
        let (text, rest) ← readLinesFrom quote escapes fuel rest
        return (quotes ++ text, rest)
    else if c = '\\' ∧ escapes then
      match readNewline (skipSpace cs) with
      | some rest => readLinesFrom quote escapes fuel (skipLines rest)
      | none =>
        let (c, rest) ← Text.readEscape cs
        let (text, rest) ← readLinesFrom quote escapes fuel rest
        return (c :: text, rest)
    else
      match readNewline (c :: cs) with
      | some rest =>
        let (text, rest) ← readLinesFrom quote escapes fuel rest
        return ('\n' :: text, rest)
      | none =>
        guard (Text.isPlain c)
        let (text, rest) ← readLinesFrom quote escapes fuel cs
        return (c :: text, rest)

def readLines (quote : Char) (escapes : Bool) (cs : List Char) : Option (String × List Char) := do
  let body := skipNewline cs
  let (text, rest) ← readLinesFrom quote escapes (body.length + 1) body
  return (String.ofList text, rest)

def readString : Reader String
  | '"' :: '"' :: '"' :: rest => readLines '"' true rest
  | '"' :: rest => Text.readQuoted rest
  | '\'' :: '\'' :: '\'' :: rest => readLines '\'' false rest
  | '\'' :: rest => readLiteral rest
  | _ => none

def readMoreDigits (isDigit : Char → Bool) : List Char → Option (List Char × List Char)
  | '_' :: d :: rest => do
    guard (isDigit d)
    let (ds, rest) ← readMoreDigits isDigit rest
    return (d :: ds, rest)
  | ['_'] => none
  | d :: rest =>
    if isDigit d then do
      let (ds, rest) ← readMoreDigits isDigit rest
      return (d :: ds, rest)
    else some ([], d :: rest)
  | [] => some ([], [])

def readDigits (isDigit : Char → Bool) : Reader (List Char)
  | d :: rest => do
    guard (isDigit d)
    let (ds, rest) ← readMoreDigits isDigit rest
    return (d :: ds, rest)
  | [] => none

def greatestInteger : Nat := Nat.pow 2 63 - 1

def readBased (base : Nat) (cs : List Char) : Option (Value × List Char) := do
  let (ds, rest) ← readDigits (Text.isDigitIn base) cs
  let n := Text.ofDigits base ds
  guard (n ≤ greatestInteger)
  return (.signed n, rest)

/-- A sign and decimal digits, which begin with a zero only if that is all of them. -/
def readWhole (cs : List Char) : Option (List Char × List Char) := do
  let (sign, rest) :=
    match cs with
    | '-' :: rest => (['-'], rest)
    | '+' :: rest => (['+'], rest)
    | rest => ([], rest)
  match rest with
  | '0' :: rest => return (sign ++ ['0'], rest)
  | rest =>
    let (ds, rest) ← readDigits Char.isDigit rest
    return (sign ++ ds, rest)

def readExponent (cs : List Char) : Option (List Char × List Char) := do
  match cs with
  | c :: rest =>
    guard (c = 'e' ∨ c = 'E')
    let (sign, rest) :=
      match rest with
      | '-' :: rest => (['-'], rest)
      | '+' :: rest => (['+'], rest)
      | rest => ([], rest)
    let (ds, rest) ← readDigits Char.isDigit rest
    return ('e' :: sign ++ ds, rest)
  | [] => none

/-- A number with a fraction or an exponent; one above every finite number is refused. -/
def readReal (cs : List Char) : Option (Value × List Char) := do
  let (whole, rest) ← readWhole cs
  let (fraction, rest) ←
    match rest with
    | '.' :: rest => do
      let (ds, rest) ← readDigits Char.isDigit rest
      some ('.' :: ds, rest)
    | rest => some ([], rest)
  let (exponent, rest) :=
    match readExponent rest with
    | some (exponent, rest) => (exponent, rest)
    | none => ([], rest)
  guard (fraction ≠ [] ∨ exponent ≠ [])
  let value ← Binary64.ofText? (whole ++ fraction ++ exponent)
  guard (value ≠ .infinite false)
  return (.real value, rest)

def readSpecial (cs : List Char) : Option (Value × List Char) :=
  let (negative, body) := Text.readSign cs
  match skipWord ['i', 'n', 'f'] body with
  | some rest => some (.real (.infinite negative), rest)
  | none => (skipWord ['n', 'a', 'n'] body).map fun rest => (.real .nan, rest)

def readInteger (cs : List Char) : Option (Value × List Char) := do
  match cs with
  | '0' :: 'x' :: rest => readBased 16 rest
  | '0' :: 'o' :: rest => readBased 8 rest
  | '0' :: 'b' :: rest => readBased 2 rest
  | cs =>
    let (text, rest) ← readWhole cs
    let n ← Text.integer? text
    guard (-(greatestInteger : Int) - 1 ≤ n ∧ n ≤ greatestInteger)
    return (.signed n, rest)

def readPart (count least greatest : Nat) (cs : List Char) : Option (Nat × List Char) := do
  let ds := cs.take count
  guard (ds.length = count)
  let n ← Text.natural? 10 ds
  guard (least ≤ n ∧ n ≤ greatest)
  return (n, cs.drop count)

def daysOfMonth (year month : Nat) : Nat :=
  if month = 2 then if year % 4 = 0 ∧ (year % 100 ≠ 0 ∨ year % 400 = 0) then 29 else 28
  else if month = 4 ∨ month = 6 ∨ month = 9 ∨ month = 11 then 30
  else 31

def skipDate (cs : List Char) : Option (List Char) := do
  let (year, rest) ← readPart 4 0 9999 cs
  let (month, rest) ← readPart 2 1 12 (← skipWord ['-'] rest)
  let (_, rest) ← readPart 2 1 (daysOfMonth year month) (← skipWord ['-'] rest)
  return rest

def skipTime (cs : List Char) : Option (List Char) := do
  let (_, rest) ← readPart 2 0 23 cs
  let (_, rest) ← readPart 2 0 59 (← skipWord [':'] rest)
  let (_, rest) ← readPart 2 0 60 (← skipWord [':'] rest)
  match rest with
  | '.' :: fraction =>
    if (fraction.takeWhile Char.isDigit).isEmpty then return rest
    else return fraction.dropWhile Char.isDigit
  | rest => return rest

def skipOffset (cs : List Char) : List Char :=
  match cs with
  | c :: rest =>
    if c = 'Z' ∨ c = 'z' then rest
    else if c = '+' ∨ c = '-' then
      let offset := do
        let (_, rest) ← readPart 2 0 23 rest
        let (_, rest) ← readPart 2 0 59 (← skipWord [':'] rest)
        return rest
      offset.getD cs
    else cs
  | [] => []

def skipMoment (cs : List Char) : Option (List Char) :=
  match skipDate cs with
  | none => skipTime cs
  | some rest =>
    match rest with
    | c :: time =>
      if c = 'T' ∨ c = 't' ∨ c = ' ' then
        match skipTime time with
        | some rest => some (skipOffset rest)
        | none => some rest
      else some rest
    | [] => some []

/-- The key of the table that a date or a time stands for. -/
def momentKey : String := "$__toml_private_datetime"

def readMoment (cs : List Char) : Option (Value × List Char) := do
  let rest ← skipMoment cs
  let text := String.ofList (cs.take (cs.length - rest.length))
  return (.table [(momentKey, .text text)], rest)

def readNumber (cs : List Char) : Option (Value × List Char) :=
  readMoment cs <|> readReal cs <|> readSpecial cs <|> readInteger cs

def readScalar (cs : List Char) : Option (Value × List Char) :=
  let word (w : List Char) (v : Value) := (skipWord w cs).map fun rest => (v, rest)
  match cs with
  | [] => none
  | c :: _ =>
    if c = '"' ∨ c = '\'' then (readString cs).map fun (s, rest) => (.text s, rest)
    else if c = 't' then word ['t', 'r', 'u', 'e'] (.bool true)
    else if c = 'f' then word ['f', 'a', 'l', 's', 'e'] (.bool false)
    else if c = 'i' ∨ c = 'n' then readSpecial cs
    else if c = '+' ∨ c = '-' ∨ c.isDigit then readNumber cs
    else none

end LiteralLint.Toml
