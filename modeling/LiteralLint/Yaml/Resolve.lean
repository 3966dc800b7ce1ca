import LiteralLint.Config.Value
import LiteralLint.Number.Decimal

/-! # What plain YAML scalars stand for

A plain scalar is nothing, a truth value, a number or itself. Digits behind a leading zero are no
number, and integers may be as wide as 128 bits. -/

set_option autoImplicit false

namespace LiteralLint.Yaml

open Config (Value)

def isNull (text : String) : Bool := ["null", "Null", "NULL", "~"].contains text

def truth? (text : String) : Option Bool :=
  if ["true", "True", "TRUE"].contains text then some true
  else if ["false", "False", "FALSE"].contains text then some false
  else none

def hasLeadingZero (cs : List Char) : Bool :=
  match (Text.readSign cs).2 with
  | '0' :: ds => !ds.isEmpty && ds.all Char.isDigit
  | _ => false

/-- An integer behind its sign, in the base that it names or in base ten. -/
def magnitude? : List Char → Option Nat
  | '0' :: 'x' :: ds => Text.natural? 16 ds
  | '0' :: 'o' :: ds => Text.natural? 8 ds
  | '0' :: 'b' :: ds => Text.natural? 2 ds
  | ds => Text.natural? 10 ds

def integer? (cs : List Char) : Option Value := do
  guard !hasLeadingZero cs
  let (negative, ds) := Text.readSign cs
  let n ← magnitude? ds
  if negative then
    if n ≤ Nat.pow 2 63 then return .signed (-n)
    else
      guard (n ≤ Nat.pow 2 127)
      return .wide (-n)
  else if n < Nat.pow 2 64 then return .unsigned n
  else
    guard (n < Nat.pow 2 128)
    return .wide n

def real? (text : String) : Option Binary64 :=
  let unsigned := if text.startsWith "+" then (text.drop 1).toString else text
  if text.startsWith "+" ∧ (unsigned.startsWith "+" ∨ unsigned.startsWith "-") then none
  else if [".inf", ".Inf", ".INF"].contains unsigned then some (.infinite false)
  else if ["-.inf", "-.Inf", "-.INF"].contains text then some (.infinite true)
  else if [".nan", ".NaN", ".NAN"].contains text then some .nan
  else (Binary64.ofText? unsigned.toList).filter Binary64.isFinite

def resolvePlain (text : String) : Value :=
  let cs := text.toList
  if text.isEmpty ∨ isNull text then .unit
  else
    match truth? text, integer? cs with
    | some b, _ => .bool b
    | none, some n => n
    | none, none =>
      if hasLeadingZero cs then .text text
      else
        match real? text with
        | some f => .real f
        | none => .text text

def coreTag (name : String) : String := "tag:yaml.org,2002:" ++ name

def localTag? (tag : String) : Option String :=
  if tag.startsWith "!" then some (tag.drop 1).toString else none

/-- The value of a scalar. A core tag asks for a value of its type; a tag of the document's own
makes a table with one entry, under the name of the tag. -/
def resolve? (tag : Option String) (text : String) (plain : Bool) : Option Value :=
  let untagged := if plain then resolvePlain text else .text text
  match tag with
  | none => some untagged
  | some tag =>
    if tag = coreTag "bool" then (truth? text).map .bool
    else if tag = coreTag "int" then integer? text.toList
    else if tag = coreTag "float" then (real? text).map .real
    else if tag = coreTag "null" then if isNull text then some .unit else none
    else
      match localTag? tag with
      | some name => some (.table [(name, untagged)])
      | none => some (.text text)

end LiteralLint.Yaml
