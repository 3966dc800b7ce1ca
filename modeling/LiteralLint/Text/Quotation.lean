import LiteralLint.Text.Classes
import LiteralLint.Text.Digits

/-! # Quoted text

Texts quoted in messages stand between double quotes. The quote, the backslash and every character
that would not show are written as escapes. In quoted settings, a backslash and a letter stand for a
character that cannot be written as itself, or a backslash, a `u` and four hexadecimal digits, or a
`U` and eight of them, for any character by its code point. -/

set_option autoImplicit false

namespace LiteralLint.Text

/-! ## Writing -/

def quotedChar (c : Char) : List Char :=
  match c with
  | '"' => ['\\', '"']
  | '\\' => ['\\', '\\']
  | '\t' => ['\\', 't']
  | '\n' => ['\\', 'n']
  | '\r' => ['\\', 'r']
  | '\x00' => ['\\', '0']
  | c =>
    if isUnprintable c then ['\\', 'u', '\x7b'] ++ hexadecimal c.toNat ++ ['\x7d'] else [c]

def quoted (text : String) : String :=
  String.ofList ('"' :: text.toList.flatMap quotedChar ++ ['"'])

def quotedList (texts : List String) : String :=
  "[" ++ ", ".intercalate (texts.map quoted) ++ "]"

/-! ## Reading -/

def scalar? (code : Nat) : Option Char :=
  if _h : code.isValidChar then some (Char.ofNat code) else none

def readCodePoint (count : Nat) (cs : List Char) : Option (Char × List Char) := do
  let ds := cs.take count
  guard (ds.length = count)
  let code ← natural? 16 ds
  return (← scalar? code, cs.drop count)

def readEscape : List Char → Option (Char × List Char)
  | '"' :: rest => some ('"', rest)
  | '\\' :: rest => some ('\\', rest)
  | 'b' :: rest => some ('\x08', rest)
  | 'f' :: rest => some ('\x0c', rest)
  | 'n' :: rest => some ('\n', rest)
  | 'r' :: rest => some ('\r', rest)
  | 't' :: rest => some ('\t', rest)
  | 'u' :: rest => readCodePoint 4 rest
  | 'U' :: rest => readCodePoint 8 rest
  | _ => none

/-- Whether a character may stand in a quoted setting as itself: tabs may, other controls may not.
-/
def isPlain (c : Char) : Bool := c == '\t' || (0x20 ≤ c.toNat && c.toNat ≠ 0x7f)

def readQuotedFrom (fuel : Nat) (cs : List Char) : Option (List Char × List Char) :=
  match fuel, cs with
  | _ + 1, '"' :: rest => some ([], rest)
  | fuel + 1, '\\' :: rest => do
    let (c, rest) ← readEscape rest
    let (text, rest) ← readQuotedFrom fuel rest
    return (c :: text, rest)
  | fuel + 1, c :: rest => do
    guard (isPlain c)
    let (text, rest) ← readQuotedFrom fuel rest
    return (c :: text, rest)
  | _, _ => none

def readQuoted (cs : List Char) : Option (String × List Char) := do
  let (text, rest) ← readQuotedFrom (cs.length + 1) cs
  return (String.ofList text, rest)

end LiteralLint.Text
