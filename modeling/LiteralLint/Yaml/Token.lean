/-! # Tokens of YAML

The tokens of a text, and the places in the text between them. -/

set_option autoImplicit false

namespace LiteralLint.Yaml

inductive Token where
  | version (major minor : Nat)
  | tagDirective (handle expansion : String)
  | documentStart
  | documentEnd
  | blockSequenceStart
  | blockMappingStart
  | blockEnd
  | flowSequenceStart
  | flowSequenceEnd
  | flowMappingStart
  | flowMappingEnd
  | blockEntry
  | flowEntry
  | key
  | value
  | alias (name : String)
  | anchor (name : String)
  | tag (handle suffix : String)
  | scalar (text : String) (plain : Bool)
deriving DecidableEq, Repr, Inhabited

/-- What is left of a text, with the number of characters in front of it, its line and its column.
-/
structure Place where
  rest : List Char
  index : Nat
  line : Nat
  column : Nat
deriving Repr

def isSpace (c : Char) : Bool := c == ' ' || c == '\t'

def isBreak (c : Char) : Bool :=
  c == '\n' || c == '\r' || c == '\x85' || c == '\u2028' || c == '\u2029'

def endsLine : Option Char → Bool
  | none => true
  | some c => isBreak c

def endsWord : Option Char → Bool
  | none => true
  | some c => isSpace c || isBreak c

def isAdmitted (c : Char) : Bool :=
  let n := c.toNat
  n == 0x9 || n == 0xa || n == 0xd || (0x20 ≤ n && n ≤ 0x7e) || n == 0x85
    || (0xa0 ≤ n && n ≤ 0xfffd && n ≠ 0xfeff) || 0x10000 ≤ n

namespace Place

def ofText (cs : List Char) : Place := ⟨cs, 0, 0, 0⟩

def head? (p : Place) : Option Char := p.rest.head?

def at? (p : Place) (n : Nat) : Option Char := p.rest[n]?

def skip (p : Place) (n : Nat) : Place := ⟨p.rest.drop n, p.index + n, p.line, p.column + n⟩

/-- Takes a line break. All but two kinds count as a line feed. -/
def takeBreak (p : Place) : List Char × Place :=
  match p.rest with
  | '\r' :: '\n' :: rest => (['\n'], ⟨rest, p.index + 2, p.line + 1, 0⟩)
  | c :: rest =>
    if isBreak c then
      (if c = '\u2028' ∨ c = '\u2029' then [c] else ['\n'], ⟨rest, p.index + 1, p.line + 1, 0⟩)
    else ([], p)
  | [] => ([], p)

def skipLine (p : Place) : Place := p.skip (p.rest.takeWhile (!isBreak ·)).length

def skipSpaces (p : Place) : Place := p.skip (p.rest.takeWhile isSpace).length

def startsWith (p : Place) (word : List Char) : Bool := word.isPrefixOf p.rest

def atMarker (p : Place) (marker : List Char) : Bool :=
  p.column == 0 && p.startsWith marker && endsWord (p.at? marker.length)

def atDocumentStart (p : Place) : Bool := p.atMarker ['-', '-', '-']

def atDocumentEnd (p : Place) : Bool := p.atMarker ['.', '.', '.']

def atDocumentMarker (p : Place) : Bool := p.atDocumentStart || p.atDocumentEnd

end Place

end LiteralLint.Yaml
