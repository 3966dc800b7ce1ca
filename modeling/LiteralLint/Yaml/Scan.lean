import LiteralLint.Yaml.Scalar

/-! # Splitting a YAML text into tokens

Blocks are made explicit: the indentation of the text becomes tokens that open and close them. What
may turn out to be a key is remembered as a place among the tokens, and the tokens that say so are
put there once the colon behind it is found. -/

set_option autoImplicit false

namespace LiteralLint.Yaml

/-- A place among the tokens where a key may begin. A required one must turn out to be a key. -/
structure KeyCandidate where
  token : Nat
  required : Bool
  index : Nat
  line : Nat
  column : Nat

/-- `indent` is the column of the innermost block, `-1` outside of any, and `outer` holds those
around it. `candidates` has an entry for each bracket that is open, and one for the text around
them. -/
structure Scanner where
  place : Place
  tokens : Array Token := #[]
  indent : Int := -1
  outer : List Int := []
  keyAllowed : Bool := true
  candidate : Option KeyCandidate := none
  candidates : List (Option KeyCandidate) := []

namespace Scanner

def inFlow (s : Scanner) : Bool := !s.candidates.isEmpty

def push (s : Scanner) (t : Token) : Scanner := { s with tokens := s.tokens.push t }

def insert (s : Scanner) (position : Nat) (t : Token) : Scanner :=
  let before := s.tokens.extract 0 position
  { s with tokens := before.push t ++ s.tokens.extract position s.tokens.size }

/-- Leaves out blanks, comments and line ends. In front of a possible key tabs are not left out. -/
def skipGap : Nat → Scanner → Scanner
  | 0, s => s
  | fuel + 1, s =>
    let blank (c : Char) := c == ' ' || (c == '\t' && (s.inFlow || !s.keyAllowed))
    let p := s.place.skip (s.place.rest.takeWhile blank).length
    let p := if p.head? = some '#' then p.skipLine else p
    if p.head?.any isBreak then
      skipGap fuel { s with place := p.takeBreak.2, keyAllowed := s.keyAllowed || !s.inFlow }
    else { s with place := p }

def greatestKeyLength : Nat := 1024

def isStale (s : Scanner) (k : KeyCandidate) : Bool :=
  k.line < s.place.line || k.index + greatestKeyLength < s.place.index

def refresh? (s : Scanner) : Option KeyCandidate → Option (Option KeyCandidate)
  | none => some none
  | some k => if s.isStale k then if k.required then none else some none else some (some k)

def dropStale (s : Scanner) : Option Scanner := do
  let candidate ← s.refresh? s.candidate
  let candidates ← s.candidates.mapM s.refresh?
  return { s with candidate, candidates }

def dropCandidate (s : Scanner) : Option Scanner :=
  if s.candidate.any (·.required) then none else some { s with candidate := none }

def saveCandidate (s : Scanner) : Option Scanner :=
  if s.keyAllowed then do
    let s ← s.dropCandidate
    let p := s.place
    return { s with
      candidate := some
        { token := s.tokens.size
          required := !s.inFlow && s.indent == p.column
          index := p.index
          line := p.line
          column := p.column } }
  else some s

def closeBlocks (column : Int) (s : Scanner) : Scanner :=
  if s.inFlow then s else close s.outer s
where
  close : List Int → Scanner → Scanner
    | [], s => s
    | indent :: outer, s =>
      if s.indent > column then close outer { s.push .blockEnd with indent, outer } else s

def openBlock (s : Scanner) (column : Nat) (position : Nat) (t : Token) : Scanner :=
  if s.inFlow ∨ (column : Int) ≤ s.indent then s
  else { s.insert position t with indent := column, outer := s.indent :: s.outer }

def skip (s : Scanner) (n : Nat) : Scanner := { s with place := s.place.skip n }

def take (s : Scanner) (n : Nat) (t : Token) (keyAllowed : Bool) : Scanner :=
  { (s.push t).skip n with keyAllowed }

def openFlow (s : Scanner) (t : Token) : Option Scanner := do
  let s ← s.saveCandidate
  let s := { s with candidate := none, candidates := s.candidate :: s.candidates }
  return s.take 1 t true

def closeFlow (s : Scanner) (t : Token) : Option Scanner := do
  let s ← s.dropCandidate
  let s :=
    match s.candidates with
    | candidate :: candidates => { s with candidate, candidates }
    | [] => s
  return s.take 1 t false

def blockMark (s : Scanner) (block t : Token) (keyAllowed : Bool) : Option Scanner := do
  guard (s.inFlow ∨ s.keyAllowed)
  let s ← (s.openBlock s.place.column s.tokens.size block).dropCandidate
  return s.take 1 t keyAllowed

/-- A colon. If a key was possible in front of it, the tokens for that key are put there. -/
def valueMark (s : Scanner) : Option Scanner :=
  match s.candidate with
  | some k =>
    let s := { s.insert k.token .key with candidate := none }
    some ((s.openBlock k.column k.token .blockMappingStart).take 1 .value false)
  | none => do
    guard (s.inFlow ∨ s.keyAllowed)
    let s := s.openBlock s.place.column s.tokens.size .blockMappingStart
    return s.take 1 .value !s.inFlow

def isNameChar (c : Char) : Bool := c.isAlphanum || c == '_' || c == '-'

def anchorEnds (c : Option Char) : Bool :=
  endsWord c || c.any (['?', ':', ',', ']', '\x7d', '%', '@', '\x60'].contains ·)

def name (s : Scanner) (t : String → Token) : Option Scanner := do
  let s ← s.saveCandidate
  let p := s.place.skip 1
  let name := p.rest.takeWhile isNameChar
  let p := p.skip name.length
  guard (!name.isEmpty && anchorEnds p.head?)
  return { s.push (t (String.ofList name)) with place := p, keyAllowed := false }

def isTagChar (c : Char) : Bool :=
  let marks :=
    [';', '/', '?', ':', '@', '&', '=', '+', '$', '.', '%', '!', '~', '*', '\'', '(', ')']
  isNameChar c || marks.contains c

def decodeTag (cs : List Char) : Option (List Char) := do
  let bytes ← decodeBytes cs
  let text ← String.fromUTF8? ⟨bytes.toArray⟩
  return text.toList
where
  decodeBytes : List Char → Option (List UInt8)
    | '%' :: a :: b :: rest => do
      let byte ← Text.natural? 16 [a, b]
      return UInt8.ofNat byte :: (← decodeBytes rest)
    | '%' :: _ => none
    | c :: rest => do return String.utf8EncodeChar c ++ (← decodeBytes rest)
    | [] => some []

/-- A tag: between angle brackets, or a handle and a suffix. -/
def readTag (p : Place) : Option (String × String × Place) := do
  if p.at? 1 = some '<' then
    let p := p.skip 2
    let uri := p.rest.takeWhile fun c => isTagChar c || [',', '[', ']'].contains c
    let p := p.skip uri.length
    guard (!uri.isEmpty && p.head? == some '>')
    return ("", String.ofList (← decodeTag uri), p.skip 1)
  else
    let p := p.skip 1
    let handle := p.rest.takeWhile isNameChar
    let afterHandle := p.skip handle.length
    if afterHandle.head? = some '!' then
      let p := afterHandle.skip 1
      let suffix := p.rest.takeWhile isTagChar
      guard !suffix.isEmpty
      return (String.ofList ('!' :: handle ++ ['!']), String.ofList (← decodeTag suffix),
        p.skip suffix.length)
    else
      let suffix := afterHandle.rest.takeWhile isTagChar
      let p := afterHandle.skip suffix.length
      let suffix := handle ++ (← decodeTag suffix)
      if suffix.isEmpty then return ("", "!", p) else return ("!", String.ofList suffix, p)

def tag (s : Scanner) : Option Scanner := do
  let s ← s.saveCandidate
  let (handle, suffix, p) ← readTag s.place
  guard ((s.inFlow && p.head? == some ',') || endsWord p.head?)
  return { s.push (.tag handle suffix) with place := p, keyAllowed := false }

def block (s : Scanner) (fuel : Nat) (literal : Bool) : Option Scanner := do
  let s ← s.dropCandidate
  let (text, place) ← readBlock fuel literal s.indent (s.place.skip 1)
  return { s.push (.scalar text false) with place, keyAllowed := true }

def quoted (s : Scanner) (fuel : Nat) (single : Bool) : Option Scanner := do
  let s ← s.saveCandidate
  let (text, place) ← readQuoted fuel single (s.place.skip 1)
  return { s.push (.scalar text false) with place, keyAllowed := false }

def plain (s : Scanner) (fuel : Nat) : Option Scanner := do
  let s ← s.saveCandidate
  let (text, broken, place) ← readPlain fuel s.inFlow (s.indent + 1) s.place
  return { s.push (.scalar text true) with place, keyAllowed := broken }

def outermost (s : Scanner) : Option Scanner := do
  let s ← (s.closeBlocks (-1)).dropCandidate
  return { s with keyAllowed := false }

def readNumber (p : Place) : Option (Nat × Place) := do
  let ds := p.rest.takeWhile Char.isDigit
  guard (!ds.isEmpty && ds.length < 10)
  return (Text.ofDigits 10 ds, p.skip ds.length)

def readHandle (p : Place) : Option (String × Place) := do
  guard (p.head? = some '!')
  let name := (p.skip 1).rest.takeWhile isNameChar
  let after := p.skip (1 + name.length)
  if after.head? = some '!' then
    return (String.ofList ('!' :: name ++ ['!']), after.skip 1)
  else
    guard name.isEmpty
    return ("!", after)

def directive (s : Scanner) : Option Scanner := do
  let s ← s.outermost
  let p := s.place.skip 1
  let name := p.rest.takeWhile isNameChar
  let p := p.skip name.length
  guard (!name.isEmpty && endsWord p.head?)
  let (t, p) ←
    if name = ['Y', 'A', 'M', 'L'] then do
      let (major, p) ← readNumber p.skipSpaces
      guard (p.head? = some '.')
      let (minor, p) ← readNumber (p.skip 1)
      some (Token.version major minor, p)
    else if name = ['T', 'A', 'G'] then do
      let (handle, p) ← readHandle p.skipSpaces
      guard (p.head?.any isSpace)
      let p := p.skipSpaces
      let uri := p.rest.takeWhile fun c => isTagChar c || [',', '[', ']'].contains c
      guard (!uri.isEmpty)
      let p := p.skip uri.length
      guard (endsWord p.head?)
      some (Token.tagDirective handle (String.ofList (← decodeTag uri)), p)
    else none
  let p := p.skipSpaces
  let p := if p.head? = some '#' then p.skipLine else p
  guard (endsLine p.head?)
  return { s.push t with place := p.takeBreak.2 }

def startsPlain (inFlow : Bool) (c : Char) (next : Option Char) : Bool :=
  let indicators := ['-', '?', ':', ',', '[', ']', '\x7b', '\x7d', '#', '&', '*', '!', '|', '>',
    '\'', '"', '%', '@', '\x60']
  !(endsWord (some c) || indicators.contains c)
    || (c == '-' && !next.any isSpace)
    || (!inFlow && (c == '?' || c == ':') && !endsWord next)

def token (s : Scanner) (fuel : Nat) (c : Char) : Option Scanner :=
  let next := s.place.at? 1
  if s.place.column = 0 ∧ c = '%' then s.directive
  else if s.place.atDocumentStart then do return (← s.outermost).take 3 .documentStart false
  else if s.place.atDocumentEnd then do return (← s.outermost).take 3 .documentEnd false
  else if c = '[' then s.openFlow .flowSequenceStart
  else if c = '\x7b' then s.openFlow .flowMappingStart
  else if c = ']' then s.closeFlow .flowSequenceEnd
  else if c = '\x7d' then s.closeFlow .flowMappingEnd
  else if c = ',' then do return (← s.dropCandidate).take 1 .flowEntry true
  else if c = '-' ∧ endsWord next then s.blockMark .blockSequenceStart .blockEntry true
  else if c = '?' ∧ (s.inFlow ∨ endsWord next) then s.blockMark .blockMappingStart .key !s.inFlow
  else if c = ':' ∧ (s.inFlow ∨ endsWord next) then s.valueMark
  else if c = '*' then s.name .alias
  else if c = '&' then s.name .anchor
  else if c = '!' then s.tag
  else if c = '|' ∧ !s.inFlow then s.block fuel true
  else if c = '>' ∧ !s.inFlow then s.block fuel false
  else if c = '\'' then s.quoted fuel true
  else if c = '"' then s.quoted fuel false
  else if startsPlain s.inFlow c next then s.plain fuel
  else none

def run : Nat → Scanner → Option (List Token)
  | 0, _ => none
  | fuel + 1, s => do
    let s ← (s.skipGap (fuel + 1)).dropStale
    let s := s.closeBlocks s.place.column
    match s.place.head? with
    | some c => run fuel (← s.token (fuel + 1) c)
    | none =>
      let p := s.place
      let line := if p.column = 0 then p.line else p.line + 1
      let s := { s with place := { p with line, column := 0 } }
      return (← s.outermost).tokens.toList

end Scanner

def Token.ofText? (cs : List Char) : Option (List Token) := do
  guard (cs.all isAdmitted)
  Scanner.run (cs.length + 1) { place := .ofText cs }

end LiteralLint.Yaml
