import LiteralLint.Text.Quotation
import LiteralLint.Yaml.Token

/-! # Scalars of YAML

Plain, quoted and block scalars. In the first two a line break within the text becomes a blank, and
of several in a row all but the first stay. Readers are given a bound on the characters that are
left. -/

set_option autoImplicit false

namespace LiteralLint.Yaml

/-- Blanks and line breaks between two words of a scalar: the blanks of the first line, the first
line break and the others. -/
structure Gap where
  spaces : List Char := []
  first : Option (List Char) := none
  others : List Char := []

namespace Gap

def hasBreak (g : Gap) : Bool := g.first.isSome

def text (g : Gap) : List Char :=
  match g.first with
  | none => g.spaces
  | some first =>
    if first = ['\n'] then if g.others.isEmpty then [' '] else g.others else first ++ g.others

/-- Reads on from a gap. A tab must not stand in front of column `indent` behind a line break. -/
def read (indent : Int) : Nat → Gap → Place → Option (Gap × Place)
  | 0, _, _ => none
  | fuel + 1, g, p =>
    match p.head? with
    | none => some (g, p)
    | some c =>
      if isSpace c then
        if g.hasBreak then
          if c = '\t' ∧ (p.column : Int) < indent then none else read indent fuel g (p.skip 1)
        else read indent fuel { g with spaces := g.spaces ++ [c] } (p.skip 1)
      else if isBreak c then
        let (lineBreak, p) := p.takeBreak
        if g.hasBreak then read indent fuel { g with others := g.others ++ lineBreak } p
        else read indent fuel { first := some lineBreak } p
      else some (g, p)

end Gap

def isFlowIndicator (c : Char) : Bool :=
  c == ',' || c == '[' || c == ']' || c == '\x7b' || c == '\x7d'

/-- A word of a plain scalar, up to a blank or an indicator that ends it. Within brackets a colon
must not stand in front of another indicator. -/
def plainWord (inFlow : Bool) : List Char → Option (List Char)
  | [] => some []
  | c :: rest =>
    if endsWord (some c) then some []
    else if inFlow ∧ c = ':' ∧ rest.head?.any (fun d => isFlowIndicator d || d == '?') then none
    else if c = ':' ∧ endsWord rest.head? ∨ inFlow ∧ isFlowIndicator c then some []
    else (plainWord inFlow rest).map (c :: ·)

def readPlainFrom (inFlow : Bool) (indent : Int) :
    Nat → List Char → Gap → Place → Option (List Char × Bool × Place)
  | 0, _, _, _ => none
  | fuel + 1, text, gap, p =>
    if p.atDocumentMarker ∨ p.head? = some '#' then some (text, gap.hasBreak, p)
    else
      match plainWord inFlow p.rest with
      | none => none
      | some [] => some (text, gap.hasBreak, p)
      | some word =>
        let text := text ++ gap.text ++ word
        let p := p.skip word.length
        if p.rest.isEmpty ∨ !endsWord p.head? then some (text, false, p)
        else
          match Gap.read indent (fuel + 1) {} p with
          | none => none
          | some (gap, p) =>
            if !inFlow ∧ (p.column : Int) < indent then some (text, gap.hasBreak, p)
            else readPlainFrom inFlow indent fuel text gap p

def readPlain (fuel : Nat) (inFlow : Bool) (indent : Int) (p : Place) :
    Option (String × Bool × Place) := do
  let (text, broken, p) ← readPlainFrom inFlow indent fuel [] {} p
  return (String.ofList text, broken, p)

inductive RunEnd where
  | quote
  | gap
  | escapedBreak

def simpleEscape? : Char → Option Char
  | '0' => some '\x00'
  | 'a' => some '\x07'
  | 'b' => some '\x08'
  | 't' => some '\t'
  | '\t' => some '\t'
  | 'n' => some '\n'
  | 'v' => some '\x0b'
  | 'f' => some '\x0c'
  | 'r' => some '\r'
  | 'e' => some '\x1b'
  | ' ' => some ' '
  | '"' => some '"'
  | '/' => some '/'
  | '\\' => some '\\'
  | 'N' => some '\x85'
  | '_' => some '\xa0'
  | 'L' => some '\u2028'
  | 'P' => some '\u2029'
  | _ => none

def codeLength? : Char → Option Nat
  | 'x' => some 2
  | 'u' => some 4
  | 'U' => some 8
  | _ => none

def quotedRun (single : Bool) : Nat → List Char → Option (List Char × Nat × RunEnd)
  | 0, _ => none
  | _ + 1, [] => some ([], 0, .gap)
  | fuel + 1, c :: rest =>
    let more (c : Char) (n : Nat) (rest : List Char) := do
      let (text, count, stop) ← quotedRun single fuel rest
      some (c :: text, n + count, stop)
    if endsWord (some c) then some ([], 0, .gap)
    else if single then
      if c = '\'' then
        match rest with
        | '\'' :: rest => more '\'' 2 rest
        | _ => some ([], 0, .quote)
      else more c 1 rest
    else if c = '"' then some ([], 0, .quote)
    else if c = '\\' then
      match rest with
      | [] => none
      | e :: rest =>
        if isBreak e then some ([], 1, .escapedBreak)
        else
          match simpleEscape? e, codeLength? e with
          | some c, _ => more c 2 rest
          | none, some n =>
            match Text.readCodePoint n rest with
            | some (c, rest) => more c (2 + n) rest
            | none => none
          | none, none => none
    else more c 1 rest

def readQuotedFrom (single : Bool) : Nat → List Char → Place → Option (List Char × Place)
  | 0, _, _ => none
  | fuel + 1, text, p =>
    if p.atDocumentMarker ∨ p.rest.isEmpty then none
    else do
      let (run, count, stop) ← quotedRun single (fuel + 1) p.rest
      let p := p.skip count
      let text := text ++ run
      match stop with
      | .quote => return (text, p.skip 1)
      | .gap =>
        let (gap, p) ← Gap.read 0 (fuel + 1) {} p
        readQuotedFrom single fuel (text ++ gap.text) p
      | .escapedBreak =>
        let (gap, p) ← Gap.read 0 (fuel + 1) { first := some [] } p.takeBreak.2
        readQuotedFrom single fuel (text ++ gap.text) p

def readQuoted (fuel : Nat) (single : Bool) (p : Place) : Option (String × Place) := do
  let (text, p) ← readQuotedFrom single fuel [] p
  return (String.ofList text, p)

inductive Chomping where
  | strip
  | clip
  | keep
deriving DecidableEq

def readChomping (p : Place) : Option Chomping × Place :=
  match p.head? with
  | some '+' => (some .keep, p.skip 1)
  | some '-' => (some .strip, p.skip 1)
  | _ => (none, p)

def readIncrement (p : Place) : Option (Option Nat × Place) :=
  match p.head? with
  | some c =>
    if c = '0' then none
    else if c.isDigit then some (some (c.toNat - 48), p.skip 1)
    else some (none, p)
  | none => some (none, p)

def readIndicators (p : Place) : Option (Chomping × Option Nat × Place) := do
  match readChomping p with
  | (some chomping, p) =>
    let (increment, p) ← readIncrement p
    return (chomping, increment, p)
  | (none, p) =>
    let (increment, p) ← readIncrement p
    match increment with
    | none => return (.clip, none, p)
    | some n =>
      let (chomping, p) := readChomping p
      return (chomping.getD .clip, some n, p)

/-- Takes empty lines and the indentation of the next line, at most `indent` columns if that is
known; answers the line breaks and the greatest indentation seen. -/
def readBreaks (indent : Option Nat) : Nat → Nat → List Char → Place →
    Option (List Char × Nat × Place)
  | 0, _, _, _ => none
  | fuel + 1, greatest, breaks, p =>
    let spaces := (p.rest.takeWhile (· == ' ')).length
    let p := p.skip <|
      match indent with
      | none => spaces
      | some n => min spaces (n - p.column)
    let greatest := max greatest p.column
    match p.head? with
    | none => some (breaks, greatest, p)
    | some c =>
      if c = '\t' ∧ indent.all (p.column < ·) then none
      else if isBreak c then
        let (lineBreak, p) := p.takeBreak
        readBreaks indent fuel greatest (breaks ++ lineBreak) p
      else some (breaks, greatest, p)

/-- A block scalar that has been read up to the start of a line: its text, whether the last line
began with a blank, the line break behind it and the empty lines behind that. -/
structure Block where
  text : List Char := []
  indented : Bool := false
  lineBreak : List Char := []
  empty : List Char := []

def readBlockFrom (literal : Bool) (indent : Nat) : Nat → Block → Place → Option (Block × Place)
  | 0, _, _ => none
  | fuel + 1, b, p =>
    if p.column = indent ∧ p.rest ≠ [] then
      let indented := p.head?.any isSpace
      let folded := !literal && b.lineBreak == ['\n'] && !b.indented && !indented
      let joint := if folded then if b.empty.isEmpty then [' '] else [] else b.lineBreak
      let line := p.rest.takeWhile (!isBreak ·)
      let (lineBreak, p) := (p.skip line.length).takeBreak
      match readBreaks (some indent) (fuel + 1) 0 [] p with
      | none => none
      | some (empty, _, p) =>
        readBlockFrom literal indent fuel
          ⟨b.text ++ joint ++ b.empty ++ line, indented, lineBreak, empty⟩ p
    else some (b, p)

def readBlock (fuel : Nat) (literal : Bool) (outer : Int) (p : Place) :
    Option (String × Place) := do
  let (chomping, increment, p) ← readIndicators p
  let p := p.skipSpaces
  let p := if p.head? = some '#' then p.skipLine else p
  guard (endsLine p.head?)
  let p := p.takeBreak.2
  let given := increment.map fun n => (max outer 0).toNat + n
  let (empty, greatest, p) ← readBreaks given fuel 0 [] p
  let indent := given.getD (max greatest (max (outer + 1) 1).toNat)
  let (b, p) ← readBlockFrom literal indent fuel { empty } p
  let tail :=
    match chomping with
    | .strip => []
    | .clip => b.lineBreak
    | .keep => b.lineBreak ++ b.empty
  return (String.ofList (b.text ++ tail), p)

end LiteralLint.Yaml
