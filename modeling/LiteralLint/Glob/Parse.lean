import LiteralLint.Glob.Basic

/-! # Reading glob patterns

A pattern is read from left to right into the branch of the innermost open choice. -/

set_option autoImplicit false

namespace LiteralLint.Glob

/-- A choice that is being read: the branches behind it and the open one, newest token first. -/
structure Choice where
  finished : List (List Token) := []
  current : List Token := []

/-- The innermost open choice and those around it. The outermost one is the pattern itself. -/
structure Reader where
  inner : Choice := {}
  outer : List Choice := []

namespace Reader

def push (r : Reader) (t : Token) : Reader :=
  { r with inner := { r.inner with current := t :: r.inner.current } }

def replace (r : Reader) (t : Token) : Reader :=
  { r with inner := { r.inner with current := t :: r.inner.current.drop 1 } }

def isNested (r : Reader) : Bool := !r.outer.isEmpty

def opened (r : Reader) : Reader := ⟨{}, r.inner :: r.outer⟩

def nextBranch (r : Reader) : Reader :=
  { r with inner := ⟨r.inner.current.reverse :: r.inner.finished, []⟩ }

def isVoid : Token → Bool
  | .either [] => true
  | _ => false

/-- Ends a choice. Branches without content are left out. -/
def closed (r : Reader) : Except Fault Reader :=
  match r.outer with
  | [] => .error .unopenedAlternates
  | inner :: outer =>
    let branches := (r.nextBranch.inner.finished.reverse).filter (!·.all isVoid)
    .ok (Reader.push ⟨inner, outer⟩ (.either branches))

def pushTwice (r : Reader) : Reader := (r.push .anything).push .anything

def leadingStars (r : Reader) (rest : List Char) : Reader × Char × List Char :=
  match rest with
  | [] => (r.push .leadingFolders, '*', [])
  | '/' :: rest => (r.push .leadingFolders, '/', rest)
  | rest => (r.pushTwice, '*', rest)

/-- Two stars behind a separator. They swallow the token in front of them. -/
def innerStars (r : Reader) (rest : List Char) : Reader × Char × List Char :=
  let absorb (t : Token) :=
    match r.inner.current.head? with
    | some .leadingFolders => r
    | some .trailingFolders => r
    | _ => r.replace t
  match rest with
  | [] => (absorb .trailingFolders, '*', [])
  | '/' :: rest => (absorb .innerFolders, '/', rest)
  | c :: rest =>
    if (c = ',' ∨ c = '\x7d') ∧ r.isNested then (absorb .trailingFolders, '*', c :: rest)
    else (r.pushTwice, '*', c :: rest)

def star (r : Reader) (previous : Option Char) : List Char → Reader × Char × List Char
  | '*' :: rest =>
    if r.inner.current.isEmpty then r.leadingStars rest
    else if previous = some '/' ∨ r.isNested ∧ (previous = some ',' ∨ previous = some '\x7b') then
      r.innerStars rest
    else (r.pushTwice, '*', rest)
  | rest => (r.push .anything, '*', rest)

end Reader

/-- The ranges of a class up to its closing bracket. `first` says that nothing was read yet, and
`inRange` that the last character was the hyphen of a range. -/
def readRanges (first inRange : Bool) (ranges : List (Char × Char)) :
    List Char → Except Fault (List (Char × Char) × List Char)
  | [] => .error .unclosedClass
  | c :: rest =>
    if c = ']' ∧ !first then
      .ok ((if inRange then ('-', '-') :: ranges else ranges).reverse, rest)
    else if c = '-' ∧ !first ∧ !inRange then readRanges false true ranges rest
    else
      match inRange, ranges with
      | true, (low, _) :: ranges =>
        if c < low then .error (.invalidRange low c)
        else readRanges false false ((low, c) :: ranges) rest
      | _, ranges => readRanges false false ((c, c) :: ranges) rest

def readClass (cs : List Char) : Except Fault (Token × List Char) := do
  let negated := cs.head? = some '!' ∨ cs.head? = some '^'
  let (ranges, rest) ← readRanges true false [] (if negated then cs.drop 1 else cs)
  return (.oneOf negated ranges, rest)

def readTokens (fuel : Nat) (r : Reader) (previous : Option Char) (cs : List Char) :
    Except Fault (List Token) :=
  match fuel, cs with
  | fuel + 1, c :: cs =>
    match c with
    | '?' => readTokens fuel (r.push .anyByte) (some c) cs
    | '*' =>
      let (r, last, rest) := r.star previous cs
      readTokens fuel r (some last) rest
    | '[' =>
      match readClass cs with
      | .error e => .error e
      | .ok (t, rest) => readTokens fuel (r.push t) (some ']') rest
    | '\x7b' => readTokens fuel r.opened (some c) cs
    | '\x7d' =>
      match r.closed with
      | .error e => .error e
      | .ok r => readTokens fuel r (some c) cs
    | ',' => readTokens fuel (if r.isNested then r.nextBranch else r.push (.literal c)) (some c) cs
    | '\\' =>
      match cs with
      | [] => .error .danglingEscape
      | c :: cs => readTokens fuel (r.push (.literal c)) (some c) cs
    | c => readTokens fuel (r.push (.literal c)) (some c) cs
  | _, _ => if r.isNested then .error .unclosedAlternates else .ok r.inner.current.reverse

end Glob

structure Glob where
  text : String
  tokens : List Glob.Token
deriving Repr, Inhabited

def Glob.parse (text : String) : Except Glob.Fault Glob := do
  return ⟨text, ← readTokens (text.length + 1) {} none text.toList⟩

end LiteralLint
