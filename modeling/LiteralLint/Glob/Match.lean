import LiteralLint.Glob.Parse
import LiteralLint.Text.Split

/-! # Matching glob patterns

A pattern is followed through a path all ways at once: what is kept is the set of places that its
tokens can have led to so far. -/

set_option autoImplicit false

namespace LiteralLint.Glob

/-- For each place in a path, from its beginning to its end, whether it can be reached. -/
abbrev Reach := List Bool

namespace Reach

def start (path : List UInt8) : Reach := true :: path.map fun _ => false

def union (a b : Reach) : Reach := List.zipWith (· || ·) a b

def advance (wanted : UInt8 → Bool) (path : List UInt8) (r : Reach) : Reach :=
  false :: List.zipWith (fun b here => here && wanted b) path r

def spread (r : Reach) : Reach := go false r
where
  go (seen : Bool) : Reach → Reach
    | [] => []
    | here :: r => (seen || here) :: go (seen || here) r

def atEnd (r : Reach) : Bool := r.getLastD false

end Reach

def slash : UInt8 := 47

def bytesOf (c : Char) : List UInt8 := String.utf8EncodeChar c

/-- A class is one of bytes: a character stands for all the bytes of its encoding, and a range runs
from the last byte of its first character to the first byte of its last one. -/
def rangeHolds (b : UInt8) (first last : Char) : Bool :=
  if first = last then (bytesOf first).contains b
  else
    (bytesOf first).contains b || (bytesOf last).contains b
      || ((bytesOf first).getLastD 0 ≤ b && b ≤ (bytesOf last).headD 0)

def pastSlash (path : List UInt8) (r : Reach) : Reach := r.advance (· == slash) path

def pastFolders (path : List UInt8) (r : Reach) : Reach := pastSlash path r.spread

mutual

def Token.follow (path : List UInt8) (r : Reach) : Token → Reach
  | .literal c => (bytesOf c).foldl (fun r b => r.advance (· == b) path) r
  | .anyByte => r.advance (fun _ => true) path
  | .anything => r.spread
  | .leadingFolders => r.union (pastFolders path r)
  | .innerFolders => (pastSlash path r).union (pastFolders path (pastSlash path r))
  | .trailingFolders => (pastSlash path r).spread
  | .oneOf negated ranges =>
    r.advance (fun b => ranges.any (fun (first, last) => rangeHolds b first last) != negated) path
  | .either [] => r
  | .either (branch :: branches) => followAny path r (followAll path r branch) branches

def followAll (path : List UInt8) (r : Reach) : List Token → Reach
  | [] => r
  | t :: ts => followAll path (t.follow path r) ts

def followAny (path : List UInt8) (r found : Reach) : List (List Token) → Reach
  | [] => found
  | branch :: branches => followAny path r (found.union (followAll path r branch)) branches

end

/-- Two stars alone match every path. -/
def isMatch (g : Glob) (path : String) : Bool :=
  match g.tokens with
  | [.leadingFolders] => true
  | tokens =>
    let bytes := path.toUTF8.toList
    (followAll bytes (.start bytes) tokens).atEnd

/-- The number of segments without a wildcard. Only the text counts: a slash within a choice or a
class separates segments as well. -/
def specificity (g : Glob) : Nat :=
  (Text.split '/' g.text.toList).countP fun segment =>
    !segment.any fun c => c = '*' ∨ c = '?' ∨ c = '['

end LiteralLint.Glob
