import LiteralLint.Number.Binary64
import LiteralLint.Text.Digits

/-! # Numbers read from decimal text

A decimal has digits before or behind a point, or both, and may have a sign and a power of ten. It
is read as the nearest double-precision number, which is infinite where it is too large. -/

set_option autoImplicit false

namespace LiteralLint

namespace Text

def readSign : List Char → Bool × List Char
  | '-' :: cs => (true, cs)
  | '+' :: cs => (false, cs)
  | cs => (false, cs)

def integer? (cs : List Char) : Option Int :=
  let (negative, ds) := readSign cs
  (natural? 10 ds).map fun n => if negative then -(n : Int) else n

/-- The power of ten behind the digits of a decimal, up to the end of the text. -/
def exponent? : List Char → Option Int
  | [] => some 0
  | c :: cs => if c = 'e' ∨ c = 'E' then integer? cs else none

end Text

def Binary64.ofText? (cs : List Char) : Option Binary64 := do
  let (negative, cs) := Text.readSign cs
  let whole := cs.takeWhile Char.isDigit
  let rest := cs.dropWhile Char.isDigit
  let (fraction, rest) :=
    match rest with
    | '.' :: rest => (rest.takeWhile Char.isDigit, rest.dropWhile Char.isDigit)
    | rest => ([], rest)
  guard (whole ≠ [] ∨ fraction ≠ [])
  let exponent ← Text.exponent? rest
  return ofDecimal negative (Text.ofDigits 10 (whole ++ fraction)) (exponent - fraction.length)

end LiteralLint
