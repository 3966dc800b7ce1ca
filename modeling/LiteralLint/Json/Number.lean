import LiteralLint.Number.Binary64
import LiteralLint.Text.Digits

/-! # Numbers in JSON texts

A number is an integer when it is written as one and fits 64 bits, unsigned or, with a sign, signed;
any other number is a double-precision one. That one is computed from the leading digits that fit an
unsigned 64-bit integer and a power of ten, with a rounding at each step. -/

set_option autoImplicit false

namespace LiteralLint.Json

structure Numeral where
  negative : Bool
  whole : List Char
  fraction : Option (List Char)
  exponent : Option Int
deriving DecidableEq, Repr

inductive Number where
  | natural (value : Nat)
  | negative (value : Int)
  | real (value : Binary64)
deriving DecidableEq, Repr

def greatestNatural : Nat := Nat.pow 2 64 - 1

def leastInteger : Int := -Int.ofNat (Nat.pow 2 63)

/-- Appends digits to a number as long as it fits 64 bits, and counts the digits left over. -/
def takeDigits (n : Nat) : List Char → Nat × Nat
  | [] => (n, 0)
  | d :: ds =>
    let next := 10 * n + (Text.digitValue? d).getD 0
    if next > greatestNatural then (n, ds.length + 1) else takeDigits next ds

/-- `significand · 10 ^ exponent`, by one multiplication or division with a rounded power of ten;
`none` when it is too large. -/
def scaled (negative : Bool) (significand : Nat) (exponent : Int) : Option Binary64 :=
  let signed (f : Binary64) := if negative then f.negate else f
  let start := Binary64.ofQuotient false significand 1
  let power (k : Nat) := Binary64.ofQuotient false (Nat.pow 10 k) 1
  if significand = 0 then some (signed start)
  else if exponent > 308 then none
  else if exponent ≥ 0 then
    let product := Binary64.scaleUp start (power exponent.toNat)
    if product.isFinite then some (signed product) else none
  else if exponent ≥ -308 then some (signed (Binary64.scaleDown start (power (-exponent).toNat)))
  else if exponent ≥ -616 then
    let first := Binary64.scaleDown start (power 308)
    some (signed (Binary64.scaleDown first (power (-exponent - 308).toNat)))
  else some (signed (Binary64.zero false))

def Numeral.value? (n : Numeral) : Option Number :=
  let (significand, dropped) := takeDigits 0 n.whole
  match n.fraction, n.exponent with
  | none, none =>
    if dropped = 0 then
      if !n.negative then some (.natural significand)
      else
        let value : Int := -significand
        if value < 0 ∧ leastInteger ≤ value then some (.negative value)
        else some (.real (Binary64.ofQuotient true significand 1))
    else (scaled n.negative significand dropped).map .real
  | fraction, exponent =>
    let digits := fraction.getD []
    let (significand, left) := takeDigits significand digits
    let shift : Int := dropped - (digits.length - left : Nat)
    (scaled n.negative significand (shift + exponent.getD 0)).map .real

end LiteralLint.Json
