/-! # Double-precision numbers

The binary64 numbers of IEEE 754 as exact values. A finite one is `± mantissa · 2 ^ exponent` with
a mantissa below `2 ^ 53` and an exponent from `-1074` to `971`. Rounding is to the nearest value,
and a tie goes to the even mantissa. -/

set_option autoImplicit false

namespace LiteralLint

inductive Binary64 where
  | finite (negative : Bool) (mantissa : Nat) (exponent : Int)
  | infinite (negative : Bool)
  | nan
deriving DecidableEq, Repr, Inhabited

namespace Binary64

def leastExponent : Int := -1074

def greatestExponent : Int := 971

def zero (negative : Bool) : Binary64 := .finite negative 0 leastExponent

def unscale (base numerator denominator : Nat) (exponent : Int) : Nat × Nat :=
  match exponent with
  | .ofNat k => (numerator, denominator * base.pow k)
  | .negSucc k => (numerator * base.pow (k + 1), denominator)

/-- The quotient to the nearest integer, a tie to the even one. -/
def roundQuotient (numerator denominator : Nat) : Nat :=
  let quotient := numerator / denominator
  let doubled := 2 * (numerator % denominator)
  if doubled > denominator ∨ doubled = denominator ∧ quotient % 2 = 1 then quotient + 1
  else quotient

/-- The exponent with which `numerator / denominator` has a mantissa of 53 bits, or the least
exponent if that one is larger. -/
def exponentOf (numerator denominator : Nat) : Int :=
  let guess : Int := (numerator.log2 : Int) - denominator.log2 - 52
  let (n, d) := unscale 2 numerator denominator guess
  max leastExponent (if n / d < Nat.pow 2 52 then guess - 1 else guess)

def ofQuotient (negative : Bool) (numerator denominator : Nat) : Binary64 :=
  if numerator = 0 then zero negative
  else
    let exponent := exponentOf numerator denominator
    let (n, d) := unscale 2 numerator denominator exponent
    let rounded := roundQuotient n d
    let (mantissa, exponent) :=
      if rounded = Nat.pow 2 53 then (Nat.pow 2 52, exponent + 1) else (rounded, exponent)
    if exponent > greatestExponent then .infinite negative else .finite negative mantissa exponent

def ofDecimal (negative : Bool) (coefficient : Nat) (exponent : Int) : Binary64 :=
  if coefficient = 0 then zero negative
  else
    let size : Int := coefficient.log2 / 3 + 1 + exponent
    if exponent > 400 then .infinite negative
    else if size < -1000 then zero negative
    else
      match exponent with
      | .ofNat k => ofQuotient negative (coefficient * Nat.pow 10 k) 1
      | .negSucc k => ofQuotient negative coefficient (Nat.pow 10 (k + 1))

def negate : Binary64 → Binary64
  | .finite s m e => .finite (!s) m e
  | .infinite s => .infinite (!s)
  | .nan => .nan

def isFinite : Binary64 → Bool
  | .finite .. => true
  | _ => false

/-- Product and quotient of two magnitudes; signs are not looked at. -/
def scaleUp : Binary64 → Binary64 → Binary64
  | .finite _ m e, .finite _ m' e' =>
    let (n, d) := unscale 2 (m * m') 1 (-(e + e'))
    ofQuotient false n d
  | _, _ => .infinite false

def scaleDown : Binary64 → Binary64 → Binary64
  | .finite _ m e, .finite _ m' e' =>
    if m' = 0 then .infinite false
    else
      let (n, d) := unscale 2 m m' (e' - e)
      ofQuotient false n d
  | _, _ => zero false

end Binary64

end LiteralLint
