import LiteralLint.Number.Binary64
import LiteralLint.Text.Digits

/-! # Shortest decimal text

The fewest decimal digits that read back as a given double-precision number, and of those with that
many digits the nearest to it; and two layouts of such digits. -/

set_option autoImplicit false

namespace LiteralLint

structure ShortDecimal where
  digits : Nat
  exponent : Int
deriving DecidableEq, Repr, Inhabited

namespace Binary64

structure Neighbourhood where
  lower : Nat
  point : Nat
  upper : Nat
  denominator : Nat
  closed : Bool

/-- The numbers that round to `mantissa · 2 ^ exponent`. Below a power of two the next number is
only half as far away. -/
def neighbourhood (mantissa : Nat) (exponent : Int) : Neighbourhood :=
  let isPower := mantissa = Nat.pow 2 52 ∧ exponent > leastExponent
  let lower := if isPower then 4 * mantissa - 1 else 4 * mantissa - 2
  let closed := mantissa % 2 == 0
  match exponent - 2 with
  | .ofNat k =>
    let unit := Nat.pow 2 k
    ⟨lower * unit, 4 * mantissa * unit, (4 * mantissa + 2) * unit, 1, closed⟩
  | .negSucc k => ⟨lower, 4 * mantissa, 4 * mantissa + 2, Nat.pow 2 (k + 1), closed⟩

def Neighbourhood.holds (n : Neighbourhood) (digits : Nat) (exponent : Int) : Bool :=
  let (scaled, unit) :=
    match exponent with
    | .ofNat k => (digits * Nat.pow 10 k * n.denominator, 1)
    | .negSucc k => (digits * n.denominator, Nat.pow 10 (k + 1))
  if n.closed then n.lower * unit ≤ scaled && scaled ≤ n.upper * unit
  else n.lower * unit < scaled && scaled < n.upper * unit

/-- The number of decimal digits before the point, or minus the number of zeros behind it. -/
def decimalPoint (numerator denominator : Nat) : Int :=
  if numerator ≥ denominator then ((Text.decimal (numerator / denominator)).length : Int)
  else
    let zeros := (Text.decimal (denominator / numerator)).length
    if numerator * Nat.pow 10 (zeros - 1) ≥ denominator then 2 - (zeros : Int)
    else 1 - (zeros : Int)

/-- Tries the two grid points next to the number, on grids of `count` digits and more. -/
def shortestFrom (n : Neighbourhood) (point : Int) : Nat → Nat → ShortDecimal
  | 0, count =>
    let exponent := point - count
    let (num, den) := unscale 10 n.point n.denominator exponent
    ⟨roundQuotient num den, exponent⟩
  | fuel + 1, count =>
    let exponent := point - count
    let (num, den) := unscale 10 n.point n.denominator exponent
    let below := num / den
    let nearBelow := 2 * (num % den) ≤ den
    let below? := below ≠ 0 ∧ n.holds below exponent
    let above? := n.holds (below + 1) exponent
    if below? ∧ (nearBelow ∨ ¬above?) then ⟨below, exponent⟩
    else if above? then ⟨below + 1, exponent⟩
    else shortestFrom n point fuel (count + 1)

def stripZeros : Nat → ShortDecimal → ShortDecimal
  | 0, d => d
  | fuel + 1, d =>
    if d.digits ≠ 0 ∧ d.digits % 10 = 0 then stripZeros fuel ⟨d.digits / 10, d.exponent + 1⟩ else d

def shortest (mantissa : Nat) (exponent : Int) : ShortDecimal :=
  let n := neighbourhood mantissa exponent
  stripZeros 20 (shortestFrom n (decimalPoint n.point n.denominator) 17 1)

end Binary64

namespace ShortDecimal

def zeros (n : Int) : List Char := List.replicate n.toNat '0'

def point (d : ShortDecimal) : Int := ((Text.decimal d.digits).length : Int) + d.exponent

def positional (d : ShortDecimal) : List Char :=
  let ds := Text.decimal d.digits
  if d.exponent ≥ 0 then ds ++ zeros d.exponent
  else if d.point > 0 then ds.take d.point.toNat ++ '.' :: ds.drop d.point.toNat
  else ['0', '.'] ++ zeros (-d.point) ++ ds

def scientific (d : ShortDecimal) : List Char :=
  let ds := Text.decimal d.digits
  let power := d.point - 1
  let magnitude := Text.decimal power.natAbs
  let fraction := if ds.length > 1 then '.' :: ds.drop 1 else []
  ds.take 1 ++ fraction ++ ['e', if power < 0 then '-' else '+']
    ++ zeros (2 - (magnitude.length : Int)) ++ magnitude

end ShortDecimal

namespace Binary64

def sign (negative : Bool) : List Char := if negative then ['-'] else []

def positional : Binary64 → List Char
  | .nan => ['N', 'a', 'N']
  | .infinite s => sign s ++ ['i', 'n', 'f']
  | .finite s m e => sign s ++ if m = 0 then ['0'] else (shortest m e).positional

/-- Written so that it reads as a number with a fraction: positional between `1e-5` and `1e16`,
with an exponent outside. -/
def fractional : Binary64 → List Char
  | .nan => ['n', 'u', 'l', 'l']
  | .infinite _ => ['n', 'u', 'l', 'l']
  | .finite s m e =>
    sign s ++
      if m = 0 then ['0', '.', '0']
      else
        let d := shortest m e
        if d.point > 16 ∨ d.point ≤ -5 then d.scientific
        else if d.exponent ≥ 0 then d.positional ++ ['.', '0']
        else d.positional

end Binary64

end LiteralLint
