/-! # Digits

Natural numbers written in a base, most significant digit first, and read back. -/

set_option autoImplicit false

namespace LiteralLint.Text

def digitChar (value : Nat) : Char :=
  if value < 10 then Char.ofNat (48 + value) else Char.ofNat (87 + value)

def digitValue? (c : Char) : Option Nat :=
  if '0' ≤ c ∧ c ≤ '9' then some (c.toNat - 48)
  else if 'a' ≤ c ∧ c ≤ 'f' then some (c.toNat - 87)
  else if 'A' ≤ c ∧ c ≤ 'F' then some (c.toNat - 55)
  else none

def isDigitIn (base : Nat) (c : Char) : Bool :=
  match digitValue? c with
  | some v => v < base
  | none => false

def digitsInto (base : Nat) (n : Nat) (tail : List Char) : List Char :=
  if _h : base < 2 ∨ n < base then digitChar n :: tail
  else digitsInto base (n / base) (digitChar (n % base) :: tail)
termination_by n
decreasing_by exact Nat.div_lt_self (by omega) (by omega)

def decimal (n : Nat) : List Char := digitsInto 10 n []

def hexadecimal (n : Nat) : List Char := digitsInto 16 n []

def hexadecimal4 (n : Nat) : List Char :=
  let ds := hexadecimal n
  List.replicate (4 - ds.length) '0' ++ ds

/-- The number the digits stand for; what is no digit counts as zero. -/
def ofDigits (base : Nat) (ds : List Char) : Nat :=
  ds.foldl (fun n c => n * base + (digitValue? c).getD 0) 0

/-- Reads a non-empty text that holds nothing but digits. -/
def natural? (base : Nat) (ds : List Char) : Option Nat :=
  if ds ≠ [] ∧ ds.all (isDigitIn base) then some (ofDigits base ds) else none

def integer (n : Int) : List Char :=
  match n with
  | .ofNat k => decimal k
  | .negSucc k => '-' :: decimal (k + 1)

end LiteralLint.Text
