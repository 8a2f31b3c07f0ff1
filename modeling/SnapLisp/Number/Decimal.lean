import SnapLisp.Number.Rank
/-!
# Decimals

A decimal is a whole coefficient times a power of ten. Every finite binary64 magnitude is one
(`Decimal.ofRank`), and every decimal rounds to a rank (`Decimal.rank`). `digits` and `ofDigits` are
the digits of a natural number and back.
-/

namespace SnapLisp

def digitChar (d : Nat) : Char :=
  Char.ofNat ('0'.toNat + d)

def isDigit (c : Char) : Bool :=
  '0' ≤ c && c ≤ '9'

def digitValue (c : Char) : Nat :=
  c.toNat - '0'.toNat

/-- The decimal digits of `n` in front of `rest`. -/
def digitsOnto (n : Nat) (rest : List Char) : List Char :=
  if n < 10 then digitChar n :: rest else digitsOnto (n / 10) (digitChar (n % 10) :: rest)

/-- The decimal digits of a natural number, without a leading zero. -/
def digits (n : Nat) : List Char :=
  digitsOnto n []

/-- The natural number that a run of digits denotes. -/
def ofDigits (cs : List Char) : Nat :=
  cs.foldl (fun n c => 10 * n + digitValue c) 0

/-- The value `coefficient * 10 ^ exponent`. -/
structure Decimal where
  coefficient : Nat
  exponent : Int
deriving DecidableEq

namespace Decimal

/-- The rank of the binary64 magnitude closest to the decimal. -/
def rank (d : Decimal) : Nat :=
  nearestRank (d.coefficient * Nat.pow 10 d.exponent.toNat) (Nat.pow 10 (-d.exponent).toNat)

/-- The magnitude of a rank, exactly: a negative power of two is a power of five over one of ten. -/
def ofRank (rank : Nat) : Decimal :=
  if 1074 ≤ binade rank then
    ⟨significand rank * Nat.pow 2 (binade rank - 1074), 0⟩
  else
    ⟨significand rank * Nat.pow 5 (1074 - binade rank), binade rank - 1074⟩

/-- The decimal with the trailing zeros of its coefficient moved into the exponent; zero has the
exponent zero. -/
def trim (d : Decimal) : Decimal :=
  if d.coefficient = 0 then ⟨0, 0⟩
  else if d.coefficient % 10 = 0 then trim ⟨d.coefficient / 10, d.exponent + 1⟩
  else d
termination_by d.coefficient
decreasing_by omega

end Decimal

end SnapLisp
