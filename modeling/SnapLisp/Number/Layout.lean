import SnapLisp.Number.Binary64
import SnapLisp.Number.Shortest
/-!
# Layouts of numbers

How a binary64 number is written: the digits are always those of the shortest decimal that reads
back, and a `Layout` says where the point stands, when an exponent is written, and how the values
without digits are spelt.
-/

namespace SnapLisp

structure Layout where
  /-- Whether a number whose first digit stands for this power of ten is written with an
  exponent. -/
  exponential : Int → Bool
  /-- What follows an integral number that is written without an exponent. -/
  integral : List Char
  nan : List Char
  infinity : List Char

namespace Decimal

/-- The decimal without an exponent; `integral` follows it if it is a whole number. -/
def positional (integral : List Char) (d : Decimal) : List Char :=
  let ds := digits d.coefficient
  if 0 ≤ d.exponent then
    ds ++ List.replicate d.exponent.toNat '0' ++ integral
  else
    let places := (-d.exponent).toNat
    if places < ds.length then
      ds.take (ds.length - places) ++ '.' :: ds.drop (ds.length - places)
    else
      '0' :: '.' :: (List.replicate (places - ds.length) '0' ++ ds)

/-- The power of ten for which the first digit stands. -/
def leading (d : Decimal) : Int :=
  d.exponent + (digits d.coefficient).length - 1

/-- The decimal with one digit in front of the point and a signed exponent of two digits or
more. -/
def scientific (d : Decimal) : List Char :=
  let mantissa := match digits d.coefficient with
    | lead :: fraction@(_ :: _) => lead :: '.' :: fraction
    | ds => ds
  let power := digits d.leading.natAbs
  mantissa ++ 'e' :: (if d.leading < 0 then '-' else '+') ::
    (List.replicate (2 - power.length) '0' ++ power)

end Decimal

/-- The sign of a number, written for a negative one only. -/
def signText (negative : Bool) : List Char :=
  if negative then ['-'] else []

def Layout.magnitude (layout : Layout) (rank : Nat) : List Char :=
  if rank = infinityRank then layout.infinity
  else
    let d := Decimal.shortestOfRank rank
    if layout.exponential d.leading then d.scientific else d.positional layout.integral

def Layout.write (layout : Layout) : Binary64 → List Char
  | .nan => layout.nan
  | .signed negative rank _ => signText negative ++ layout.magnitude rank

/-- Never an exponent, and no point in a whole number. -/
def Layout.plain : Layout where
  exponential := fun _ => false
  integral := []
  nan := ['N', 'a', 'N']
  infinity := ['i', 'n', 'f']

/-- An exponent below `10 ^ -4` and from `10 ^ 16` on, and a point in every other number. -/
def Layout.marked : Layout where
  exponential := fun e => e < -4 || 16 ≤ e
  integral := ['.', '0']
  nan := ['n', 'a', 'n']
  infinity := ['i', 'n', 'f']

end SnapLisp
