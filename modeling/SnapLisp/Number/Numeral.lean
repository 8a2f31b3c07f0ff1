import SnapLisp.Number.Binary64
import SnapLisp.Number.Decimal
/-!
# Numerals

The text of a number in a source: an optional sign, then digits with at most one point among them.
Its value is the binary64 number closest to the decimal that it denotes, however many digits there
are.
-/

namespace SnapLisp

/-- The number of the given sign closest to a decimal in magnitude. -/
def Binary64.ofDecimal (negative : Bool) (d : Decimal) : Binary64 :=
  signed negative d.rank (nearestRank_le ..)

namespace Numeral

/-- Whether a character goes on with a numeral once it has begun. -/
def continues (c : Char) : Bool :=
  isDigit c || c == '.'

def isSign (c : Char) : Bool :=
  c == '+' || c == '-'

/-- Whether a numeral is negative, and its text without the sign. -/
def unsigned : List Char → Bool × List Char
  | [] => (false, [])
  | c :: cs => if isSign c then (c == '-', cs) else (false, c :: cs)

/-- The decimal that unsigned text with at most one point denotes. -/
def decimal (cs : List Char) : Decimal :=
  let fraction := (cs.dropWhile isDigit).drop 1
  ⟨ofDigits (cs.takeWhile isDigit ++ fraction), -fraction.length⟩

/-- The number that a numeral denotes; two points make it malformed. -/
def read? (text : List Char) : Option Binary64 :=
  let (negative, body) := unsigned text
  if 2 ≤ body.count '.' then none else some (.ofDecimal negative (decimal body))

end Numeral

end SnapLisp
