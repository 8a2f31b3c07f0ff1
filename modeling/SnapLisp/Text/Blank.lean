/-!
# Blank characters

Two sets of white space: the characters between the tokens of a source (`isBlank`), and the wider
set that is trimmed off lines and settings (`isTrimmed`), which has the four information separators
as well.
-/

namespace SnapLisp

/-- The Unicode white space characters. -/
def isBlank (c : Char) : Bool :=
  let n := c.toNat
  (0x09 ≤ n && n ≤ 0x0d) || n == 0x20 || n == 0x85 || n == 0xa0 || n == 0x1680 ||
    (0x2000 ≤ n && n ≤ 0x200a) || n == 0x2028 || n == 0x2029 || n == 0x202f || n == 0x205f ||
    n == 0x3000

/-- The information separators, which are no white space. -/
def isInfoSeparator (c : Char) : Bool :=
  0x1c ≤ c.toNat && c.toNat ≤ 0x1f

/-- The characters that are trimmed off the ends of a text. -/
def isTrimmed (c : Char) : Bool :=
  isBlank c || isInfoSeparator c

/-- The text without the characters of a class at its end. -/
def trimEnd (p : Char → Bool) (cs : List Char) : List Char :=
  (cs.reverse.dropWhile p).reverse

def trim (cs : List Char) : List Char :=
  trimEnd isTrimmed (cs.dropWhile isTrimmed)

end SnapLisp
