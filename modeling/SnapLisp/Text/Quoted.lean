import SnapLisp.Text.Printable
/-!
# Quoted text

The inspected form of a text: in single quotes, or in double quotes if it has a single quote and no
double one. The backslash and the enclosing quote are escaped with a backslash, and an unprintable
character is written by its code point in two, four or eight hexadecimal digits.
-/

namespace SnapLisp.Quoted

def hexDigit (d : Nat) : Char :=
  if d < 10 then Char.ofNat ('0'.toNat + d) else Char.ofNat ('a'.toNat + (d - 10))

/-- The last `width` hexadecimal digits of `n`. -/
def hexDigits (n : Nat) : Nat → List Char
  | 0 => []
  | width + 1 => hexDigits (n / 16) width ++ [hexDigit (n % 16)]

/-- The code point of an unprintable character. -/
def codePoint (n : Nat) : List Char :=
  if n < 0x100 then 'x' :: hexDigits n 2
  else if n < 0x10000 then 'u' :: hexDigits n 4
  else 'U' :: hexDigits n 8

def escape (quote c : Char) : List Char :=
  if c = quote ∨ c = '\\' then ['\\', c]
  else if c = '\n' then ['\\', 'n']
  else if c = '\r' then ['\\', 'r']
  else if c = '\t' then ['\\', 't']
  else if isPrintable c then [c]
  else '\\' :: codePoint c.toNat

def enclosing (cs : List Char) : Char :=
  if '\'' ∈ cs ∧ '"' ∉ cs then '"' else '\''

def encode (cs : List Char) : List Char :=
  let quote := enclosing cs
  quote :: cs.flatMap (escape quote) ++ [quote]

end SnapLisp.Quoted
