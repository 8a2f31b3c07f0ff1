/-!
# Lines

The lines of a text: a newline, a carriage return, or the two together end a line, and each end
becomes one newline. A last line without an end stays without one.
-/

namespace SnapLisp

/-- `c` put in front of the first line. -/
def consFirst (c : Char) : List (List Char) → List (List Char)
  | [] => [[c]]
  | line :: rest => (c :: line) :: rest

/-- The lines of a text, each with the newline that ends it. -/
def lines : List Char → List (List Char)
  | [] => []
  | '\r' :: '\n' :: cs => ['\n'] :: lines cs
  | c :: cs => if c = '\r' ∨ c = '\n' then ['\n'] :: lines cs else consFirst c (lines cs)

def isLineEnd (c : Char) : Bool :=
  c == '\n' || c == '\r'

end SnapLisp
