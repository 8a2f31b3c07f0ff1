/-!
# Upper case

The upper case of words that are compared with ASCII names. Outside ASCII only ten characters have
an upper case within it, so all others can be left alone: no comparison with an ASCII name tells the
difference.
-/

namespace SnapLisp

/-- The upper case of a character where it lies in ASCII; the character itself where it does not. -/
def upperCase (c : Char) : List Char :=
  match c with
  | 'ß' => ['S', 'S']
  | 'ı' => ['I']
  | 'ſ' => ['S']
  | 'ﬀ' => ['F', 'F']
  | 'ﬁ' => ['F', 'I']
  | 'ﬂ' => ['F', 'L']
  | 'ﬃ' => ['F', 'F', 'I']
  | 'ﬄ' => ['F', 'F', 'L']
  | 'ﬅ' => ['S', 'T']
  | 'ﬆ' => ['S', 'T']
  | c => [c.toUpper]

end SnapLisp
