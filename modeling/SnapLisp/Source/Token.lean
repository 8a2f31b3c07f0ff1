import SnapLisp.Value.Identity
import SnapLisp.Value.Inspected
import SnapLisp.Value.Printed
/-!
# Tokens

The units that a source is made of. A `Token.Label` is a token as it is listed from outside, a kind
beside a payload; it can also label what no source holds, such as the end of input or an operator
with a payload.
-/

namespace SnapLisp

inductive Token
  | plus
  | minus
  | asterisk
  | slash
  | lparen
  | rparen
  | truth
  | nil
  | illegal (c : Char)
  | number (x : Binary64)
  | text (s : String)
  | literal (name : String)
deriving DecidableEq

namespace Token

inductive Kind
  | plus
  | minus
  | asterisk
  | slash
  | lparen
  | rparen
  | truth
  | nil
  | endOfInput
  | illegal
  | number
  | text
  | literal
deriving DecidableEq

structure Label where
  kind : Kind
  /-- Absent where there is none. -/
  payload : Value

def label : Token → Label
  | plus => ⟨.plus, .absent⟩
  | minus => ⟨.minus, .absent⟩
  | asterisk => ⟨.asterisk, .absent⟩
  | slash => ⟨.slash, .absent⟩
  | lparen => ⟨.lparen, .absent⟩
  | rparen => ⟨.rparen, .absent⟩
  | truth => ⟨.truth, .absent⟩
  | nil => ⟨.nil, .absent⟩
  | illegal c => ⟨.illegal, .text c.toString⟩
  | number x => ⟨.number, .number x⟩
  | text s => ⟨.text, .text s⟩
  | literal name => ⟨.literal, .text name⟩

/-- The spelling of the kinds that have only one. -/
def Kind.fixed : Kind → List Char
  | plus => ['+']
  | minus => ['-']
  | asterisk => ['*']
  | slash => ['/']
  | lparen => ['(']
  | rparen => [')']
  | truth => ['T']
  | nil => ['N', 'I', 'L']
  | endOfInput => ['E', 'O', 'F']
  | illegal | number | text | literal => []

namespace Label

/-- What the end of a source is listed as. -/
def endOfInput : Label :=
  ⟨.endOfInput, .absent⟩

/-- The spelling of a kind with its payload: a number as it is printed, all else bare. -/
def spelling (label : Label) : List Char :=
  match label.kind with
  | .number => label.payload.print?.getD []
  | .text | .literal => label.payload.display
  | .illegal => "ILLEGAL(".toList ++ label.payload.display ++ [')']
  | kind => kind.fixed

def same (a b : Label) : Bool :=
  a.kind = b.kind && a.payload.same b.payload

end Label

/-- The spelling of a token; a text is spelt without its quotes. -/
def spelling (t : Token) : List Char :=
  t.label.spelling

end Token

end SnapLisp
