import SnapLisp.Number.Layout
import SnapLisp.Text.Quoted
import SnapLisp.Value.Basic
/-!
# Inspected values

The text of a value for logs and for a host. `inspect` shows which kind of value it is, with texts
in quotes; `display` is the same but for texts, symbols and functions, which it writes bare. Numbers
are in the marked layout, integers in full.
-/

namespace SnapLisp.Value

def integerText (n : Int) : List Char :=
  signText (n < 0) ++ digits n.natAbs

def lambdaText (params : List String) : List Char :=
  "<Lambda (".toList ++ [' '].intercalate (params.map String.toList) ++ ")>".toList

mutual

def inspect : Value → List Char
  | number x => Layout.marked.write x
  | integer n => integerText n
  | flag b => if b then "True".toList else "False".toList
  | text s => Quoted.encode s.toList
  | symbol name => "Symbol(".toList ++ Quoted.encode name.toList ++ [')']
  | list items => '[' :: ([',', ' '].intercalate (inspectItems items) ++ [']'])
  | nil => "NIL".toList
  | truth => "T".toList
  | builtin index => "Func(".toList ++ integerText index ++ [')']
  | lambda params _ => lambdaText params
  | absent => "None".toList

def inspectItems : List Value → List (List Char)
  | [] => []
  | v :: vs => inspect v :: inspectItems vs

end

def display : Value → List Char
  | text s => s.toList
  | symbol name => name.toList
  | builtin _ => "FUNCTION".toList
  | lambda _ _ => "LAMBDA".toList
  | v => v.inspect

end SnapLisp.Value
