import SnapLisp.Number.Layout
import SnapLisp.Value.Basic
/-!
# Printed values

The text of a value as a session shows it: numbers in the plain layout, texts as they are, lists in
parentheses. A host integer is printed after conversion to binary64, so one beyond the largest
finite number has no text, nor has a list that holds one.
-/

namespace SnapLisp.Value

mutual

def print? : Value → Option (List Char)
  | number x => some (Layout.plain.write x)
  | integer n => (Binary64.ofInt? n).map Layout.plain.write
  | flag b => some [if b then '1' else '0']
  | text s => some s.toList
  | symbol name => some name.toList
  | list items => (printItems? items).map fun ts => '(' :: ([' '].intercalate ts ++ [')'])
  | nil => some "NIL".toList
  | truth => some "T".toList
  | builtin _ => some "FUNCTION".toList
  | lambda _ _ => some "LAMBDA".toList
  | absent => some "None".toList

def printItems? : List Value → Option (List (List Char))
  | [] => some []
  | v :: vs =>
    match print? v, printItems? vs with
    | some t, some ts => some (t :: ts)
    | _, _ => none

end

def printed? (v : Value) : Option String :=
  v.print?.map String.ofList

end SnapLisp.Value
