import SnapLisp.Number.Binary64
/-!
# Values

Forms and the values they evaluate to are one type. A reader makes numbers, texts, symbols, lists,
`nil` and `truth`; evaluation adds functions. `integer`, `flag` and `absent` come only from a host
that calls the evaluator with values of its own.
-/

namespace SnapLisp

inductive Value
  | number (x : Binary64)
  | integer (n : Int)
  | flag (b : Bool)
  | text (s : String)
  | symbol (name : String)
  | list (items : List Value)
  | nil
  | truth
  /-- A built-in function, by its place in the table of operators. -/
  | builtin (index : Int)
  | lambda (params : List String) (body : Value)
  /-- What a host has where it has no value. -/
  | absent

namespace Value

instance : Inhabited Value := ⟨nil⟩

/-- Whether a host takes the value for true: all but zero, nothing and what is empty. -/
def isTruthy : Value → Bool
  | number (.signed _ rank _) => rank != 0
  | integer n => n != 0
  | flag b => b
  | text s => s != ""
  | list items => !items.isEmpty
  | nil | absent => false
  | number .nan | symbol _ | truth | builtin _ | lambda _ _ => true

def arity? : Value → Option Nat
  | lambda params _ => some params.length
  | _ => none

theorem sizeOf_item_lt {v : Value} {items : List Value} (h : v ∈ items) :
    sizeOf v < sizeOf (list items) := by
  have hlt := List.sizeOf_lt_of_mem h
  rw [list.sizeOf_spec]
  omega

end Value

end SnapLisp
