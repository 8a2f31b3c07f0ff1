import SnapLisp.Value.Basic
/-!
# Identity of values

Two values are the same (`Value.same`) if they are lists of same items, or atoms with equal
identities. A number's identity is its exact quantity, so an integer, a flag and a binary64 number
can be the same. NaN and functions have no identity: what they hold makes no two of them the same, and
whether one is met again is a matter of the object.
-/

namespace SnapLisp

/-- An exact quantity, a finite one in steps of `2 ^ -1074`. -/
inductive Quantity
  | finite (steps : Int)
  | infinite (negative : Bool)
deriving DecidableEq

/-- The exact quantity of a number; NaN has none. -/
def Binary64.quantity? : Binary64 → Option Quantity
  | nan => none
  | signed negative rank _ =>
    if rank = infinityRank then some (.infinite negative)
    else some (.finite (if negative then -units rank else units rank))

/-- What makes two values the same when they are no lists. -/
inductive Identity
  | quantity (q : Quantity)
  | text (s : String)
  | symbol (name : String)
  | nil
  | truth
  | absent
deriving DecidableEq

namespace Value

/-- The identity of a value, which lists, functions and NaN do not have. -/
def identity? : Value → Option Identity
  | number x => x.quantity?.map .quantity
  | integer n => some (.quantity (.finite (n * stepsPerOne)))
  | flag b => some (.quantity (.finite (if b then stepsPerOne else 0)))
  | text s => some (.text s)
  | symbol name => some (.symbol name)
  | nil => some .nil
  | truth => some .truth
  | absent => some .absent
  | list _ | builtin _ | lambda _ _ => none

mutual

/-- Equality of values by content. -/
def same : Value → Value → Bool
  | list as, list bs => sameItems as bs
  | a, b =>
    match a.identity?, b.identity? with
    | some p, some q => p == q
    | _, _ => false

def sameItems : List Value → List Value → Bool
  | [], [] => true
  | a :: as, b :: bs => same a b && sameItems as bs
  | _, _ => false

end

end Value

end SnapLisp
