import SnapLisp.Number.Decimal
/-!
# Shortest decimals

`Decimal.shortest` looks for the decimal of fewest digits that a reader accepts in place of an exact
one. Cutting `drop` digits off the coefficient leaves the exact decimal between two neighbours on
the coarser grid; the coarsest grid with an accepted neighbour wins.
-/

namespace SnapLisp.Decimal

/-- The neighbour at or below `d` once `drop` digits are cut off. -/
def below (d : Decimal) (drop : Nat) : Decimal :=
  ⟨d.coefficient / Nat.pow 10 drop, d.exponent + drop⟩

/-- The neighbour above `d` once `drop` digits are cut off. -/
def above (d : Decimal) (drop : Nat) : Decimal :=
  ⟨d.coefficient / Nat.pow 10 drop + 1, d.exponent + drop⟩

/-- Whether the lower neighbour is the closer one; halfway, the even one is. -/
def favoursBelow (d : Decimal) (drop : Nat) : Bool :=
  match compare (2 * (d.coefficient % Nat.pow 10 drop)) (Nat.pow 10 drop) with
  | .lt => true
  | .gt => false
  | .eq => (d.coefficient / Nat.pow 10 drop) % 2 = 0

/-- The accepted neighbour with `drop` digits cut off, the closer one if both are accepted. -/
def accepted? (accepts : Decimal → Bool) (d : Decimal) (drop : Nat) : Option Decimal :=
  match accepts (d.below drop), accepts (d.above drop) with
  | true, true => some (if d.favoursBelow drop then d.below drop else d.above drop)
  | true, false => some (d.below drop)
  | false, true => some (d.above drop)
  | false, false => none

/-- The accepted neighbour on the coarsest grid that cuts off at most `drop` digits, and `d` itself
if there is none. -/
def shortestFrom (accepts : Decimal → Bool) (d : Decimal) : Nat → Decimal
  | 0 => d
  | drop + 1 => (d.accepted? accepts (drop + 1)).getD (shortestFrom accepts d drop)

/-- The accepted decimal of fewest digits next to `d`. -/
def shortest (accepts : Decimal → Bool) (d : Decimal) : Decimal :=
  (shortestFrom accepts d ((digits d.coefficient).length - 1)).trim

/-- The shortest decimal that rounds back to a finite rank. -/
def shortestOfRank (rank : Nat) : Decimal :=
  (ofRank rank).shortest fun d => d.rank = rank

end SnapLisp.Decimal
