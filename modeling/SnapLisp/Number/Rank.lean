/-!
# Ranks

The magnitudes of binary64 numbers, counted upwards from zero, infinity last. The rank of a
magnitude is the exponent and fraction fields of its 64-bit encoding read as one number. `units` is
the magnitude of a rank in steps of `2 ^ -1074`; it grows strictly with the rank, and at the rank of
infinity it is `2 ^ 2098`, where the next binade would start.

`nearestRank` rounds a quotient to the closest magnitude, a tie to the even rank. `floorRank` is its
first half: the largest rank whose magnitude does not exceed a whole number of steps.

Powers are written with `Nat.pow`, which means the same whatever algebra is in scope.
-/

namespace SnapLisp

/-- How many ranks a binade has; those below it are the subnormals. -/
def binadeSize : Nat := Nat.pow 2 52

def stepsPerOne : Nat := Nat.pow 2 1074

/-- One above the rank of the largest finite magnitude. -/
def infinityRank : Nat := 2047 * binadeSize

/-- The integer significand of a rank. -/
def significand (rank : Nat) : Nat :=
  if rank < binadeSize then rank else binadeSize + rank % binadeSize

/-- How often the significand is doubled, counted from the smallest step. -/
def binade (rank : Nat) : Nat :=
  rank / binadeSize - 1

/-- The magnitude of a rank in steps of `2 ^ -1074`. -/
def units (rank : Nat) : Nat :=
  significand rank * Nat.pow 2 (binade rank)

/-- The largest rank whose magnitude is at most `steps`. -/
def floorRank (steps : Nat) : Nat :=
  let shift := steps.log2 - 52
  shift * binadeSize + steps / Nat.pow 2 shift

/-- The rank of the magnitude closest to `num / den`, a tie going to the even rank. All from half
a step below `2 ^ 1024` upwards is infinite. -/
def nearestRank (num den : Nat) : Nat :=
  let steps := num * stepsPerOne
  let rank := floorRank (steps / den)
  let middle := (units rank + units (rank + 1)) * den
  min infinityRank <|
    match compare (2 * steps) middle with
    | .lt => rank
    | .gt => rank + 1
    | .eq => rank + rank % 2

theorem nearestRank_le (num den : Nat) : nearestRank num den ≤ infinityRank :=
  Nat.min_le_left ..

end SnapLisp
