import SnapLisp.Number.Rank
/-!
# Binary64 numbers

A number is NaN, or a sign and the rank of a magnitude. Its arithmetic is the machine's.
-/

namespace SnapLisp

/-- IEEE binary64 numbers, all NaNs being one. -/
inductive Binary64
  | nan
  | signed (negative : Bool) (rank : Nat) (rank_le : rank ≤ infinityRank)
deriving DecidableEq

namespace Binary64

/-- The number of the given sign closest to `num / den` in magnitude. -/
def ofQuotient (negative : Bool) (num den : Nat) : Binary64 :=
  signed negative (nearestRank num den) (nearestRank_le num den)

/-- The number closest to an integer; an integer that rounds past the largest finite number has
none. -/
def ofInt? (n : Int) : Option Binary64 :=
  if nearestRank n.natAbs 1 < infinityRank then some (ofQuotient (n < 0) n.natAbs 1) else none

def IsFinite : Binary64 → Prop
  | nan => False
  | signed _ rank _ => rank < infinityRank

instance : DecidablePred IsFinite
  | nan => .isFalse id
  | signed _ rank _ => inferInstanceAs (Decidable (rank < infinityRank))

/-- What the sign of a negative number adds to its encoding. -/
def signBit : Nat := Nat.pow 2 63

/-- The number that 64 bits encode: the sign in the top bit, the rank below it. -/
def ofBits (bits : UInt64) : Binary64 :=
  if h : bits.toNat % signBit ≤ infinityRank then
    signed (signBit ≤ bits.toNat) (bits.toNat % signBit) h
  else
    nan

def toBits : Binary64 → UInt64
  | nan => 0x7ff8000000000000
  | signed negative rank _ => UInt64.ofNat (rank + if negative then signBit else 0)

/-- An operation of the machine's arithmetic. -/
def lift (op : Float → Float → Float) (x y : Binary64) : Binary64 :=
  ofBits (op (Float.ofBits x.toBits) (Float.ofBits y.toBits)).toBits

instance : Add Binary64 := ⟨lift (· + ·)⟩
instance : Sub Binary64 := ⟨lift (· - ·)⟩
instance : Mul Binary64 := ⟨lift (· * ·)⟩
instance : Div Binary64 := ⟨lift (· / ·)⟩

end Binary64

end SnapLisp
