import SnapLisp.Proofs.Number.Nearest
import SnapLisp.Value.Printed

/-!
# Integers as numbers

Every integer rounds to a number, to an infinity from the end of the range on (`Binary64.ofInt`). A host
integer is converted to that number, but where it is an infinity the conversion is refused
(`Binary64.ofInt?_of_lt`, `Binary64.ofInt?_of_le`).
-/

namespace SnapLisp
namespace Binary64
variable {n : ℤ}

/-- The number closest to an integer. -/
def ofInt (n : ℤ) : Binary64 :=
  ofQuotient (n < 0) n.natAbs 1

theorem roundsTo_ofInt (n : ℤ) : RoundsTo n (ofInt n) := by
  have hrounds := roundsTo_ofQuotient (n < 0) n.natAbs Nat.one_pos
  have hvalue : (if decide (n < 0) then -((n.natAbs : ℚ) / (1 : ℕ)) else n.natAbs / (1 : ℕ)) = n := by
    rw [Nat.cast_one, div_one, Nat.cast_natAbs, Int.cast_abs]
    rcases lt_or_ge n 0 with hn | hn
    · rw [if_pos (decide_eq_true hn), abs_of_neg (Int.cast_lt_zero.2 hn), neg_neg]
    · rw [if_neg (by simpa using hn), abs_of_nonneg (Int.cast_nonneg hn)]
  rwa [hvalue] at hrounds

theorem isInfinite_ofInt_iff : (ofInt n).IsInfinite ↔ rangeEnd ≤ |(n : ℚ)| :=
  (roundsTo_ofInt n).isInfinite_iff

/-- From the end of the range on an integer rounds to the infinity of its sign. -/
theorem ofInt_of_le (h : rangeEnd ≤ |(n : ℚ)|) : ofInt n = signed (n < 0) infinityRank le_rfl := by
  have hrank : nearestRank n.natAbs 1 = infinityRank := isInfinite_ofInt_iff.2 h
  simp only [ofInt, ofQuotient, hrank]

theorem ofInt?_of_lt (h : |(n : ℚ)| < rangeEnd) : ofInt? n = some (ofInt n) := by
  have hne : nearestRank n.natAbs 1 ≠ infinityRank := fun hrank =>
    h.not_ge (isInfinite_ofInt_iff.1 hrank)
  exact if_pos (Nat.lt_of_le_of_ne (nearestRank_le ..) hne)

theorem ofInt?_of_le (h : rangeEnd ≤ |(n : ℚ)|) : ofInt? n = none := by
  have hrank : nearestRank n.natAbs 1 = infinityRank := isInfinite_ofInt_iff.2 h
  exact if_neg hrank.not_lt

end Binary64

/-- What cannot be converted has no text. -/
theorem Value.print?_integer_of_le {n : ℤ} (h : rangeEnd ≤ |(n : ℚ)|) : (integer n).print? = none := by
  rw [print?, Binary64.ofInt?_of_le h]
  rfl

end SnapLisp
