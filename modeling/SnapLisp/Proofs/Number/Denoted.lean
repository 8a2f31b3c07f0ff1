import Mathlib.Algebra.Order.Field.Power
import SnapLisp.Proofs.Number.Nearest
import SnapLisp.Proofs.Number.RoundTrip

/-!
# What numerals denote

The quantity that a text denotes is the sum of its digits at their places, which are counted from the
point, with the sign in front (`Numeral.denoted`). A decimal rounds like its exact value
(`Decimal.isClosest_iff`), and a numeral with one point at most reads as the number that the denoted
quantity rounds to, with the sign that is written (`Numeral.read?_denoted`).
-/

namespace SnapLisp

/-! ### Decimals -/

namespace Decimal
variable {d : Decimal} {r : Nat}

/-- The quantity that a decimal stands for. -/
def value (d : Decimal) : ℚ :=
  d.coefficient * 10 ^ d.exponent

theorem value_nonneg (d : Decimal) : 0 ≤ d.value := by
  unfold value
  positivity

theorem value_eq_div (d : Decimal) :
    d.value = (d.coefficient * Nat.pow 10 d.exponent.toNat : ℕ) / (Nat.pow 10 (-d.exponent).toNat : ℕ) := by
  obtain ⟨c, e⟩ := d
  simp only [value, Nat.pow_eq]
  rcases Int.le_total 0 e with he | he
  · obtain ⟨k, rfl⟩ := Int.eq_ofNat_of_zero_le he
    simp
  · obtain ⟨k, hk⟩ := Int.eq_ofNat_of_zero_le (Int.neg_nonneg_of_nonpos he)
    obtain rfl : e = -k := by omega
    simp [div_eq_mul_inv]

theorem exists_isClosest (d : Decimal) : ∃ r, IsClosest d.value r ∧ d.rank = min infinityRank r := by
  rw [value_eq_div]
  exact SnapLisp.exists_isClosest _ (Nat.pow_pos (by decide))

theorem isClosest_iff (hr : r < infinityRank) : IsClosest d.value r ↔ d.rank = r := by
  obtain ⟨r', hclosest, hrank⟩ := d.exists_isClosest
  constructor
  · intro h
    rw [hrank, h.unique hclosest]
    exact Nat.min_eq_right (by rw [← h.unique hclosest]; exact hr.le)
  · intro h
    obtain rfl : r' = r := by omega
    exact hclosest

end Decimal

theorem Binary64.roundsTo_ofDecimal (negative : Bool) (d : Decimal) :
    RoundsTo (if negative then -d.value else d.value) (.ofDecimal negative d) := by
  rw [d.value_eq_div]
  exact roundsTo_ofQuotient negative _ (Nat.pow_pos (by decide))

/-! ### Texts -/

/-- The sum of digits at their places, the first one standing for this power of ten. -/
def placeValue (place : ℤ) : List Char → ℚ
  | [] => 0
  | c :: cs => digitValue c * 10 ^ place + placeValue (place - 1) cs

theorem placeValue_eq (place : ℤ) (cs : List Char) :
    placeValue place cs = ofDigits cs * 10 ^ (place + 1 - cs.length) := by
  induction cs generalizing place with
  | nil => simp [placeValue]
  | cons c cs ih =>
    have hfirst : ofDigits (c :: cs) = digitValue c * 10 ^ cs.length + ofDigits cs := by
      have happend := ofDigits_append [c] cs
      simpa [ofDigits] using happend
    have hplace : place + 1 - (c :: cs).length = place - cs.length := by
      rw [List.length_cons]
      push_cast
      ring
    have hpow : (10 : ℚ) ^ place = 10 ^ cs.length * 10 ^ (place - cs.length) := by
      rw [← zpow_natCast, ← zpow_add₀ (by norm_num)]
      congr 1
      ring
    rw [placeValue, ih, hfirst, hplace, hpow]
    push_cast
    ring_nf

namespace Numeral
variable {sign whole rest : List Char}

/-- The quantity that a numeral denotes, if it has no more than one point. -/
def denoted (text : List Char) : ℚ :=
  let whole := (text.takeWhile (· ≠ '.')).filter isDigit
  let amount := placeValue (whole.length - 1) (text.filter isDigit)
  if text.head? = some '-' then -amount else amount

theorem head?_eq_minus_iff (hsign : IsSignText sign) (hne : whole ≠ [])
    (hw : ∀ c ∈ whole, isDigit c = true) :
    (sign ++ (whole ++ rest)).head? = some '-' ↔ sign = ['-'] := by
  obtain ⟨c, cs, rfl⟩ := List.exists_cons_of_ne_nil hne
  have hc : c ≠ '-' := by
    rintro rfl
    exact absurd (hw '-' List.mem_cons_self) (by decide)
  rcases hsign with rfl | rfl | rfl <;> simp [hc]

theorem IsSignText.filter_isDigit (hsign : IsSignText sign) : sign.filter isDigit = [] := by
  rcases hsign with rfl | rfl | rfl <;> rfl

theorem filter_isDigit_append (hsign : IsSignText sign) (hw : ∀ c ∈ whole, isDigit c = true)
    (hrest : ∀ c ∈ rest.head?, c = '.') (hf : ∀ c ∈ rest.drop 1, isDigit c = true) :
    (sign ++ (whole ++ rest)).filter isDigit = whole ++ rest.drop 1 := by
  rw [List.filter_append, List.filter_append, hsign.filter_isDigit, List.nil_append,
    List.filter_eq_self.2 hw]
  cases rest with
  | nil => rfl
  | cons c fraction =>
    obtain rfl := hrest c rfl
    have hfraction : fraction.filter isDigit = fraction := List.filter_eq_self.2 hf
    rw [List.filter_cons_of_neg (by decide), hfraction, List.drop_one, List.tail_cons]

theorem filter_takeWhile_append (hsign : IsSignText sign) (hw : ∀ c ∈ whole, isDigit c = true)
    (hrest : ∀ c ∈ rest.head?, c = '.') :
    ((sign ++ (whole ++ rest)).takeWhile (· ≠ '.')).filter isDigit = whole := by
  have hpoint : ∀ c ∈ sign ++ whole, decide (c ≠ '.') = true := by
    intro c hc
    refine decide_eq_true fun heq => ?_
    rw [heq] at hc
    rcases List.mem_append.1 hc with hc | hc
    · rcases hsign with rfl | rfl | rfl <;> simp at hc
    · simpa [isDigit_point] using hw _ hc
  have hstop : rest.takeWhile (· ≠ '.') = [] := by
    cases rest with
    | nil => rfl
    | cons c fraction => simp [hrest c rfl]
  rw [← List.append_assoc, List.takeWhile_append_of_pos hpoint, hstop, List.append_nil, List.filter_append,
    hsign.filter_isDigit, List.nil_append, List.filter_eq_self.2 hw]

theorem denoted_append (hsign : IsSignText sign) (hne : whole ≠ []) (hw : ∀ c ∈ whole, isDigit c = true)
    (hrest : ∀ c ∈ rest.head?, c = '.') (hf : ∀ c ∈ rest.drop 1, isDigit c = true) :
    denoted (sign ++ (whole ++ rest)) =
      if sign = ['-'] then -Decimal.value ⟨ofDigits (whole ++ rest.drop 1), -(rest.drop 1).length⟩
      else Decimal.value ⟨ofDigits (whole ++ rest.drop 1), -(rest.drop 1).length⟩ := by
  have hexponent : (whole.length : ℤ) - 1 + 1 - (whole ++ rest.drop 1).length = -(rest.drop 1).length := by
    rw [List.length_append]
    push_cast
    ring
  simp only [denoted, head?_eq_minus_iff hsign hne hw, filter_isDigit_append hsign hw hrest hf,
    filter_takeWhile_append hsign hw hrest, placeValue_eq, hexponent, Decimal.value]

/-- A numeral reads as the number that the quantity it denotes rounds to, with the sign that is written. -/
theorem read?_denoted (hsign : IsSignText sign) (hne : whole ≠ []) (hw : ∀ c ∈ whole, isDigit c = true)
    (hrest : ∀ c ∈ rest.head?, c = '.') (hf : ∀ c ∈ rest.drop 1, isDigit c = true) :
    ∃ x, read? (sign ++ (whole ++ rest)) = some x ∧
      Binary64.RoundsTo (denoted (sign ++ (whole ++ rest))) x ∧ x.isNegative = decide (sign = ['-']) := by
  refine ⟨_, read?_append hsign hne hw hrest hf, ?_, rfl⟩
  have hrounds := Binary64.roundsTo_ofDecimal (decide (sign = ['-']))
    ⟨ofDigits (whole ++ rest.drop 1), -(rest.drop 1).length⟩
  rw [denoted_append hsign hne hw hrest hf]
  simpa only [decide_eq_true_eq] using hrounds

end Numeral
end SnapLisp
