import SnapLisp.Number.Rank
import Mathlib.Tactic.Positivity
import Mathlib.Tactic.Ring

/-!
# Rounding to ranks

A rank is `shift * binadeSize + k` for its binade `shift` and its significand `k`, and has the
magnitude `k * 2 ^ shift`; the same holds one step beyond the binade (`units_eq`), which is why the
magnitudes grow from each rank to the next across all binades. `floorRank` finds the rank below a
whole number of steps. `nearestRank` depends on the quotient alone, not on how it is written
(`nearestRank_congr`), and gives back the rank whose magnitude the quotient is
(`nearestRank_eq_of_units`).
-/

namespace SnapLisp

theorem binadeSize_eq : binadeSize = 2 ^ 52 := rfl

theorem binadeSize_pos : 0 < binadeSize := by decide

theorem stepsPerOne_eq {a b : Nat} (h : a + b = 1074) : stepsPerOne = 2 ^ a * 2 ^ b := by
  unfold stepsPerOne
  rw [← h, Nat.pow_eq, pow_add]

theorem significand_lt (rank : Nat) : significand rank < 2 * binadeSize := by
  have hmod := Nat.mod_lt rank binadeSize_pos
  unfold significand
  split <;> omega

/-- Only the lowest binade has significands that lack the leading bit. -/
theorem binade_eq_zero_or (rank : Nat) : binade rank = 0 ∨ binadeSize ≤ significand rank := by
  unfold significand binade
  split
  · rename_i h
    exact .inl (by rw [Nat.div_eq_of_lt h])
  · exact .inr (Nat.le_add_right ..)

theorem binade_mul_add_significand (rank : Nat) :
    binade rank * binadeSize + significand rank = rank := by
  unfold significand binade
  split
  · rename_i h
    rw [Nat.div_eq_of_lt h]; omega
  · rename_i h
    have hpos : 1 ≤ rank / binadeSize := (Nat.one_le_div_iff binadeSize_pos).2 (Nat.le_of_not_lt h)
    have hdm := Nat.div_add_mod' rank binadeSize
    have hle : binadeSize ≤ rank / binadeSize * binadeSize := Nat.le_mul_of_pos_left _ hpos
    rw [Nat.sub_mul]
    omega

/-- The magnitude of a rank from any way to write it, the first rank of the next binade counted as
the last one of this. -/
theorem units_eq {shift k : Nat} (hlow : shift = 0 ∨ binadeSize ≤ k) (hk : k ≤ 2 * binadeSize) :
    units (shift * binadeSize + k) = k * 2 ^ shift := by
  have hB := binadeSize_pos
  rcases Nat.lt_or_ge k binadeSize with hlt | hge
  · have hs : shift = 0 := hlow.resolve_right (Nat.not_le.2 hlt)
    subst hs
    simp [units, significand, binade, hlt, Nat.div_eq_of_lt hlt]
  obtain ⟨m, rfl⟩ := Nat.exists_eq_add_of_le hge
  have hr : shift * binadeSize + (binadeSize + m) = m + binadeSize * (shift + 1) := by ring
  have hnlt : ¬ m + binadeSize * (shift + 1) < binadeSize := by
    have := Nat.le_mul_of_pos_right binadeSize (Nat.succ_pos shift)
    omega
  rcases Nat.lt_or_ge m binadeSize with hm | hm
  · rw [hr, units, significand, binade, if_neg hnlt, Nat.add_mul_mod_self_left,
      Nat.mod_eq_of_lt hm, Nat.add_mul_div_left _ _ hB, Nat.div_eq_of_lt hm]
    simp
  · have hm' : m = binadeSize := by omega
    have hr' : m + binadeSize * (shift + 1) = 0 + binadeSize * (shift + 2) := by rw [hm']; ring
    have hnlt' : ¬ 0 + binadeSize * (shift + 2) < binadeSize := by rwa [← hr']
    rw [hr, hr', units, significand, binade, if_neg hnlt', Nat.add_mul_mod_self_left,
      Nat.add_mul_div_left _ _ hB]
    simp only [Nat.zero_mod, Nat.zero_div, Nat.zero_add, Nat.add_zero, Nat.pow_eq, hm']
    rw [show shift + 2 - 1 = shift + 1 by omega]
    ring

theorem units_lt_units_succ (rank : Nat) : units rank < units (rank + 1) := by
  have hsucc : units (rank + 1) = (significand rank + 1) * 2 ^ binade rank := by
    have hlow : binade rank = 0 ∨ binadeSize ≤ significand rank + 1 :=
      (binade_eq_zero_or rank).imp_right Nat.le_succ_of_le
    rw [← units_eq hlow (significand_lt rank), ← Nat.add_assoc, binade_mul_add_significand]
  rw [hsucc, units, Nat.pow_eq]
  exact Nat.mul_lt_mul_of_pos_right (Nat.lt_succ_self _) (by positivity)

theorem units_strictMono : StrictMono units :=
  strictMono_nat_of_lt_succ units_lt_units_succ

@[simp] theorem units_zero : units 0 = 0 := by
  simp [units, significand, binadeSize_pos]

/-- `floorRank` is the last rank whose magnitude does not exceed the steps. -/
theorem floorRank_spec (steps : Nat) :
    units (floorRank steps) ≤ steps ∧ steps < units (floorRank steps + 1) := by
  obtain ⟨shift, hshift⟩ : ∃ shift, shift = steps.log2 - 52 := ⟨_, rfl⟩
  obtain ⟨k, hk⟩ : ∃ k, k = steps / 2 ^ shift := ⟨_, rfl⟩
  have hrank : floorRank steps = shift * binadeSize + k := by
    rw [floorRank, ← hshift, hk, Nat.pow_eq]
  have hlt : k < 2 * binadeSize := by
    rw [hk, Nat.div_lt_iff_lt_mul (by positivity), binadeSize_eq, mul_assoc, ← pow_add, ← pow_succ']
    refine Nat.lt_of_lt_of_le (Nat.lt_log2_self (n := steps)) (Nat.pow_le_pow_right (by decide) ?_)
    omega
  have hlow : shift = 0 ∨ binadeSize ≤ k := by
    rcases Nat.eq_zero_or_pos shift with h0 | hpos
    · exact .inl h0
    · have hne : steps ≠ 0 := by rintro rfl; simp at hshift; omega
      rw [hk, Nat.le_div_iff_mul_le (by positivity), binadeSize_eq, ← pow_add,
        show 52 + shift = steps.log2 by omega]
      exact .inr (Nat.log2_self_le hne)
  have hdm := Nat.div_add_mod' steps (2 ^ shift)
  have hmod := Nat.mod_lt steps (show 0 < 2 ^ shift by positivity)
  rw [hrank, Nat.add_assoc, units_eq hlow hlt.le, units_eq (hlow.imp_right Nat.le_succ_of_le) hlt,
    hk, Nat.succ_mul]
  omega

theorem floorRank_eq_iff {steps rank : Nat} :
    floorRank steps = rank ↔ units rank ≤ steps ∧ steps < units (rank + 1) := by
  constructor
  · rintro rfl
    exact floorRank_spec steps
  · rintro ⟨hle, hlt⟩
    obtain ⟨hle', hlt'⟩ := floorRank_spec steps
    have h1 := units_strictMono.lt_iff_lt.1 (Nat.lt_of_le_of_lt hle' hlt)
    have h2 := units_strictMono.lt_iff_lt.1 (Nat.lt_of_le_of_lt hle hlt')
    omega

/-- A quotient that is the magnitude of a rank rounds to it. -/
theorem nearestRank_eq_of_units {num den rank : Nat} (hden : 0 < den) (hrank : rank ≤ infinityRank)
    (h : num * stepsPerOne = units rank * den) : nearestRank num den = rank := by
  have hlt := units_lt_units_succ rank
  have hfloor : floorRank (units rank * den / den) = rank :=
    floorRank_eq_iff.2 (by rw [Nat.mul_div_cancel _ hden]; exact ⟨Nat.le_refl _, hlt⟩)
  have hmid : 2 * (units rank * den) < (units rank + units (rank + 1)) * den := by
    rw [← Nat.mul_assoc]
    exact Nat.mul_lt_mul_of_pos_right (by omega) hden
  simp only [nearestRank, h, hfloor, Nat.compare_eq_lt.2 hmid]
  exact Nat.min_eq_right hrank

theorem nearestRank_mul_right {num den k : Nat} (hk : 0 < k) :
    nearestRank (num * k) (den * k) = nearestRank num den := by
  have hsteps : num * k * stepsPerOne = num * stepsPerOne * k := Nat.mul_right_comm ..
  simp only [nearestRank, hsteps, Nat.mul_div_mul_right _ _ hk, ← Nat.mul_assoc,
    Nat.compare_eq_ite_lt, Nat.mul_lt_mul_right hk]

/-- Equal quotients round to the same rank. -/
theorem nearestRank_congr {num den num' den' : Nat} (hden : 0 < den) (hden' : 0 < den')
    (h : num * den' = num' * den) : nearestRank num den = nearestRank num' den' := by
  rw [← nearestRank_mul_right hden', h, Nat.mul_comm den, nearestRank_mul_right hden]

end SnapLisp
