import SnapLisp.Number.Shortest
import SnapLisp.Proofs.Number.Rounding

/-!
# Decimals and ranks

The digits of a natural number denote it (`ofDigits_digits`), zeros can move between the coefficient
of a decimal and its exponent (`Decimal.rank_shift`), and `Decimal.ofRank` is exact. So the shortest
decimal of a rank rounds back to it (`Decimal.rank_shortestOfRank`): whatever neighbour the search
takes has been accepted for just that, and `trim` only moves zeros.
-/

namespace SnapLisp

/-! ### Digits -/

theorem isDigit_digitChar {d : Nat} (h : d < 10) : isDigit (digitChar d) = true := by
  revert d; decide

theorem digitValue_digitChar {d : Nat} (h : d < 10) : digitValue (digitChar d) = d := by
  revert d; decide

theorem digitsOnto_eq (n : Nat) (rest : List Char) : digitsOnto n rest = digits n ++ rest := by
  unfold digits
  induction n using Nat.strongRecOn generalizing rest with
  | ind n ih =>
    unfold digitsOnto
    split
    · rfl
    · rw [ih (n / 10) (by omega), ih (n / 10) (by omega) [_], List.append_assoc, List.singleton_append]

theorem digits_of_lt {n : Nat} (h : n < 10) : digits n = [digitChar n] := by
  rw [digits, digitsOnto, if_pos h]

theorem digits_of_le {n : Nat} (h : 10 ≤ n) :
    digits n = digits (n / 10) ++ [digitChar (n % 10)] := by
  rw [digits, digitsOnto, if_neg (by omega), digitsOnto_eq]

theorem digits_ne_nil (n : Nat) : digits n ≠ [] := by
  rcases Nat.lt_or_ge n 10 with h | h
  · simp [digits_of_lt h]
  · simp [digits_of_le h]

theorem isDigit_of_mem_digits (n : Nat) : ∀ c ∈ digits n, isDigit c = true := by
  induction n using Nat.strongRecOn with
  | ind n ih =>
    intro c hc
    rcases Nat.lt_or_ge n 10 with h | h
    · rw [digits_of_lt h, List.mem_singleton] at hc
      rw [hc]; exact isDigit_digitChar h
    · rw [digits_of_le h, List.mem_append, List.mem_singleton] at hc
      rcases hc with hc | rfl
      · exact ih (n / 10) (by omega) c hc
      · exact isDigit_digitChar (Nat.mod_lt _ (by decide))

@[simp] theorem ofDigits_nil : ofDigits [] = 0 := rfl

theorem ofDigits_concat (cs : List Char) (c : Char) :
    ofDigits (cs ++ [c]) = 10 * ofDigits cs + digitValue c := by
  simp [ofDigits]

@[simp] theorem ofDigits_digits (n : Nat) : ofDigits (digits n) = n := by
  induction n using Nat.strongRecOn with
  | ind n ih =>
    rcases Nat.lt_or_ge n 10 with h | h
    · simp [digits_of_lt h, ofDigits, digitValue_digitChar h]
    · rw [digits_of_le h, ofDigits_concat, ih (n / 10) (by omega),
        digitValue_digitChar (Nat.mod_lt _ (by decide))]
      omega

theorem ofDigits_append (as bs : List Char) :
    ofDigits (as ++ bs) = ofDigits as * 10 ^ bs.length + ofDigits bs := by
  induction bs using List.reverseRecOn with
  | nil => simp
  | append_singleton bs c ih =>
    rw [← List.append_assoc, ofDigits_concat, ofDigits_concat, ih, List.length_append,
      List.length_singleton, pow_succ]
    ring

theorem ofDigits_zeros (k : Nat) : ofDigits (List.replicate k '0') = 0 := by
  induction k with
  | zero => rfl
  | succ k ih => rw [List.replicate_succ', ofDigits_concat, ih]; rfl

namespace Decimal

/-! ### The rank of a decimal -/

theorem rank_shift (c k : Nat) (e : Int) : rank ⟨c * 10 ^ k, e⟩ = rank ⟨c, e + k⟩ := by
  refine nearestRank_congr (by simp) (by simp) ?_
  have hexp : k + e.toNat + (-(e + k)).toNat = (e + k).toNat + (-e).toNat := by omega
  simp only [Nat.pow_eq, mul_assoc, ← pow_add, ← hexp]

@[simp] theorem rank_zero (e : Int) : rank ⟨0, e⟩ = 0 :=
  nearestRank_eq_of_units (by simp) (Nat.zero_le _) (by simp)

@[simp] theorem rank_trim (d : Decimal) : d.trim.rank = d.rank := by
  fun_induction trim d with
  | case1 d h =>
    show rank ⟨0, 0⟩ = rank ⟨d.coefficient, d.exponent⟩
    rw [h, rank_zero, rank_zero]
  | case2 d h0 hmod ih =>
    rw [ih, show d.exponent + 1 = d.exponent + (1 : Nat) from rfl, ← rank_shift]
    congr
    omega
  | case3 => rfl

/-- The decimal of a rank is exact. -/
theorem ofRank_exact (r : Nat) :
    (ofRank r).coefficient * Nat.pow 10 (ofRank r).exponent.toNat * stepsPerOne =
      units r * Nat.pow 10 (-(ofRank r).exponent).toNat := by
  rcases Nat.le_total 1074 (binade r) with hb | hb
  · obtain ⟨k, hk⟩ := Nat.exists_eq_add_of_le hb
    have hr : ofRank r = ⟨significand r * 2 ^ k, 0⟩ := by
      rw [ofRank, if_pos hb, hk, Nat.add_sub_cancel_left, Nat.pow_eq]
    have hu : units r = significand r * (2 ^ k * stepsPerOne) := by
      rw [units, hk, Nat.pow_eq, pow_add, stepsPerOne_eq (Nat.add_zero 1074), pow_zero, mul_one,
        mul_comm (2 ^ k)]
    simp [hr, hu, mul_assoc]
  · obtain ⟨k, hk⟩ := Nat.exists_eq_add_of_le hb
    have hr : ofRank r = ⟨significand r * 5 ^ k, -(k : Int)⟩ := by
      unfold ofRank
      split
      · obtain rfl : k = 0 := by omega
        simp [show binade r = 1074 by omega]
      · rw [hk, Nat.add_sub_cancel_left, Nat.pow_eq]
        congr
        omega
    have hten : (10 : Nat) ^ k = 2 ^ k * 5 ^ k := mul_pow 2 5 k
    simp only [hr, units, stepsPerOne_eq hk.symm, Nat.pow_eq, neg_neg, Int.toNat_natCast, hten,
      Int.toNat_neg_natCast, pow_zero]
    ring

theorem rank_ofRank {r : Nat} (h : r ≤ infinityRank) : (ofRank r).rank = r :=
  nearestRank_eq_of_units (by simp) h (ofRank_exact r)

/-! ### Shortest decimals -/

theorem accepts_of_accepted? {accepts : Decimal → Bool} {d d' : Decimal} {drop : Nat}
    (h : d.accepted? accepts drop = some d') : accepts d' = true := by
  unfold accepted? at h
  split at h
  · split at h <;> cases h <;> assumption
  · cases h; assumption
  · cases h; assumption
  · cases h

theorem accepts_shortestFrom {accepts : Decimal → Bool} {d : Decimal} (hd : accepts d = true)
    (drop : Nat) : accepts (shortestFrom accepts d drop) = true := by
  induction drop with
  | zero => exact hd
  | succ drop ih =>
    unfold shortestFrom
    cases h : d.accepted? accepts (drop + 1) with
    | none => exact ih
    | some d' => exact accepts_of_accepted? h

theorem rank_shortestOfRank {r : Nat} (h : r ≤ infinityRank) : (shortestOfRank r).rank = r := by
  rw [shortestOfRank, shortest, rank_trim]
  have hrank : decide ((ofRank r).rank = r) = true := decide_eq_true (rank_ofRank h)
  exact of_decide_eq_true (@accepts_shortestFrom (fun d => d.rank = r) _ hrank _)

end Decimal

end SnapLisp
