import SnapLisp.Proofs.Number.Denoted

/-!
# The shortest decimal

Between two quantities that round to a rank, all do (`Decimal.rank_of_between`). So if a decimal that
rounds to the rank lies on the grid of some number of dropped digits, a neighbour of the exact decimal on
that grid rounds to it as well and is no farther away (`Decimal.exists_accepted`). Any decimal of fewer
digits than the exact one can be moved to such a grid (`Decimal.exists_onGrid`), and the search takes the
coarsest grid. Main statement: the shortest decimal of a rank has no more digits than any decimal that
rounds to the rank, and is no farther away than those of equally many (`Decimal.shortestOfRank_le`).
-/

namespace SnapLisp

/-! ### Numbers of digits -/

theorem lt_pow_length_digits (n : Nat) : n < 10 ^ (digits n).length := by
  induction n using Nat.strongRecOn with
  | ind n ih =>
    rcases Nat.lt_or_ge n 10 with h | h
    · simpa [digits_of_lt h] using h
    · have hdiv := ih (n / 10) (by omega)
      rw [digits_of_le h, List.length_append, List.length_singleton, pow_succ]
      omega

theorem pow_length_digits_le {n : Nat} (hn : n ≠ 0) : 10 ^ ((digits n).length - 1) ≤ n := by
  induction n using Nat.strongRecOn with
  | ind n ih =>
    rcases Nat.lt_or_ge n 10 with h | h
    · simpa [digits_of_lt h] using Nat.one_le_iff_ne_zero.2 hn
    · have hdiv := ih (n / 10) (by omega) (by omega)
      have hpos : 0 < (digits (n / 10)).length := List.length_pos_iff.2 (digits_ne_nil _)
      obtain ⟨l, hl⟩ := Nat.exists_eq_add_of_lt hpos
      rw [hl] at hdiv
      rw [digits_of_le h, List.length_append, List.length_singleton, hl]
      simp only [Nat.zero_add, Nat.add_sub_cancel, pow_succ] at hdiv ⊢
      omega

theorem length_digits_le {n j : Nat} (hj : 1 ≤ j) (h : n < 10 ^ j) : (digits n).length ≤ j := by
  by_cases hn : n = 0
  · rwa [hn, digits_of_lt (by decide), List.length_singleton]
  · by_contra hlt
    have hpow : 10 ^ j ≤ 10 ^ ((digits n).length - 1) := Nat.pow_le_pow_right (by decide) (by omega)
    exact absurd (hpow.trans (pow_length_digits_le hn)) (Nat.not_le.2 h)

namespace Decimal
variable {d p : Decimal} {r k t m c : Nat} {e : ℤ}

/-! ### Values -/

theorem value_ofRank (r : Nat) : (ofRank r).value = magnitude r := by
  have hexact := ofRank_exact r
  rw [value_eq_div, magnitude, div_eq_div_iff (Nat.cast_ne_zero.2 (Nat.pow_pos (by decide)).ne')
    (Nat.cast_ne_zero.2 stepsPerOne_pos.ne')]
  exact_mod_cast hexact

theorem value_shift (c k : Nat) (e : ℤ) : value ⟨c * 10 ^ k, e⟩ = value ⟨c, e + k⟩ := by
  simp only [value]
  rw [zpow_add₀ (by norm_num), zpow_natCast]
  push_cast
  ring

theorem value_pow (k : Nat) (e : ℤ) : value ⟨10 ^ k, e⟩ = 10 ^ (e + k) := by
  have hshift := value_shift 1 k e
  rw [one_mul] at hshift
  rw [hshift, value, Nat.cast_one, one_mul]

theorem value_add (c t : Nat) (e : ℤ) : value ⟨c + t, e⟩ = value ⟨c, e⟩ + value ⟨t, e⟩ := by
  simp only [value]
  push_cast
  ring

theorem value_le_iff : value ⟨c, e⟩ ≤ value ⟨t, e⟩ ↔ c ≤ t := by
  have hpos : (0 : ℚ) < 10 ^ e := by positivity
  simp only [value]
  rw [mul_le_mul_iff_left₀ hpos, Nat.cast_le]

theorem value_trim (d : Decimal) : d.trim.value = d.value := by
  fun_induction trim d with
  | case1 d h => simp [value, h]
  | case2 d h0 hmod ih =>
    have hcoefficient : d.coefficient = d.coefficient / 10 * 10 ^ 1 := by omega
    have hshift := value_shift (d.coefficient / 10) 1 d.exponent
    rw [← hcoefficient] at hshift
    exact ih.trans hshift.symm
  | case3 => rfl

/-- Between two decimals that round to a rank, all do. -/
theorem rank_of_between {low high : Decimal} (hr : r < infinityRank) (hlow : low.rank = r)
    (hhigh : high.rank = r) (hp : low.value ≤ p.value) (hp' : p.value ≤ high.value) : p.rank = r := by
  obtain ⟨r', hclosest, -⟩ := p.exists_isClosest
  have hle := ((isClosest_iff hr).2 hlow).mono hclosest hp
  have hge := hclosest.mono ((isClosest_iff hr).2 hhigh) hp'
  exact (isClosest_iff hr).1 (Nat.le_antisymm hge hle ▸ hclosest)

/-! ### Neighbours on a grid -/

theorem value_below (d : Decimal) (k : Nat) :
    (d.below k).value = value ⟨d.coefficient / 10 ^ k * 10 ^ k, d.exponent⟩ := by
  rw [value_shift]
  rfl

theorem value_above (d : Decimal) (k : Nat) :
    (d.above k).value = value ⟨(d.coefficient / 10 ^ k + 1) * 10 ^ k, d.exponent⟩ := by
  rw [value_shift]
  rfl

theorem abs_below_sub (d : Decimal) (k : Nat) :
    |(d.below k).value - d.value| = value ⟨d.coefficient % 10 ^ k, d.exponent⟩ := by
  have hsum : d.value = (d.below k).value + value ⟨d.coefficient % 10 ^ k, d.exponent⟩ := by
    rw [value_below, ← value_add, Nat.div_add_mod']
  rw [hsum, sub_add_cancel_left, abs_neg, abs_of_nonneg (value_nonneg _)]

theorem abs_above_sub (d : Decimal) (k : Nat) :
    |(d.above k).value - d.value| = value ⟨10 ^ k - d.coefficient % 10 ^ k, d.exponent⟩ := by
  have hmod := Nat.mod_lt d.coefficient (show 0 < 10 ^ k by positivity)
  have hdiv := Nat.div_add_mod' d.coefficient (10 ^ k)
  have hsum : (d.above k).value = d.value + value ⟨10 ^ k - d.coefficient % 10 ^ k, d.exponent⟩ := by
    rw [value_above, ← value_add, Nat.succ_mul]
    congr 2
    omega
  rw [hsum, add_sub_cancel_left, abs_of_nonneg (value_nonneg _)]

theorem favoursBelow_spec (d : Decimal) (k : Nat) :
    d.favoursBelow k = true ∧ 2 * (d.coefficient % 10 ^ k) ≤ 10 ^ k ∨
      d.favoursBelow k = false ∧ 10 ^ k ≤ 2 * (d.coefficient % 10 ^ k) := by
  unfold favoursBelow
  simp only [Nat.pow_eq]
  rcases lt_trichotomy (2 * (d.coefficient % 10 ^ k)) (10 ^ k) with h | h | h
  · rw [Nat.compare_eq_lt.2 h]
    exact .inl ⟨rfl, h.le⟩
  · rw [Nat.compare_eq_eq.2 h]
    rcases Bool.eq_false_or_eq_true (decide (d.coefficient / 10 ^ k % 2 = 0)) with heven | hodd
    · exact .inl ⟨heven, h.le⟩
    · exact .inr ⟨hodd, h.ge⟩
  · rw [Nat.compare_eq_gt.2 h]
    exact .inr ⟨rfl, h.le⟩

/-- The neighbour that is favoured is no farther away than either. -/
theorem abs_favoured_sub (d : Decimal) (k : Nat) :
    |(if d.favoursBelow k then d.below k else d.above k).value - d.value| ≤ |(d.below k).value - d.value| ∧
      |(if d.favoursBelow k then d.below k else d.above k).value - d.value| ≤
        |(d.above k).value - d.value| := by
  have hmod := Nat.mod_lt d.coefficient (show 0 < 10 ^ k by positivity)
  rw [abs_below_sub, abs_above_sub]
  rcases d.favoursBelow_spec k with ⟨hbelow, hle⟩ | ⟨habove, hle⟩
  · rw [hbelow, if_pos rfl, abs_below_sub, value_le_iff, value_le_iff]
    omega
  · rw [habove, if_neg Bool.false_ne_true, abs_above_sub, value_le_iff, value_le_iff]
    omega

/-- An accepted neighbour makes the search take one that is as close. -/
theorem exists_accepted?_eq (accepts : Decimal → Bool) (h : accepts p = true)
    (hp : p = d.below k ∨ p = d.above k) :
    ∃ a, d.accepted? accepts k = some a ∧ |a.value - d.value| ≤ |p.value - d.value| := by
  unfold accepted?
  split
  · obtain ⟨hbelow, habove⟩ := d.abs_favoured_sub k
    refine ⟨_, rfl, ?_⟩
    rcases hp with rfl | rfl
    · exact hbelow
    · exact habove
  · rename_i _ habove
    obtain rfl := hp.resolve_right (by rintro rfl; simp [habove] at h)
    exact ⟨_, rfl, le_rfl⟩
  · rename_i hbelow _
    obtain rfl := hp.resolve_left (by rintro rfl; simp [hbelow] at h)
    exact ⟨_, rfl, le_rfl⟩
  · rename_i hbelow habove
    rcases hp with rfl | rfl
    · simp [hbelow] at h
    · simp [habove] at h

/-- If a decimal on a grid rounds to the rank of `d`, then so does a neighbour of `d` on this grid. -/
theorem exists_accepted (hr : r < infinityRank) (hd : d.rank = r) (hp : p.rank = r)
    (hgrid : p.value = value ⟨t * 10 ^ k, d.exponent⟩) :
    ∃ a, d.accepted? (fun d => d.rank = r) k = some a ∧ |a.value - d.value| ≤ |p.value - d.value| := by
  have hmod := Nat.mod_lt d.coefficient (show 0 < 10 ^ k by positivity)
  have hdiv := Nat.div_add_mod' d.coefficient (10 ^ k)
  rcases Nat.lt_or_ge d.coefficient (t * 10 ^ k) with h | h
  · have hlow : d.value ≤ (d.above k).value := by
      rw [value_above]
      refine value_le_iff.2 ?_
      rw [Nat.succ_mul]
      omega
    have hhigh : (d.above k).value ≤ p.value := by
      rw [value_above, hgrid]
      refine value_le_iff.2 (Nat.mul_le_mul_right _ ?_)
      exact (Nat.div_lt_iff_lt_mul (by positivity)).2 h
    have haccepts := rank_of_between hr hd hp hlow hhigh
    obtain ⟨a, ha, hle⟩ := exists_accepted?_eq (fun d => d.rank = r)
      (decide_eq_true haccepts) (.inr rfl)
    refine ⟨a, ha, hle.trans ?_⟩
    rw [abs_of_nonneg (sub_nonneg.2 hlow), abs_of_nonneg (sub_nonneg.2 (hlow.trans hhigh))]
    linarith
  · have hhigh : (d.below k).value ≤ d.value := by
      rw [value_below]
      exact value_le_iff.2 (by omega)
    have hlow : p.value ≤ (d.below k).value := by
      rw [value_below, hgrid]
      refine value_le_iff.2 (Nat.mul_le_mul_right _ ?_)
      exact (Nat.le_div_iff_mul_le (by positivity)).2 h
    have haccepts := rank_of_between hr hp hd hlow hhigh
    obtain ⟨a, ha, hle⟩ := exists_accepted?_eq (fun d => d.rank = r)
      (decide_eq_true haccepts) (.inl rfl)
    refine ⟨a, ha, hle.trans ?_⟩
    rw [abs_of_nonpos (sub_nonpos.2 hhigh), abs_of_nonpos (sub_nonpos.2 (hlow.trans hhigh))]
    linarith

/-- A decimal of fewer digits lies on the grid with as many digits, or below all decimals with the leading
digit of `d`, and then the first of these is closer. -/
theorem exists_onGrid (hr : r < infinityRank) (hd : d.rank = r) (hp : p.rank = r)
    (hne : d.coefficient ≠ 0) (hm : p.coefficient < 10 ^ m) (hpos : 1 ≤ m)
    (hle : m ≤ (digits d.coefficient).length) :
    ∃ (p' : Decimal) (t : Nat), p'.rank = r ∧
      p'.value = value ⟨t * 10 ^ ((digits d.coefficient).length - m), d.exponent⟩ ∧
      |p'.value - d.value| ≤ |p.value - d.value| := by
  obtain ⟨n, hn⟩ : ∃ n, (digits d.coefficient).length = n + m := ⟨_, (Nat.sub_add_cancel hle).symm⟩
  have hlead := pow_length_digits_le hne
  rw [hn] at hlead ⊢
  rw [Nat.add_sub_cancel]
  rcases le_or_gt (value ⟨10 ^ (n + m - 1), d.exponent⟩) p.value with h | h
  · -- The exponent cannot be smaller than that of the grid.
    have hexponent : d.exponent + n ≤ p.exponent := by
      have hlt : p.value < value ⟨10 ^ m, p.exponent⟩ := lt_of_not_ge fun hge =>
        Nat.not_le.2 hm (value_le_iff.1 hge)
      have hpow := h.trans_lt hlt
      rw [value_pow, value_pow, zpow_lt_zpow_iff_right₀ (by norm_num)] at hpow
      omega
    obtain ⟨j, hj⟩ := Int.eq_ofNat_of_zero_le (sub_nonneg.2 hexponent)
    refine ⟨p, p.coefficient * 10 ^ j, hp, ?_, le_rfl⟩
    rw [mul_assoc, ← pow_add, value_shift]
    have : d.exponent + (j + n : ℕ) = p.exponent := by push_cast; omega
    rw [this]
  · refine ⟨⟨10 ^ (n + m - 1), d.exponent⟩, 10 ^ (m - 1), ?_, ?_, ?_⟩
    · exact rank_of_between hr hp hd h.le (value_le_iff.2 hlead)
    · rw [← pow_add]
      congr 3
      omega
    · have hlead' : value ⟨10 ^ (n + m - 1), d.exponent⟩ ≤ d.value := value_le_iff.2 hlead
      rw [abs_of_nonpos (sub_nonpos.2 hlead'), abs_of_nonpos (sub_nonpos.2 (h.le.trans hlead'))]
      linarith

/-! ### The search -/

theorem accepted?_zero {accepts : Decimal → Bool} (h : accepts d = true) :
    d.accepted? accepts 0 = some d := by
  have hbelow : d.below 0 = d := by simp [below]
  have hfavours : d.favoursBelow 0 = true := by simp [favoursBelow, Nat.mod_one, Nat.compare_eq_lt.2]
  unfold accepted?
  rw [hbelow, h, hfavours]
  cases accepts (d.above 0) <;> rfl

/-- A neighbour has no more digits than are left, or it is a power of ten. -/
theorem coefficient_le_of_accepted? {accepts : Decimal → Bool} {a : Decimal} {l : Nat}
    (h : d.accepted? accepts k = some a) (hl : d.coefficient < 10 ^ (l + k)) : a.coefficient ≤ 10 ^ l := by
  have hdiv : d.coefficient / 10 ^ k < 10 ^ l := by
    rwa [Nat.div_lt_iff_lt_mul (by positivity), ← pow_add]
  have hbelow : (d.below k).coefficient ≤ 10 ^ l := hdiv.le
  have habove : (d.above k).coefficient ≤ 10 ^ l := hdiv
  unfold accepted? at h
  split at h
  · cases h
    split
    · exact hbelow
    · exact habove
  · cases h
    exact hbelow
  · cases h
    exact habove
  · cases h

/-- The search takes the coarsest grid that has an accepted neighbour. -/
theorem exists_shortestFrom (accepts : Decimal → Bool) (h : accepts d = true) (drop : Nat) :
    ∃ k ≤ drop, d.accepted? accepts k = some (shortestFrom accepts d drop) ∧
      ∀ k', k < k' → k' ≤ drop → d.accepted? accepts k' = none := by
  induction drop with
  | zero => exact ⟨0, le_rfl, accepted?_zero h, fun k' hlt hle => absurd hlt (Nat.not_lt.2 hle)⟩
  | succ drop ih =>
    rw [shortestFrom]
    cases hsearch : d.accepted? accepts (drop + 1) with
    | some a =>
      exact ⟨drop + 1, le_rfl, hsearch, fun k' hlt hle => absurd hlt (Nat.not_lt.2 hle)⟩
    | none =>
      obtain ⟨k, hk, hfound, hnone⟩ := ih
      refine ⟨k, Nat.le_succ_of_le hk, hfound, fun k' hlt hle => ?_⟩
      rcases Nat.lt_or_ge drop k' with h' | h'
      · rwa [show k' = drop + 1 by omega]
      · exact hnone k' hlt h'

theorem trim_coefficient_le (d : Decimal) : d.trim.coefficient ≤ d.coefficient := by
  fun_induction trim d with
  | case1 => exact Nat.zero_le _
  | case2 d h0 hmod ih => exact ih.trans (Nat.div_le_self ..)
  | case3 => exact le_rfl

theorem trim_coefficient_mod (hne : d.coefficient ≠ 0) : d.trim.coefficient % 10 ≠ 0 := by
  fun_induction trim d with
  | case1 d h => exact absurd h hne
  | case2 d h0 hmod ih => exact ih (by simp only; omega)
  | case3 d h0 hmod => exact hmod

/-- Rounding up can give a power of ten, which has one digit only. -/
theorem length_digits_trim_le (hne : d.coefficient ≠ 0) {j : Nat} (hj : 1 ≤ j)
    (h : d.coefficient ≤ 10 ^ j) :
    (digits d.trim.coefficient).length ≤ j := by
  refine length_digits_le hj (lt_of_le_of_ne (d.trim_coefficient_le.trans h) fun heq => ?_)
  have hmod := trim_coefficient_mod hne
  obtain ⟨i, rfl⟩ := Nat.exists_eq_add_of_le' hj
  rw [heq, pow_succ, Nat.mul_mod_left] at hmod
  exact hmod rfl

theorem coefficient_ne_zero (h : d.rank ≠ 0) : d.coefficient ≠ 0 := by
  obtain ⟨c, e⟩ := d
  rintro rfl
  exact h (rank_zero e)

/-- What the search for a rank takes, if its exact decimal has `l + 1` digits. -/
theorem exists_shortestOfRank (hr : r < infinityRank) {l : Nat}
    (hl : (digits (ofRank r).coefficient).length = l + 1) : ∃ k ≤ l, ∃ a,
      (ofRank r).accepted? (fun d => d.rank = r) k = some a ∧ shortestOfRank r = a.trim ∧
      ∀ k', k < k' → k' ≤ l → (ofRank r).accepted? (fun d => d.rank = r) k' = none := by
  obtain ⟨k, hk, hfound, hnone⟩ := exists_shortestFrom (fun d => d.rank = r)
    (decide_eq_true (rank_ofRank hr.le)) l
  refine ⟨k, hk, _, hfound, ?_, hnone⟩
  rw [shortestOfRank, shortest, hl, Nat.add_sub_cancel]

/-- The shortest decimal has no more digits than any decimal that rounds to the rank, and it is no farther
away than one of as many digits. -/
theorem shortestOfRank_le (hr : r < infinityRank) (hpos : r ≠ 0) (hp : p.rank = r)
    (hm : p.coefficient < 10 ^ m) : (digits (shortestOfRank r).coefficient).length ≤ m ∧
      (m = (digits (shortestOfRank r).coefficient).length →
        |(shortestOfRank r).value - magnitude r| ≤ |p.value - magnitude r|) := by
  have hd := rank_ofRank hr.le
  have hne := coefficient_ne_zero (hd.symm ▸ hpos)
  obtain ⟨l, hl⟩ := Nat.exists_eq_add_of_le' (List.length_pos_iff.2 (digits_ne_nil (ofRank r).coefficient))
  obtain ⟨k, hk, a, hfound, hshortest, hnone⟩ := exists_shortestOfRank hr hl
  have ha : a.coefficient ≠ 0 := by
    have haccepted : a.rank = r := of_decide_eq_true (accepts_of_accepted? hfound)
    exact coefficient_ne_zero (haccepted.symm ▸ hpos)
  have hlength : (digits a.trim.coefficient).length ≤ l + 1 - k := by
    refine length_digits_trim_le ha (by omega) (coefficient_le_of_accepted? hfound ?_)
    rw [Nat.sub_add_cancel (by omega), ← hl]
    exact lt_pow_length_digits _
  rw [hshortest, value_trim]
  rcases Nat.lt_or_ge (l + 1) m with hlt | hge
  · exact ⟨by omega, fun h => by omega⟩
  have hm1 : 1 ≤ m := by
    by_contra h0
    obtain rfl : m = 0 := by omega
    exact coefficient_ne_zero (hp.symm ▸ hpos) (Nat.lt_one_iff.1 hm)
  obtain ⟨p', t, hp', hgrid, hcloser⟩ := exists_onGrid hr hd hp hne hm hm1 (hl ▸ hge)
  obtain ⟨a', ha', hclosest⟩ := exists_accepted hr hd hp' hgrid
  rw [hl] at ha'
  have hdrop : l + 1 - m ≤ k := by
    by_contra hlt
    rw [hnone _ (Nat.lt_of_not_le hlt) (by omega)] at ha'
    cases ha'
  refine ⟨by omega, fun heq => ?_⟩
  obtain rfl : a' = a := by
    rw [show l + 1 - m = k by omega, hfound] at ha'
    exact (Option.some.inj ha').symm
  rw [← value_ofRank]
  exact hclosest.trans hcloser

end Decimal
end SnapLisp
