import Mathlib.Algebra.Order.Field.Basic
import Mathlib.Algebra.Order.Ring.Abs
import Mathlib.Algebra.Order.Ring.Rat
import Mathlib.Data.Nat.Cast.Order.Field
import Mathlib.Tactic.FieldSimp
import Mathlib.Tactic.Linarith
import SnapLisp.Number.Binary64
import SnapLisp.Proofs.Number.Rounding

/-!
# Nearest numbers

A rank is closest to a quantity if no other one has a magnitude closer to it, and on a tie it is the
even one (`IsClosest`); the ranks go on beyond infinity here, where the next binade would stand. There is
one closest rank only, it grows with the quantity (`IsClosest.mono`), and `nearestRank` finds it
(`exists_isClosest`).

`Binary64.RoundsTo` says the same of numbers with signs, the quantities beyond the range being those that
round to an infinity. Main statement: the number of a quotient is what the quotient rounds to
(`Binary64.roundsTo_ofQuotient`).
-/

namespace SnapLisp

/-- The magnitude of a rank, exactly. -/
def magnitude (rank : Nat) : ℚ :=
  units rank / stepsPerOne

theorem stepsPerOne_pos : 0 < stepsPerOne := by
  rw [stepsPerOne_eq (Nat.add_zero 1074)]
  positivity

theorem stepsPerOne_ne_zero : (stepsPerOne : ℚ) ≠ 0 :=
  Nat.cast_ne_zero.2 stepsPerOne_pos.ne'

theorem magnitude_strictMono : StrictMono magnitude := fun _ _ h =>
  div_lt_div_of_pos_right (Nat.cast_lt.2 (units_strictMono h)) (Nat.cast_pos.2 stepsPerOne_pos)

@[simp] theorem magnitude_zero : magnitude 0 = 0 := by
  rw [magnitude, units_zero, Nat.cast_zero, zero_div]

theorem magnitude_nonneg (rank : Nat) : 0 ≤ magnitude rank := by
  rw [← magnitude_zero]
  exact magnitude_strictMono.monotone (Nat.zero_le rank)

/-! ### The closest rank -/

/-- No rank is closer to the quantity, and if another one is as close, this one is even. -/
structure IsClosest (q : ℚ) (rank : Nat) : Prop where
  le : ∀ other, |magnitude rank - q| ≤ |magnitude other - q|
  even : ∀ other, other ≠ rank → |magnitude rank - q| = |magnitude other - q| → rank % 2 = 0

namespace IsClosest
variable {q q' : ℚ} {r r' k : Nat}

/-- A quantity between two neighbours is closest to the one on its side of the middle, and in the middle
to the even one. -/
theorem of_neighbours (hlow : magnitude k ≤ q) (hhigh : q ≤ magnitude (k + 1))
    (hside : r = k ∧ 2 * q ≤ magnitude k + magnitude (k + 1) ∨
      r = k + 1 ∧ magnitude k + magnitude (k + 1) ≤ 2 * q)
    (htie : 2 * q = magnitude k + magnitude (k + 1) → r % 2 = 0) : IsClosest q r := by
  have hbelow : |magnitude k - q| = q - magnitude k := by
    rw [abs_sub_comm, abs_of_nonneg (sub_nonneg.2 hlow)]
  have habove : |magnitude (k + 1) - q| = magnitude (k + 1) - q := abs_of_nonneg (sub_nonneg.2 hhigh)
  have hle : |magnitude r - q| ≤ q - magnitude k ∧ |magnitude r - q| ≤ magnitude (k + 1) - q := by
    rcases hside with ⟨rfl, h⟩ | ⟨rfl, h⟩
    · rw [hbelow]
      exact ⟨le_rfl, by linarith⟩
    · rw [habove]
      exact ⟨by linarith, le_rfl⟩
  have hfar : ∀ other, other = k ∨ other = k + 1 ∨ |magnitude r - q| < |magnitude other - q| := by
    intro other
    rcases Nat.lt_or_ge other k with h | h
    · have hlt := magnitude_strictMono h
      rw [abs_sub_comm (magnitude other), abs_of_nonneg (by linarith : 0 ≤ q - magnitude other)]
      exact .inr (.inr (by linarith))
    rcases Nat.lt_or_ge (k + 1) other with h' | h'
    · have hlt := magnitude_strictMono h'
      rw [abs_of_nonneg (by linarith : 0 ≤ magnitude other - q)]
      exact .inr (.inr (by linarith))
    · exact (by omega : other = k ∨ other = k + 1).imp_right .inl
  refine ⟨fun other => ?_, fun other hne heq => htie ?_⟩
  · rcases hfar other with rfl | rfl | h
    · exact hle.1.trans hbelow.ge
    · exact hle.2.trans habove.ge
    · exact h.le
  · rcases hfar other with rfl | rfl | h
    · obtain ⟨rfl, -⟩ := hside.resolve_left fun h => hne h.1.symm
      rw [hbelow, habove] at heq
      linarith
    · obtain ⟨rfl, -⟩ := hside.resolve_right fun h => hne h.1.symm
      rw [hbelow, habove] at heq
      linarith
    · exact absurd heq h.ne

theorem middle_le (h : IsClosest q r) (hlt : k < r) : magnitude k + magnitude r ≤ 2 * q := by
  have hmag := magnitude_strictMono hlt
  have hle := (le_abs_self _).trans (h.le k)
  rcases le_abs.1 hle with hle | hle <;> linarith

theorem le_middle (h : IsClosest q r) (hlt : r < k) : 2 * q ≤ magnitude r + magnitude k := by
  have hmag := magnitude_strictMono hlt
  have hle := (neg_le_abs _).trans (h.le k)
  rcases le_abs.1 hle with hle | hle <;> linarith

/-- A larger quantity has no smaller rank. -/
theorem mono (h : IsClosest q r) (h' : IsClosest q' r') (hq : q ≤ q') : r ≤ r' := by
  by_contra hlt
  rw [Nat.not_le] at hlt
  -- Both quantities are the middle of the two magnitudes, so both ranks are even and one lies between.
  have hmiddle := h.middle_le hlt
  have hmiddle' := h'.le_middle hlt
  have heq : |magnitude r - q| = |magnitude r' - q| := by
    rw [show magnitude r - q = -(magnitude r' - q) by linarith, abs_neg]
  have heq' : |magnitude r' - q'| = |magnitude r - q'| := by
    rw [show magnitude r' - q' = -(magnitude r - q') by linarith, abs_neg]
  have heven := h.even r' hlt.ne heq
  have heven' := h'.even r hlt.ne' heq'
  have hbetween := h.middle_le (show r' + 1 < r by omega)
  have hmag := magnitude_strictMono (Nat.lt_succ_self r')
  linarith

theorem unique (h : IsClosest q r) (h' : IsClosest q r') : r = r' :=
  Nat.le_antisymm (h.mono h' le_rfl) (h'.mono h le_rfl)

end IsClosest

section
variable {num den k : Nat} (hden : 0 < den)
include hden

theorem magnitude_le_div_iff : magnitude k ≤ num / den ↔ units k * den ≤ num * stepsPerOne := by
  rw [magnitude, div_le_div_iff₀ (Nat.cast_pos.2 stepsPerOne_pos) (Nat.cast_pos.2 hden)]
  exact_mod_cast Iff.rfl

/-- On which side of the middle of two neighbours a quotient is. -/
theorem compare_middle : compare (2 * (num / den : ℚ)) (magnitude k + magnitude (k + 1)) =
    compare (2 * (num * stepsPerOne)) ((units k + units (k + 1)) * den) := by
  have hscale : (0 : ℚ) < stepsPerOne := Nat.cast_pos.2 stepsPerOne_pos
  have hden' : (0 : ℚ) < den := Nat.cast_pos.2 hden
  have hpos := mul_pos hscale hden'
  have hdouble : 2 * (num / den : ℚ) = (2 * (num * stepsPerOne) : ℕ) / (stepsPerOne * den) := by
    push_cast
    field_simp
  have hmiddle : magnitude k + magnitude (k + 1) =
      ((units k + units (k + 1)) * den : ℕ) / (stepsPerOne * den) := by
    rw [magnitude, magnitude]
    push_cast
    field_simp
  rw [hdouble, hmiddle]
  rcases lt_trichotomy (2 * (num * stepsPerOne)) ((units k + units (k + 1)) * den) with h | h | h
  · rw [compare_lt_iff_lt.2 h, compare_lt_iff_lt]
    exact div_lt_div_of_pos_right (Nat.cast_lt.2 h) hpos
  · rw [h, compare_eq_iff_eq.2 rfl, compare_eq_iff_eq.2 rfl]
  · rw [compare_gt_iff_gt.2 h, compare_gt_iff_gt]
    exact div_lt_div_of_pos_right (Nat.cast_lt.2 h) hpos

end

/-- What `nearestRank` finds is the closest rank, if that is a finite one. -/
theorem exists_isClosest (num : Nat) {den : Nat} (hden : 0 < den) :
    ∃ r, IsClosest (num / den) r ∧ nearestRank num den = min infinityRank r := by
  obtain ⟨k, hk⟩ : ∃ k, k = floorRank (num * stepsPerOne / den) := ⟨_, rfl⟩
  obtain ⟨hlow, hhigh⟩ := floorRank_spec (num * stepsPerOne / den)
  rw [← hk, Nat.le_div_iff_mul_le hden, ← magnitude_le_div_iff hden] at hlow
  rw [← hk, Nat.div_lt_iff_lt_mul hden, ← Nat.not_le, ← magnitude_le_div_iff hden, not_le] at hhigh
  have hneighbours := fun r => @IsClosest.of_neighbours (num / den) r k hlow hhigh.le
  simp only [nearestRank, ← hk, ← compare_middle hden]
  cases hside : compare (2 * (num / den : ℚ)) (magnitude k + magnitude (k + 1)) with
  | lt =>
    have h := compare_lt_iff_lt.1 hside
    exact ⟨k, hneighbours k (.inl ⟨rfl, h.le⟩) fun htie => absurd htie h.ne, rfl⟩
  | eq =>
    have h := compare_eq_iff_eq.1 hside
    refine ⟨k + k % 2, hneighbours _ ?_ fun _ => by omega, rfl⟩
    rcases Nat.mod_two_eq_zero_or_one k with hk2 | hk2
    · exact .inl ⟨by omega, h.le⟩
    · exact .inr ⟨by omega, h.ge⟩
  | gt =>
    have h := compare_gt_iff_gt.1 hside
    exact ⟨k + 1, hneighbours _ (.inr ⟨rfl, h.le⟩) fun htie => absurd htie h.ne', rfl⟩

/-! ### The end of the range -/

/-- The middle between the largest finite magnitude and `2 ^ 1024`. -/
def rangeEnd : ℚ :=
  2 ^ 1024 - 2 ^ 970

/-- From `2 ^ 52` on the magnitudes are whole numbers. -/
theorem magnitude_of_binade (e : Nat) {k : Nat} (hlow : binadeSize ≤ k) (hk : k ≤ 2 * binadeSize) :
    magnitude ((1074 + e) * binadeSize + k) = k * 2 ^ e := by
  have hpow : (2 : Nat) ^ (1074 + e) = 2 ^ e * stepsPerOne := by
    rw [stepsPerOne_eq (Nat.zero_add 1074), pow_zero, one_mul, ← pow_add, Nat.add_comm]
  rw [magnitude, units_eq (.inr hlow) hk, hpow, ← mul_assoc, Nat.cast_mul,
    mul_div_cancel_right₀ _ stepsPerOne_ne_zero, Nat.cast_mul, Nat.cast_pow, Nat.cast_ofNat]

theorem magnitude_add_infinity :
    magnitude (infinityRank - 1) + magnitude infinityRank = 2 * rangeEnd := by
  have hlast : infinityRank - 1 = (1074 + 971) * binadeSize + (2 * binadeSize - 1) := by decide
  have hinfinity : infinityRank = (1074 + 971) * binadeSize + 2 * binadeSize := by decide
  have hend : (2 : ℚ) ^ 1024 = 2 ^ 54 * 2 ^ 970 := by rw [← pow_add]
  have htop : (2 : ℚ) ^ 971 = 2 * 2 ^ 970 := pow_succ' 2 970
  rw [hlast, hinfinity, magnitude_of_binade 971 (by decide) (Nat.sub_le ..),
    magnitude_of_binade 971 (by decide) le_rfl, rangeEnd, hend, htop, Nat.cast_sub (by decide), binadeSize_eq]
  generalize (2 : ℚ) ^ 970 = t
  push_cast
  ring

theorem isClosest_infinityRank : IsClosest rangeEnd infinityRank := by
  have hsucc : infinityRank - 1 + 1 = infinityRank := by decide
  have hmag := magnitude_strictMono (show infinityRank - 1 < infinityRank by decide)
  have hmiddle := magnitude_add_infinity
  refine .of_neighbours (k := infinityRank - 1) ?_ ?_ (.inr ⟨hsucc.symm, ?_⟩) fun _ => by decide
  · linarith
  · rw [hsucc]
    linarith
  · rw [hsucc, hmiddle]

theorem IsClosest.infinityRank_le_iff {q : ℚ} {r : Nat} (h : IsClosest q r) :
    infinityRank ≤ r ↔ rangeEnd ≤ q := by
  constructor
  · intro hr
    have hle := h.middle_le (show infinityRank - 1 < r from Nat.lt_of_lt_of_le (by decide) hr)
    have hmag := magnitude_strictMono.monotone hr
    have hmiddle := magnitude_add_infinity
    linarith
  · exact isClosest_infinityRank.mono h

/-- Below the end of the range the last finite rank is closer than infinity and all beyond it. -/
theorem abs_last_sub_lt {q : ℚ} {other : Nat} (hq : q < rangeEnd) (hother : infinityRank ≤ other) :
    |magnitude (infinityRank - 1) - q| < |magnitude other - q| := by
  have hmag := magnitude_strictMono (show infinityRank - 1 < infinityRank by decide)
  have hmono := magnitude_strictMono.monotone hother
  have hmiddle := magnitude_add_infinity
  exact lt_of_lt_of_le (abs_lt.2 ⟨by linarith, by linarith⟩) (le_abs_self _)

/-! ### Rounded numbers -/

namespace Binary64

/-- The exact value of a finite number. -/
def value : Binary64 → ℚ
  | nan => 0
  | signed negative rank _ => if negative then -magnitude rank else magnitude rank

/-- The sign bit. -/
def isNegative : Binary64 → Bool
  | nan => false
  | signed negative _ _ => negative

/-- Whether the significand is even. -/
def IsEven : Binary64 → Prop
  | nan => False
  | signed _ rank _ => rank % 2 = 0

def IsInfinite : Binary64 → Prop
  | nan => False
  | signed _ rank _ => rank = infinityRank

/-- No finite number is closer to the quantity, and if another one is as close, this one is even. -/
structure IsNearest (x : Binary64) (q : ℚ) : Prop where
  isFinite : x.IsFinite
  le : ∀ y : Binary64, y.IsFinite → |x.value - q| ≤ |y.value - q|
  even : ∀ y : Binary64, y.IsFinite → |x.value - q| = |y.value - q| → y.value = x.value ∨ x.IsEven

/-- The number that a quantity rounds to. It has the sign of the quantity; zero rounds to both zeros. -/
structure RoundsTo (q : ℚ) (x : Binary64) : Prop where
  sign : q ≠ 0 → x.isNegative = decide (q < 0)
  infinite : rangeEnd ≤ |q| → x.IsInfinite
  nearest : |q| < rangeEnd → x.IsNearest q

variable {q : ℚ} {negative : Bool} {rank : Nat}

theorem abs_value (negative : Bool) (hle : rank ≤ infinityRank) :
    |(signed negative rank hle).value| = magnitude rank := by
  have hnonneg := magnitude_nonneg rank
  cases negative <;> simp [value, abs_of_nonneg hnonneg]

/-- A number with the sign of the quantity is as far from it as its magnitude is. -/
theorem abs_value_sub (hle : rank ≤ infinityRank) (hsign : q ≠ 0 → negative = decide (q < 0)) :
    |(signed negative rank hle).value - q| = |magnitude rank - (|q|)| := by
  rcases lt_trichotomy q 0 with hq | rfl | hq
  · rw [hsign hq.ne, decide_eq_true hq, abs_of_neg hq, value, if_pos rfl, ← abs_neg]
    congr 1
    ring
  · rw [sub_zero, abs_zero, sub_zero, abs_value, abs_of_nonneg (magnitude_nonneg rank)]
  · rw [hsign hq.ne', decide_eq_false hq.not_gt, abs_of_pos hq]
    rfl

theorem abs_magnitude_sub_le (q : ℚ) (negative : Bool) (hle : rank ≤ infinityRank) :
    |magnitude rank - (|q|)| ≤ |(signed negative rank hle).value - q| := by
  have hreverse := abs_abs_sub_abs_le (signed negative rank hle).value q
  rwa [abs_value] at hreverse

variable {hle : rank ≤ infinityRank}

theorem value_eq_of_abs_sub_eq {negative' : Bool} (h : IsClosest |q| rank)
    (heq : |(signed negative rank hle).value - q| = |(signed negative' rank hle).value - q|) :
    (signed negative' rank hle).value = (signed negative rank hle).value := by
  have hvalue : (signed negative' rank hle).value = (signed negative rank hle).value ∨
      (signed negative' rank hle).value = -(signed negative rank hle).value := by
    cases negative <;> cases negative' <;> simp [value]
  rcases hvalue with hvalue | hvalue
  · exact hvalue
  rcases abs_eq_abs.1 heq with hsub | hsub
  · linarith
  · -- Both signs are equally far from zero only, and zero has one closest rank.
    obtain rfl : q = 0 := by linarith
    have hzero := h.le 0
    rw [abs_zero, sub_zero, sub_zero, magnitude_zero, abs_zero, ← abs_value negative hle, abs_abs,
      abs_nonpos_iff] at hzero
    rw [hvalue, hzero, neg_zero]

theorem roundsTo_of_isClosest {r : Nat} (h : IsClosest |q| r) (hrank : rank = min infinityRank r)
    (hsign : q ≠ 0 → negative = decide (q < 0)) : RoundsTo q (signed negative rank hle) where
  sign := hsign
  infinite := fun hq => by
    rw [IsInfinite, hrank, Nat.min_eq_left (h.infinityRank_le_iff.2 hq)]
  nearest := fun hq => by
    have hr : r < infinityRank := Nat.lt_of_not_le fun hr => hq.not_ge (h.infinityRank_le_iff.1 hr)
    obtain rfl : rank = r := hrank.trans (Nat.min_eq_right hr.le)
    have hx := abs_value_sub hle hsign
    refine ⟨hr, fun y hy => ?_, fun y hy heq => ?_⟩
    · cases y with
      | nan => exact hy.elim
      | signed _ other _ =>
        rw [hx]
        exact (h.le other).trans (abs_magnitude_sub_le ..)
    · cases y with
      | nan => exact hy.elim
      | signed negative' other hle' =>
        have hother : |magnitude rank - (|q|)| = |magnitude other - (|q|)| := by
          refine le_antisymm (h.le other) ?_
          rw [← hx, heq]
          exact abs_magnitude_sub_le ..
        by_cases hne : other = rank
        · subst hne
          exact .inl (value_eq_of_abs_sub_eq h heq)
        · exact .inr (h.even other hne hother)

theorem RoundsTo.abs_sub_value (h : RoundsTo q (signed negative rank hle)) :
    |q - (signed negative rank hle).value| = |(|q|) - magnitude rank| := by
  have hsign : q ≠ 0 → negative = decide (q < 0) := h.sign
  rw [abs_sub_comm, abs_value_sub hle hsign, abs_sub_comm]

/-- The rank of a nearest number is closest among the finite ones. -/
theorem IsNearest.closest_of_finite (h : IsNearest (signed negative rank hle) q) {other : Nat}
    (hother : other < infinityRank) : |magnitude rank - (|q|)| ≤ |magnitude other - (|q|)| ∧
      (other ≠ rank → |magnitude rank - (|q|)| = |magnitude other - (|q|)| → rank % 2 = 0) := by
  -- It is compared with the number of the other rank that has the sign of the quantity.
  have hy := abs_value_sub (q := q) hother.le fun _ => rfl
  have hxy := h.le (signed (decide (q < 0)) other hother.le) hother
  have hties := h.even (signed (decide (q < 0)) other hother.le) hother
  have hlower := abs_magnitude_sub_le q negative hle
  rw [hy] at hxy
  refine ⟨hlower.trans hxy, fun hne heq => ?_⟩
  have heq' := le_antisymm hxy (heq ▸ hlower)
  rw [← hy] at heq'
  refine (hties heq').resolve_left fun hvalue => hne ?_
  have habs := congrArg abs hvalue
  rw [abs_value, abs_value] at habs
  exact magnitude_strictMono.injective habs

/-- Of the ranks up to infinity the one that a quantity rounds to is the closest. -/
theorem RoundsTo.isClosest (h : RoundsTo q (signed negative rank hle)) (hrank : rank < infinityRank) :
    IsClosest |q| rank := by
  have hq : |q| < rangeEnd := lt_of_not_ge fun hq => Nat.ne_of_lt hrank (h.infinite hq)
  have hx := h.nearest hq
  have hfar : ∀ {other}, infinityRank ≤ other → |magnitude rank - (|q|)| < |magnitude other - (|q|)| :=
    fun hother => lt_of_le_of_lt
      (hx.closest_of_finite (show infinityRank - 1 < infinityRank by decide)).1 (abs_last_sub_lt hq hother)
  constructor
  · intro other
    rcases Nat.lt_or_ge other infinityRank with hother | hother
    · exact (hx.closest_of_finite hother).1
    · exact (hfar hother).le
  · intro other hne heq
    rcases Nat.lt_or_ge other infinityRank with hother | hother
    · exact (hx.closest_of_finite hother).2 hne heq
    · exact absurd heq (hfar hother).ne

theorem RoundsTo.isInfinite_iff {x : Binary64} (h : RoundsTo q x) : x.IsInfinite ↔ rangeEnd ≤ |q| := by
  refine ⟨fun hx => le_of_not_gt fun hq => ?_, h.infinite⟩
  have hfinite := (h.nearest hq).isFinite
  cases x with
  | nan => exact hx
  | signed _ rank _ => exact Nat.ne_of_lt hfinite hx

theorem RoundsTo.rank_eq {r : Nat} (h : RoundsTo q (signed negative rank hle))
    (hclosest : IsClosest |q| r) :
    rank = min infinityRank r := by
  rcases Nat.lt_or_ge r infinityRank with hr | hr
  · have hq : |q| < rangeEnd := lt_of_not_ge fun hq => hr.not_ge (hclosest.infinityRank_le_iff.2 hq)
    rw [(h.isClosest (h.nearest hq).isFinite).unique hclosest, Nat.min_eq_right hr.le]
  · rw [h.infinite (hclosest.infinityRank_le_iff.1 hr), Nat.min_eq_left hr]

/-- Up to half of the smallest magnitude everything rounds to zero. -/
theorem RoundsTo.value_eq_zero {x : Binary64} (h : RoundsTo q x) (hq : 2 * |q| ≤ magnitude 1) :
    x.value = 0 := by
  cases x with
  | nan => rfl
  | signed negative rank hle =>
    have hnonneg := abs_nonneg q
    have hclosest : IsClosest |q| 0 := by
      refine .of_neighbours (k := 0) ?_ ?_ (.inl ⟨rfl, ?_⟩) fun _ => rfl
      · rwa [magnitude_zero]
      · linarith
      · rwa [magnitude_zero, zero_add]
    obtain rfl : rank = 0 := h.rank_eq hclosest
    cases negative <;> simp [value]

/-- The number of a quotient is what the quotient rounds to, with either sign. -/
theorem roundsTo_ofQuotient (negative : Bool) (num : Nat) {den : Nat} (hden : 0 < den) :
    RoundsTo (if negative then -(num / den) else num / den) (ofQuotient negative num den) := by
  obtain ⟨r, hclosest, hrank⟩ := exists_isClosest num hden
  have hnonneg : (0 : ℚ) ≤ num / den := by positivity
  cases negative with
  | false =>
    refine roundsTo_of_isClosest (r := r) ?_ hrank fun _ => ?_
    · simpa [abs_of_nonneg hnonneg] using hclosest
    · simpa using hnonneg
  | true =>
    refine roundsTo_of_isClosest (r := r) ?_ hrank fun hne => ?_
    · simpa [abs_of_nonneg hnonneg] using hclosest
    · have hneg : -(num / den : ℚ) < 0 := lt_of_le_of_ne (neg_nonpos.2 hnonneg) (by simpa using hne)
      simpa using hneg

end Binary64

end SnapLisp
