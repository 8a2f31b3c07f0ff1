import Mathlib.Data.List.DropRight
import SnapLisp.Proofs.Number.Shortest

/-!
# Canonical numerals

A decimal without zeros at the end of its coefficient is written without a zero in front of the whole
part or behind the fraction (`Decimal.IsPlaced.isCanonical`), and the significant digits of its text are
those of the coefficient (`Decimal.IsPlaced.significant_eq`). Main statement: a finite number in the plain
layout has this form, no decimal that rounds to it has fewer significant digits, and none of as many is
closer (`write_canonical`).
-/

namespace SnapLisp

/-- Up to its sign, the quantity is a decimal with no more than `n` significant digits. -/
def IsDecimal (n : Nat) (q : ℚ) : Prop :=
  ∃ d : Decimal, d.coefficient < 10 ^ n ∧ |q| = d.value

namespace Numeral

/-- The digits of a text from the first one to the last one that is not a zero. -/
def significant (text : List Char) : List Char :=
  ((text.filter isDigit).dropWhile (· = '0')).rdropWhile (· = '0')

/-- A whole part without a leading zero, or just a zero, and a fraction that does not end in a zero. -/
structure IsCanonical (whole fraction : List Char) : Prop where
  digits : ∀ c ∈ whole ++ fraction, isDigit c = true
  ne_nil : whole ≠ []
  leading : whole = ['0'] ∨ whole.head? ≠ some '0'
  last : fraction.getLast? ≠ some '0'

/-- The text denotes a decimal that rounds to the number; none has fewer significant digits, and none of
as many is closer to the number. -/
structure IsShortest (text : List Char) (x : Binary64) : Prop where
  rounds : x.RoundsTo (denoted text)
  isDecimal : IsDecimal (significant text).length (denoted text)
  le : ∀ {n q}, IsDecimal n q → x.RoundsTo q → (significant text).length ≤ n
  closest : ∀ {q}, IsDecimal (significant text).length q → x.RoundsTo q →
    |denoted text - x.value| ≤ |q - x.value|

end Numeral

/-! ### The digits of a trimmed decimal -/

theorem digitChar_ne_zero {d : Nat} (h : d < 10) (hne : d ≠ 0) : digitChar d ≠ '0' := by
  revert d
  decide

theorem head?_digits {n : Nat} (hne : n ≠ 0) : ∃ c, (digits n).head? = some c ∧ c ≠ '0' := by
  induction n using Nat.strongRecOn with
  | ind n ih =>
    rcases Nat.lt_or_ge n 10 with h | h
    · exact ⟨_, by rw [digits_of_lt h]; rfl, digitChar_ne_zero h hne⟩
    · obtain ⟨c, hc, hzero⟩ := ih (n / 10) (by omega) (by omega)
      exact ⟨c, by rw [digits_of_le h, List.head?_append, hc]; rfl, hzero⟩

theorem getLast?_digits {n : Nat} (hne : n % 10 ≠ 0) : ∃ c, (digits n).getLast? = some c ∧ c ≠ '0' := by
  rcases Nat.lt_or_ge n 10 with h | h
  · exact ⟨_, by rw [digits_of_lt h]; rfl, digitChar_ne_zero h (by omega)⟩
  · have hlast := digitChar_ne_zero (Nat.mod_lt n (by decide)) hne
    exact ⟨_, by rw [digits_of_le h, List.getLast?_concat], hlast⟩

theorem dropWhile_zeros_append {c : Char} {cs : List Char} (hc : cs.head? = some c) (hne : c ≠ '0')
    (k : Nat) :
    (List.replicate k '0' ++ cs).dropWhile (· = '0') = cs := by
  obtain ⟨cs, rfl⟩ := List.head?_eq_some_iff.1 hc
  rw [List.dropWhile_append_of_pos fun c hc => decide_eq_true (List.eq_of_mem_replicate hc),
    List.dropWhile_cons_of_neg (by simpa using hne)]

namespace Decimal

/-- No zero is left at the end of the coefficient. -/
def IsTrimmed (d : Decimal) : Prop :=
  d = ⟨0, 0⟩ ∨ d.coefficient % 10 ≠ 0

/-- The digits of the coefficient, of which zero has none. -/
def significant (d : Decimal) : List Char :=
  if d.coefficient = 0 then [] else digits d.coefficient

theorem coefficient_lt (d : Decimal) : d.coefficient < 10 ^ d.significant.length := by
  unfold significant
  split
  · rename_i hzero
    simp [hzero]
  · exact lt_pow_length_digits d.coefficient

theorem isTrimmed_trim (d : Decimal) : d.trim.IsTrimmed := by
  by_cases hne : d.coefficient = 0
  · left
    rw [trim, if_pos hne]
  · exact .inr (trim_coefficient_mod hne)

namespace IsPlaced
variable {d : Decimal} {whole fraction : List Char} {front back : Nat}

theorem of_zero (h : IsPlaced ⟨0, 0⟩ whole fraction front back) : whole = ['0'] ∧ fraction = [] := by
  have hexponent := h.exponent
  have hdigits := h.eq_digits
  have hfraction : fraction = [] := by
    refine h.back.elim (fun hback => List.length_eq_zero_iff.1 ?_) id
    simp only at hexponent
    omega
  refine ⟨h.front.elim (fun hfront => ?_) id, hfraction⟩
  obtain rfl : back = 0 := by simpa [hfraction, eq_comm] using hexponent
  simpa [hfraction, hfront, digits_of_lt, digitChar] using hdigits

theorem isCanonical (h : d.IsPlaced whole fraction front back) (htrimmed : d.IsTrimmed) :
    Numeral.IsCanonical whole fraction := by
  rcases htrimmed with rfl | hmod
  · obtain ⟨rfl, rfl⟩ := h.of_zero
    exact ⟨h.forall_isDigit, h.ne_nil, .inl rfl, by simp⟩
  refine ⟨h.forall_isDigit, h.ne_nil, h.front.elim (fun hfront => .inr ?_) .inl, ?_⟩
  · obtain ⟨c, hc, hzero⟩ := head?_digits (show d.coefficient ≠ 0 by omega)
    have hhead := congrArg List.head? h.eq_digits
    rw [hfront, List.replicate_zero, List.nil_append, List.head?_append_of_ne_nil _ h.ne_nil,
      List.head?_append_of_ne_nil _ (digits_ne_nil _), hc] at hhead
    simpa [hhead] using hzero
  · by_cases hnil : fraction = []
    · simp [hnil]
    obtain ⟨c, hc, hzero⟩ := getLast?_digits hmod
    have hlast := congrArg List.getLast? h.eq_digits
    rw [h.back.resolve_right hnil, List.replicate_zero, List.append_nil,
      List.getLast?_append_of_ne_nil _ hnil, List.getLast?_append_of_ne_nil _ (digits_ne_nil _),
      hc] at hlast
    simpa [hlast] using hzero

/-- The zeros in front and behind are not significant. -/
theorem significant_eq (h : d.IsPlaced whole fraction front back) (htrimmed : d.IsTrimmed)
    (negative : Bool) :
    Numeral.significant (signText negative ++ Numeral.pointed whole fraction) = d.significant := by
  obtain ⟨hwhole, hfraction⟩ := List.forall_mem_append.1 h.forall_isDigit
  obtain ⟨rest, hrest, hpoint, rfl⟩ := Numeral.exists_pointed whole fraction
  rw [Numeral.significant, hrest, Numeral.filter_isDigit_append (Numeral.isSignText_signText negative).1
    hwhole hpoint hfraction, h.eq_digits]
  rcases htrimmed with rfl | hmod
  · obtain ⟨rfl, hnil⟩ := h.of_zero
    rw [← h.eq_digits, hnil]
    rfl
  · obtain ⟨c, hc, hzero⟩ := head?_digits (show d.coefficient ≠ 0 by omega)
    obtain ⟨c', hc', hzero'⟩ := getLast?_digits hmod
    have hhead : (SnapLisp.digits d.coefficient ++ List.replicate back '0').head? = some c := by
      rw [List.head?_append, hc]
      rfl
    rw [Decimal.significant, if_neg (by omega), List.append_assoc, dropWhile_zeros_append hhead hzero,
      List.rdropWhile, List.reverse_append, List.reverse_replicate,
      dropWhile_zeros_append (by rw [List.head?_reverse, hc']) hzero',
      List.reverse_reverse]

theorem denoted_eq (h : d.IsPlaced whole fraction front back) (negative : Bool) :
    Numeral.denoted (signText negative ++ Numeral.pointed whole fraction) =
      if negative then -d.value else d.value := by
  obtain ⟨hwhole, hfraction⟩ := List.forall_mem_append.1 h.forall_isDigit
  have hsign := (Numeral.isSignText_signText negative).1
  have hvalue : value ⟨ofDigits (whole ++ fraction), -fraction.length⟩ = d.value := by
    rw [h.eq_shift, value_shift, sub_add_cancel]
  obtain ⟨rest, hrest, hpoint, rfl⟩ := Numeral.exists_pointed whole fraction
  rw [hrest, Numeral.denoted_append hsign h.ne_nil hwhole hpoint hfraction, hvalue]
  cases negative <;> simp [signText]

end IsPlaced

/-! ### The shortest decimal of a rank -/

variable {p : Decimal} {r m : Nat}

theorem isTrimmed_shortestOfRank (r : Nat) : (shortestOfRank r).IsTrimmed :=
  isTrimmed_trim _

theorem shortestOfRank_zero : shortestOfRank 0 = ⟨0, 0⟩ := by
  have hvalue := value_ofRank 0
  rw [magnitude_zero, value, mul_eq_zero] at hvalue
  have hzero : (ofRank 0).coefficient = 0 :=
    Nat.cast_eq_zero.1 (hvalue.resolve_right (zpow_ne_zero _ (by norm_num)))
  rw [shortestOfRank, shortest, hzero, digits_of_lt (by decide), List.length_singleton, Nat.sub_self,
    shortestFrom, trim, if_pos hzero]

theorem significant_shortestOfRank_le (hr : r < infinityRank) (hp : p.rank = r)
    (hm : p.coefficient < 10 ^ m) :
    (shortestOfRank r).significant.length ≤ m ∧ (m = (shortestOfRank r).significant.length →
      |(shortestOfRank r).value - magnitude r| ≤ |p.value - magnitude r|) := by
  by_cases hzero : r = 0
  · have hzero' : value ⟨0, 0⟩ = magnitude 0 := by simp [value]
    rw [hzero, shortestOfRank_zero, hzero', sub_self, abs_zero]
    exact ⟨Nat.zero_le m, fun _ => abs_nonneg _⟩
  · have hne : (shortestOfRank r).coefficient ≠ 0 :=
      coefficient_ne_zero ((rank_shortestOfRank hr.le).symm ▸ hzero)
    rw [significant, if_neg hne]
    exact shortestOfRank_le hr hzero hp hm

end Decimal

/-- A text with the value and the digits of the shortest decimal is a shortest text. -/
theorem Numeral.IsShortest.of_shortestOfRank {negative : Bool} {rank : Nat} {hle : rank ≤ infinityRank}
    (hrank : rank < infinityRank) {text : List Char}
    (hdenoted : denoted text = if negative then -(Decimal.shortestOfRank rank).value
      else (Decimal.shortestOfRank rank).value)
    (hsignificant : significant text = (Decimal.shortestOfRank rank).significant) :
    IsShortest text (.signed negative rank hle) := by
  have habs : |denoted text| = (Decimal.shortestOfRank rank).value := by
    have hnonneg := (Decimal.shortestOfRank rank).value_nonneg
    rw [hdenoted]
    cases negative <;> simp [abs_of_nonneg hnonneg]
  have hrounds : (Binary64.signed negative rank hle).RoundsTo (denoted text) := by
    have hround := Binary64.roundsTo_ofDecimal negative (Decimal.shortestOfRank rank)
    simpa only [Binary64.ofDecimal, Decimal.rank_shortestOfRank hle, ← hdenoted] using hround
  have hleast : ∀ {n q}, IsDecimal n q → (Binary64.signed negative rank hle).RoundsTo q →
      (significant text).length ≤ n ∧ (n = (significant text).length →
        |denoted text - (Binary64.signed negative rank hle).value| ≤
          |q - (Binary64.signed negative rank hle).value|) := by
    rintro n q ⟨p, hp, hq⟩ hround
    have hp' := (Decimal.isClosest_iff hrank).1 (hq ▸ hround.isClosest hrank)
    have hle' := Decimal.significant_shortestOfRank_le hrank hp' hp
    -- All three have the same sign, so that only the magnitudes count.
    rwa [hsignificant, hrounds.abs_sub_value, hround.abs_sub_value, habs, hq]
  refine ⟨hrounds, ⟨_, ?_, habs⟩, fun hn hq => (hleast hn hq).1, fun hn hq => (hleast hn hq).2 rfl⟩
  rw [hsignificant]
  exact Decimal.coefficient_lt _

/-- A finite number in the plain layout is written in the canonical form, with the sign in front if it is
negative, and its text is a shortest one. -/
theorem write_canonical {x : Binary64} (hx : x.IsFinite) :
    (∃ whole fraction, Layout.plain.write x = signText x.isNegative ++ Numeral.pointed whole fraction ∧
      Numeral.IsCanonical whole fraction) ∧ Numeral.IsShortest (Layout.plain.write x) x := by
  cases x with
  | nan => exact hx.elim
  | signed negative rank hle =>
    obtain ⟨whole, fraction, front, back, htext, hplaced⟩ := (Decimal.shortestOfRank rank).exists_isPlaced
    have htrimmed := Decimal.isTrimmed_shortestOfRank rank
    rw [write_signed hx, htext]
    refine ⟨⟨whole, fraction, rfl, hplaced.isCanonical htrimmed⟩, ?_⟩
    exact .of_shortestOfRank hx (hplaced.denoted_eq negative) (hplaced.significant_eq htrimmed negative)

/-- The least number of all: five, behind 323 zeros. -/
theorem write_canonical_least :
    let x : Binary64 := .signed false 1 (by decide)
    x.IsFinite ∧ Numeral.IsShortest (Layout.plain.write x) x := by
  intro x
  have hx : x.IsFinite := show 1 < infinityRank by decide
  exact ⟨hx, (write_canonical hx).2⟩

end SnapLisp
